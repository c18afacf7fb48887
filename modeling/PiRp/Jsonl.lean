import PiRp.JsonText
import PiRp.SessionOperation

/-! The JSONL session files of `packages/agent/src/harness/session/jsonl`: the line codec of
`codec.ts` and `JsonlSessionStorage` of `storage.ts`. A property that is `undefined` is absent. A
file is its text; an append may fail after it has written a part of its data. -/

namespace PiRp.Jsonl

open Session

def newline : UInt16 := 0x0a

/-! ### The codec -/

/-- A natural number that is a safe integer. -/
abbrev SafeNatural := { value : Nat // value ≤ maxSafeInteger }

structure JsonlV4Header where
  id : JsStr
  createdAt : SafeNatural
  cwd : JsStr
  parentSessionId : Option JsStr
  legacyParentSessionPath : Option JsStr
  metadata : Option (Props Json)
  oneParent : parentSessionId = none ∨ legacyParentSessionPath = none
  serializable : ∀ props, metadata = some props → (Json.object props).Serializable

inductive DecodeErrorKind where
  | syntaxError
  | schema
  /-- The line passes the checks but is not of the declared type, which the code does not check. -/
  | untyped
  deriving DecidableEq

/-- `JsonlDecodeError`. -/
structure JsonlDecodeError where
  kind : DecodeErrorKind
  message : JsStr

def schemaError (message : JsStr) : JsonlDecodeError := ⟨.schema, message⟩

def untypedError : JsonlDecodeError := ⟨.untyped, js "is not of its declared type"⟩

section Requirements

variable {α : Type}

def requireString (value : Option Json) (field : JsStr) : Except JsonlDecodeError JsStr :=
  match value with
  | some (.string value) => .ok value
  | _ => .error (schemaError (js "has invalid " ++ field))

/-- An optional string; `undefined` is allowed. -/
def optionalString (value : Option Json) (field : JsStr) :
    Except JsonlDecodeError (Option JsStr) :=
  match value with
  | none => .ok none
  | some (.string value) => .ok (some value)
  | _ => .error (schemaError (js "has invalid " ++ field))

/-- The natural number a safe integer stands for; minus zero is zero. -/
def safeNatural? (value : Option Json) : Option SafeNatural :=
  match value with
  | some (.number (.int (.ofNat value))) =>
    if h : value ≤ maxSafeInteger then some ⟨value, h⟩ else none
  | some (.number .negZero) => some ⟨0, Nat.zero_le _⟩
  | _ => none

def requireSequence (value : Option Json) : Except JsonlDecodeError Nat :=
  match safeNatural? value with
  | some ⟨value + 1, _⟩ => .ok (value + 1)
  | _ => .error (schemaError (js "has invalid seq"))

def requireTimestamp (value : Option Json) : Except JsonlDecodeError SafeNatural :=
  match safeNatural? value with
  | some value => .ok value
  | none => .error (schemaError (js "has invalid timestamp"))

def requireNullableId (value : Option Json) (field : JsStr) :
    Except JsonlDecodeError (Option JsStr) :=
  match value with
  | some .null => .ok none
  | some (.string value) => .ok (some value)
  | _ => .error (schemaError (js "has invalid " ++ field))

/-- The member of an enumeration with the given name. -/
def requireName (name : α → JsStr) (all : List α) (value message : JsStr) :
    Except JsonlDecodeError α :=
  match all.find? fun candidate => name candidate = value with
  | some candidate => .ok candidate
  | none => .error (schemaError (message ++ value))

end Requirements

/-- The properties other than the given ones, as a payload. -/
def requirePayload (props : Props Json) (fields : List JsStr) :
    Except JsonlDecodeError Payload :=
  let rest := props.filter fun entry => entry.1 ∉ fields
  if h : (Json.object rest).Serializable ∧ ∀ entry ∈ rest, IsPayloadKey entry.1 then
    .ok ⟨rest, h.1, h.2⟩
  else .error untypedError

def parseEntryMutation (value : Props Json) (seq : Nat) :
    Except JsonlDecodeError SessionMutation := do
  let lane ← optionalString (value.get? (js "lane")) (js "lane")
  let id ← requireString (value.get? (js "id")) (js "id")
  let typeName ← requireString (value.get? (js "type")) (js "entry type")
  let type ← requireName EntryType.name EntryType.all typeName (js "has unknown entry type ")
  let parentId ← requireNullableId (value.get? (js "parentId")) (js "parentId")
  let timestamp ← requireTimestamp (value.get? (js "timestamp"))
  if type = .custom then
    let _ ← requireString (value.get? (js "customType")) (js "customType")
  let payload ← requirePayload value
    [js "kind", js "lane", js "id", js "type", js "parentId", js "seq", js "timestamp"]
  if typed : EntryTyped type payload.props then
    return .entry lane { type, id, payload, typed, parentId, seq, timestamp := timestamp.1 }
  else .error untypedError

/-- The checks on the fields of a record of some type. -/
def requireRecordFields (value : Props Json) (type : RecordType) : Except JsonlDecodeError Unit :=
  match type with
  | .operationStarted =>
    match value.get? (js "intent") with
    | some (.object intent) => do
        let operationKind ← requireString (Props.get? intent (js "kind")) (js "operation kind")
        let _ ← requireName OperationKind.name OperationKind.all operationKind
          (js "has unknown operation kind ")
    | _ => .error (schemaError (js "has invalid intent"))
  | .operationFinished => do
      let _ ← requireString (value.get? (js "runId")) (js "runId")
  | _ => .ok ()

def parseRecordMutation (value : Props Json) (seq : Nat) :
    Except JsonlDecodeError SessionMutation := do
  let id ← requireString (value.get? (js "id")) (js "id")
  let lane ← requireString (value.get? (js "lane")) (js "lane")
  let typeName ← requireString (value.get? (js "type")) (js "record type")
  let type ← requireName RecordType.name RecordType.all typeName (js "has unknown record type ")
  let timestamp ← requireTimestamp (value.get? (js "timestamp"))
  requireRecordFields value type
  let payload ← requirePayload value
    [js "kind", js "id", js "lane", js "type", js "seq", js "timestamp"]
  if typed : RecordTyped type payload.props then
    return .record { type, id, lane, payload, typed, seq, timestamp := timestamp.1 }
  else .error untypedError

def parseLaneMutation (value : Props Json) (seq : Nat) :
    Except JsonlDecodeError SessionMutation := do
  let lane ← requireString (value.get? (js "lane")) (js "lane")
  let leafId ← requireNullableId (value.get? (js "leafId")) (js "leafId")
  return .lane seq lane leafId

def parseFactMutation (value : Props Json) (seq : Nat) :
    Except JsonlDecodeError SessionMutation :=
  let fact := stringAt? value (js "fact")
  if fact = some (js "name") then do
    let name ← optionalString (value.get? (js "name")) (js "name")
    return .name seq name
  else if fact = some (js "label") then do
    let label ← optionalString (value.get? (js "label")) (js "label")
    let targetId ← requireString (value.get? (js "targetId")) (js "targetId")
    return .label seq targetId label
  else .error (schemaError (js "has unknown fact type"))

/-- The object of a mutation line, decoded. -/
def decodeObject (value : Props Json) : Except JsonlDecodeError SessionMutation := do
  let seq ← requireSequence (value.get? (js "seq"))
  let kind := stringAt? value (js "kind")
  if kind = some (js "entry") then parseEntryMutation value seq
  else if kind = some (js "record") then parseRecordMutation value seq
  else if kind = some (js "lane") then parseLaneMutation value seq
  else if kind = some (js "fact") then parseFactMutation value seq
  else .error (schemaError (js "has unknown mutation kind"))

/-- The metadata of a header. -/
def requireMetadata (value : Option Json) :
    Except JsonlDecodeError
      { metadata : Option (Props Json) // ∀ props, metadata = some props →
        (Json.object props).Serializable } :=
  match value with
  | none => .ok ⟨none, fun _ h => nomatch h⟩
  | some (.object props) =>
    if h : (Json.object props).Serializable then
      .ok ⟨some props, fun _ heq => Option.some.inj heq ▸ h⟩
    else .error untypedError
  | _ => .error (schemaError (js "has invalid metadata"))

def decodeHeaderObject (value : Props Json) : Except JsonlDecodeError JsonlV4Header := do
  if stringAt? value (js "kind") ≠ some (js "header") then
    .error (schemaError (js "is not a header"))
  else if numberAt? value (js "version") ≠ some (.int 4) then
    .error (schemaError (js "has unsupported session version"))
  else do
    let parentSessionId ← optionalString (value.get? (js "parentSessionId")) (js "parentSessionId")
    let legacyParentSessionPath ←
      optionalString (value.get? (js "legacyParentSessionPath")) (js "legacyParentSessionPath")
    if oneParent : parentSessionId = none ∨ legacyParentSessionPath = none then do
      let metadata ← requireMetadata (value.get? (js "metadata"))
      let id ← requireString (value.get? (js "id")) (js "id")
      let createdAt ← requireTimestamp (value.get? (js "createdAt"))
      let cwd ← requireString (value.get? (js "cwd")) (js "cwd")
      return ⟨id, createdAt, cwd, parentSessionId, legacyParentSessionPath, metadata.1, oneParent, metadata.2⟩
    else .error (schemaError (js "has both parentSessionId and legacyParentSessionPath"))

/-- A property, unless it is `undefined`. -/
def property (key : JsStr) (value : Option Json) : Props Json :=
  match value with
  | none => []
  | some value => [(key, value)]

def nullable (value : Option JsStr) : Json :=
  match value with
  | none => .null
  | some value => .string value

def natural (value : Nat) : Json := .number (.int value)

/-- The properties of the object a mutation is written as. -/
def mutationObject : SessionMutation → Props Json
  | .entry lane entry =>
    [(js "kind", .string (js "entry"))] ++ property (js "lane") (lane.map Json.string) ++
      [(js "type", .string entry.type.name), (js "id", .string entry.id)] ++ entry.payload.props ++
      [(js "parentId", nullable entry.parentId), (js "seq", natural entry.seq),
        (js "timestamp", natural entry.timestamp)]
  | .record record =>
    [(js "kind", .string (js "record")), (js "type", .string record.type.name),
      (js "id", .string record.id), (js "lane", .string record.lane)] ++ record.payload.props ++
      [(js "seq", natural record.seq), (js "timestamp", natural record.timestamp)]
  | .lane seq lane leafId =>
    [(js "kind", .string (js "lane")), (js "seq", natural seq), (js "lane", .string lane),
      (js "leafId", nullable leafId)]
  | .name seq name =>
    [(js "kind", .string (js "fact")), (js "seq", natural seq), (js "fact", .string (js "name"))] ++
      property (js "name") (name.map Json.string)
  | .label seq targetId label =>
    [(js "kind", .string (js "fact")), (js "seq", natural seq), (js "fact", .string (js "label")),
      (js "targetId", .string targetId)] ++ property (js "label") (label.map Json.string)

def headerObject (header : JsonlV4Header) : Props Json :=
  [(js "kind", .string (js "header")), (js "version", natural 4), (js "id", .string header.id),
    (js "createdAt", natural header.createdAt.1), (js "cwd", .string header.cwd)] ++
    property (js "parentSessionId") (header.parentSessionId.map Json.string) ++
    property (js "legacyParentSessionPath") (header.legacyParentSessionPath.map Json.string) ++
    property (js "metadata") (header.metadata.map Json.object)

variable [JsonText.NumberText]

def parseObject (line : JsStr) : Except JsonlDecodeError (Props Json) :=
  match JsonText.parse line with
  | none => .error ⟨.syntaxError, js "is not valid JSON"⟩
  | some (.object props) => .ok props
  | some _ => .error (schemaError (js "is not a JSON object"))

def parseMutation (line : JsStr) : Except JsonlDecodeError SessionMutation := do
  decodeObject (← parseObject line)

def parseHeader (line : JsStr) : Except JsonlDecodeError JsonlV4Header := do
  decodeHeaderObject (← parseObject line)

/-- The text of a mutation, without the newline behind it. -/
def mutationText (mutation : SessionMutation) : JsStr :=
  JsonText.stringify (.object (mutationObject mutation))

def headerText (header : JsonlV4Header) : JsStr :=
  JsonText.stringify (.object (headerObject header))

def encodeMutation (mutation : SessionMutation) : JsStr := mutationText mutation ++ [newline]

def encodeHeader (header : JsonlV4Header) : JsStr := headerText header ++ [newline]

/-! ### The storage -/

inductive FileErrorCode where
  | aborted
  | notFound
  | permissionDenied
  | notDirectory
  | isDirectory
  | invalid
  | notSupported
  | unknown
  deriving DecidableEq

structure FileError where
  code : FileErrorCode
  message : JsStr
  deriving DecidableEq

/-- The error `fileResult` throws. -/
def fileError (error : FileError) (message : JsStr) : SessionError :=
  ⟨if error.code = .notFound then .notFound else .storage, message ++ js ": " ++ error.message⟩

def invalidFile (path : JsStr) (line : Nat) (cause : JsStr) : SessionError :=
  ⟨.invalidEntry, js "Invalid JSONL v4 session " ++ path ++ js ": line " ++ decimal line ++ js " " ++ cause⟩

/-- How an append ends: it writes all of its data, or it fails behind some of it. -/
inductive AppendResult where
  | ok
  | error (written : Nat) (error : FileError)
  deriving DecidableEq

/-- A storage with the content of the file at its path. -/
structure JsonlSessionStorage where
  path : JsStr
  header : JsonlV4Header
  file : JsStr
  state : SessionState

namespace JsonlSessionStorage

def create (path : JsStr) (header : JsonlV4Header) : JsonlSessionStorage :=
  ⟨path, header, encodeHeader header, .initial⟩

variable [JsNumber.Addition]

/-- The loop over the mutation lines behind line `index`: the state they lead to, and whether the
last line is a torn tail. -/
def loadLines (path : JsStr) :
    Nat → SessionState → List JsStr → Except SessionError (SessionState × Bool)
  | _, state, [] => .ok (state, false)
  | index, state, line :: rest =>
    match parseMutation line with
    | .error error =>
      if rest = [] ∧ error.kind = .syntaxError then .ok (state, true)
      else .error (invalidFile path (index + 1) error.message)
    | .ok mutation =>
      match state.applyMutation mutation with
      | (next, none) => loadLines path (index + 1) next rest
      | (_, some error) =>
        if error.code = .invalidEntry then .error (invalidFile path (index + 1) error.message)
        else .error error

/-- The lines of a file; the empty one behind a final newline is dropped. -/
def physicalLines (content : JsStr) : List JsStr :=
  let lines := content.splitOn newline
  if lines.getLast? = some [] then lines.dropLast else lines

/-- Loads the file and repairs its tail. -/
def load (path content : JsStr) : Except SessionError JsonlSessionStorage :=
  match physicalLines content with
  | [] => .error (invalidFile path 1 (js "is missing a header"))
  | headerLine :: lines =>
    if headerLine = [] then .error (invalidFile path 1 (js "is missing a header"))
    else
      match parseHeader headerLine with
      | .error error => .error (invalidFile path 1 error.message)
      | .ok header => do
          let (state, isTornTail) ← loadLines path 1 .initial lines
          let file :=
            if isTornTail then [newline].intercalate (headerLine :: lines.dropLast) ++ [newline]
            else if content.getLast? = some newline then content
            else content ++ [newline]
          return ⟨path, header, file, state⟩

/-- `appendMutation` followed by `applyMutation`. -/
def record (storage : JsonlSessionStorage) (mutation : SessionMutation) (result : AppendResult) :
    JsonlSessionStorage × Option SessionError :=
  match result with
  | .error written error =>
    ({ storage with file := storage.file ++ (encodeMutation mutation).take written },
      some (fileError error (js "Failed to append session " ++ storage.path)))
  | .ok =>
    let applied := storage.state.applyMutation mutation
    ({ storage with file := storage.file ++ encodeMutation mutation, state := applied.1 }, applied.2)

/-- An operation: its validation, then the append and the change of the state. -/
def perform (storage : JsonlSessionStorage) (operation : Operation) (result : AppendResult) :
    JsonlSessionStorage × Option SessionError :=
  match storage.state.prepare operation with
  | .error error => (storage, some error)
  | .ok mutation => storage.record mutation result

/-- A run of operations whose appends succeed. -/
def performAll (storage : JsonlSessionStorage) (operations : List Operation) :
    JsonlSessionStorage :=
  operations.foldl (fun storage operation => (storage.perform operation .ok).1) storage

/-- The mutations of a fork, recorded one after the other up to the first error. -/
def recordAll (storage : JsonlSessionStorage) :
    List SessionMutation → Except SessionError JsonlSessionStorage
  | [] => .ok storage
  | mutation :: mutations =>
    match storage.record mutation .ok with
    | (next, none) => recordAll next mutations
    | (_, some error) => .error error

/-- A fork is staged in a temporary file, renamed to its path and loaded. -/
def fork (storage : JsonlSessionStorage) (path : JsStr) (header : JsonlV4Header)
    (options : ForkOptions) : Except SessionError JsonlSessionStorage := do
  let mutations ← storage.state.createForkMutations options
  let targetStorage ← (create (path ++ js ".tmp") header).recordAll mutations
  load path targetStorage.file

end JsonlSessionStorage

end PiRp.Jsonl

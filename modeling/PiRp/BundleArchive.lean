import PiRp.Bundle

/-! The archive of `packages/agent/src/core/objects/bundle/index.ts`: the tar writer of `exportBundle`
and the tar reader of `importBundle`. A bundle is a manifest followed by the objects of the closure in
the order of their hashes. What the target store and the signal answer is part of the input. -/

namespace PiRp.Bundle

open Props

structure BundlePin where
  id : JsStr
  scope : JsStr
  root : ObjectHash
  reason : Option JsStr

structure BundleSession where
  sessionId : JsStr
  checkpointIds : List JsStr
  roots : List BundleRoot

structure BundleManifest where
  createdAt : JsStr
  sessions : List BundleSession
  roots : List BundleRoot
  objectCount : Nat
  totalBytes : Nat
  digest : JsStr
  pins : List BundlePin

def BundleRoot.toJson (root : BundleRoot) : Json :=
  .object [(js "hash", .string root.hash), (js "codec", .string root.codec)]

def BundleSession.toJson (session : BundleSession) : Json :=
  .object [(js "sessionId", .string session.sessionId),
    (js "checkpointIds", .array (session.checkpointIds.map .string)),
    (js "roots", .array (session.roots.map BundleRoot.toJson))]

def BundlePin.toJson (pin : BundlePin) : Json :=
  .object ([(js "id", .string pin.id), (js "scope", .string pin.scope), (js "root", .string pin.root)] ++
    (pin.reason.map fun reason => (js "reason", Json.string reason)).toList)

def BundleManifest.closureJson (manifest : BundleManifest) : Json :=
  .object [(js "objectCount", .number (.int manifest.objectCount)),
    (js "totalBytes", .number (.int manifest.totalBytes)), (js "digest", .string manifest.digest)]

def BundleManifest.toJson (manifest : BundleManifest) : Json :=
  .object [(js "format", .string (js "pi-object-bundle")), (js "version", .number (.int 1)),
    (js "createdAt", .string manifest.createdAt),
    (js "sessions", .array (manifest.sessions.map BundleSession.toJson)),
    (js "roots", .array (manifest.roots.map BundleRoot.toJson)),
    (js "closure", manifest.closureJson), (js "pins", .array (manifest.pins.map BundlePin.toJson))]

/-! ### Writing -/

def block : Nat := 512

/-- `value.toString(8)`. -/
def octalText (value : Nat) : JsStr := (Nat.toDigits 8 value).map fun c => UInt16.ofNat c.toNat

def padStart (width : Nat) (text : JsStr) : JsStr :=
  List.replicate (width - text.length) 0x30 ++ text

def putText (bytes : Bytes) (offset length : Nat) (value : JsStr) : Bytes :=
  setBytes bytes ((textEncode value).take length) offset

def putOctal (bytes : Bytes) (offset length value : Nat) : Bytes :=
  putText bytes offset (length - 1) (padStart (length - 1) (octalText value))

def ustar : JsStr := js "ustar" ++ [0]

def nameField (name : JsStr) : Bytes := putText (List.replicate block 0) 0 100 name

/-- The mode, the owner and the group. -/
def ownerFields (name : JsStr) : Bytes :=
  putOctal (putOctal (putOctal (nameField name) 100 8 0o644) 108 8 0) 116 8 0

/-- The size and the time. -/
def sizeFields (name : JsStr) (size : Nat) : Bytes :=
  putOctal (putOctal (ownerFields name) 124 12 size) 136 12 0

/-- Spaces in place of the checksum, and the type of a file. -/
def typeFields (name : JsStr) (size : Nat) : Bytes :=
  setBytes (setBytes (sizeFields name size) (List.replicate 8 32) 148) [48] 156

def headerFields (name : JsStr) (size : Nat) : Bytes :=
  putText (putText (typeFields name size) 257 6 ustar) 263 2 (js "00")

def tarHeader (name : JsStr) (size : Nat) : Bytes :=
  let sum := ((headerFields name size).map UInt8.toNat).sum
  setBytes (putText (headerFields name size) 148 7 (padStart 6 (octalText sum))) [0] 155

def paddingOf (size : Nat) : Nat := (block - size % block) % block

/-- What `writeMember` hands to the sink. -/
def writeMember (name : JsStr) (bytes : Bytes) : List Bytes :=
  [tarHeader name bytes.length, bytes] ++
    if paddingOf bytes.length = 0 then [] else [List.replicate (paddingOf bytes.length) 0]

def objectsPath : JsStr := js "objects/"

/-- `roots.sort((a, b) => a.hash.localeCompare(b.hash))`. -/
def sortRoots (roots : List BundleRoot) : List BundleRoot :=
  roots.insertionSort fun left right => left.hash ≤ right.hash

section Export

variable [Sha256] [JsonText.NumberText]

def manifestOf (createdAt : JsStr) (sessions : List BundleSession) (pins : List BundlePin)
    (roots : List BundleRoot) (closure : ClosureWalk) : BundleManifest where
  createdAt := createdAt
  sessions := sessions
  roots := roots
  objectCount := closure.objectCount
  totalBytes := closure.totalBytes
  digest := closure.digest
  pins := pins

/-- The members of the objects, each read again and checked. -/
def writeObjects (store : ObjectStore) : List (ObjectHash × Nat) → Option (List Bytes)
  | [] => some []
  | object :: rest =>
    match store.get? object.1 with
    | some bytes =>
      if hashObject bytes = object.1 then
        (writeObjects store rest).map fun chunks =>
          writeMember (objectsPath ++ object.1) bytes ++ chunks
      else none
    | none => none

/-- `JSON.stringify` fails on a text that is too long for a string. -/
def manifestText (manifest : BundleManifest) : Option JsStr :=
  if (JsonText.stringify manifest.toJson).length ≤ maxStringLength then
    some (JsonText.stringify manifest.toJson)
  else none

def writeBundle (store : ObjectStore) (manifest : BundleManifest) (objects : List (ObjectHash × Nat)) :
    Option (List Bytes) :=
  (manifestText manifest).bind fun text =>
    (writeObjects store objects).map fun chunks =>
      writeMember (js "manifest.json") (textEncode text) ++ chunks ++ [List.replicate (block * 2) 0]

/-- `exportBundle`: the manifest and the chunks written to the sink. -/
def exportBundle (roots : List BundleRoot) (sessions : List BundleSession) (pins : List BundlePin)
    (createdAt : JsStr) (store : ObjectStore) : Option (BundleManifest × List Bytes) :=
  (walk ((sortRoots roots).map .object) store).bind fun closure =>
    let manifest := manifestOf createdAt sessions pins (sortRoots roots) closure
    (writeBundle store manifest closure.objects).map fun chunks => (manifest, chunks)

end Export

/-! ### Reading -/

def subarray (bytes : Bytes) (start stop : Nat) : Bytes := (bytes.drop start).take (stop - start)

def isLineTerminator (unit : UInt16) : Bool :=
  unit = 0x0A || unit = 0x0D || unit = 0x2028 || unit = 0x2029

/-- `text.replace(/\0.*$/, "")`. -/
def stripNul : JsStr → JsStr
  | [] => []
  | unit :: rest => if unit = 0 && !rest.any isLineTerminator then [] else unit :: stripNul rest

/-- White space and line terminators of the language. -/
def isSpace (unit : UInt16) : Bool :=
  isLineTerminator unit || unit = 0x09 || unit = 0x0B || unit = 0x0C || unit = 0x20 || unit = 0xA0 ||
    unit = 0x1680 || (0x2000 ≤ unit.toNat && unit.toNat ≤ 0x200A) || unit = 0x202F || unit = 0x205F ||
    unit = 0x3000 || unit = 0xFEFF

def isOctal (unit : UInt16) : Bool := 0x30 ≤ unit.toNat && unit.toNat ≤ 0x37

def octalValue (text : JsStr) : Nat :=
  text.foldl (fun value unit => value * 8 + (unit.toNat - 0x30)) 0

/-- The digits of `parseInt(text, 8)` after white space and sign. -/
def parseDigits (text : JsStr) : Option Nat :=
  if (text.takeWhile isOctal).isEmpty then none else some (octalValue (text.takeWhile isOctal))

/-- `parseInt(text, 8)` when it is not negative. -/
def parseOctal (text : JsStr) : Option Nat :=
  match text.dropWhile isSpace with
  | 0x2B :: rest => parseDigits rest
  | 0x2D :: rest => (parseDigits rest).filter fun value => value = 0
  | rest => parseDigits rest

structure Member where
  name : JsStr
  size : Nat
  bytes : Bytes

def headerName (header : Bytes) : Option JsStr :=
  (decoderDecode (subarray header 0 100)).map stripNul

def headerSize (header : Bytes) : Option Nat :=
  ((decoderDecode (subarray header 124 136)).bind fun text => parseOctal (stripNul text)).filter
    fun size => size ≤ maxSafeInteger

def readMember (header rest : Bytes) : Option (Member × Bytes) :=
  if decoderDecode (subarray header 257 263) = some ustar && header[156]? = some 48 then
    (headerName header).bind fun name =>
      (headerSize header).bind fun size =>
        if size ≤ rest.length then
          some (⟨name, size, rest.take size⟩, rest.drop (size + paddingOf size))
        else none
  else none

/-- `member()` on what is left of the archive; an empty block ends it. -/
def member (archive : Bytes) : Option (Option Member × Bytes) :=
  if archive.length < block then none
  else if (archive.take block).all (· = 0) then some (none, archive.drop block)
  else (readMember (archive.take block) (archive.drop block)).map fun found => (some found.1, found.2)

/-- The hash in the name of an object member. -/
def objectName (name : JsStr) : Option ObjectHash :=
  if objectsPath.isPrefixOf name && ObjectHash.isObjectHash (name.drop objectsPath.length) then
    some (name.drop objectsPath.length)
  else none

def jsonRoot (root : Json) : Option ClosureRoot :=
  match root with
  | .object props =>
    match get? props (js "descriptorBytes"), get? props (js "hash"),
        get? props (js "codec") with
    | none, some (.string hash), some (.string codec) => some (.object ⟨hash, codec⟩)
    | _, _, _ => none
  | _ => none

/-- The roots of a manifest, as far as a walk can start from them. -/
def jsonRoots : List Json → Option (List ClosureRoot)
  | [] => some []
  | root :: rest => (jsonRoot root).bind fun found => (jsonRoots rest).map fun roots => found :: roots

/-- `value === count` for a property of the manifest. -/
def isCount (value : Option Json) (count : Nat) : Bool :=
  match value with
  | some (.number value) => value.norm = .int count
  | _ => false

/-- The roots and the closure of a manifest with the expected format. -/
def manifestFields (manifest : Json) : Option (List Json × Props Json) :=
  match manifest with
  | .object props =>
    if get? props (js "format") = some (.string (js "pi-object-bundle")) &&
        isCount (get? props (js "version")) 1 then
      match get? props (js "roots"), get? props (js "closure") with
      | some (.array roots), some (.object closure) => some (roots, closure)
      | _, _ => none
    else none
  | _ => none

/-- What the surroundings answer during an import. -/
structure ImportAnswers where
  /-- The signal is aborted while the parts are read. -/
  aborted : Bool
  pinFails : Bool
  /-- The put of this number throws or finds the signal aborted. -/
  putFails : Nat → Bool

inductive ImportOutcome where
  /-- An exception before the first put. -/
  | rejected
  /-- An exception of a put. -/
  | interrupted
  | imported (manifest : Json) (roots : List Json)

section Import

variable [Sha256] [JsonText.NumberText]

/-- The loop over the object members. Each takes a block at least, so the length of the archive bounds
them. -/
def readObjects (archive : Bytes) (previous : JsStr) (staged : ObjectStore) :
    Nat → Option ObjectStore
  | 0 => none
  | budget + 1 =>
    (member archive).bind fun found =>
      match found.1 with
      | none => some staged
      | some item =>
        (objectName item.name).bind fun hash =>
          if ¬ hash ≤ previous ∧ item.size = item.bytes.length ∧ hashObject item.bytes = hash then
            readObjects found.2 hash (staged.set hash item.bytes) budget
          else none

/-- The walk over the staged objects agrees with the closure of the manifest and reaches them all. -/
def verifyClosure (roots : List Json) (closure : Props Json) (staged : ObjectStore) :
    Option ClosureWalk :=
  ((jsonRoots roots).bind fun roots => walk roots staged).filter fun found =>
    isCount (get? closure (js "objectCount")) found.objectCount &&
      isCount (get? closure (js "totalBytes")) found.totalBytes &&
      (get? closure (js "digest") = some (.string found.digest)) &&
      staged.entries.length = found.objectCount &&
      staged.keys.all fun hash => hash ∈ found.objects.map Prod.fst

/-- The part of `importBundle` before its put loop: the manifest, its roots and the objects to put. -/
def readBundle (archive : Bytes) : Option (Json × List Json × List (ObjectHash × Bytes)) :=
  (member archive).bind fun found =>
    match found.1 with
    | none => none
    | some first =>
      if first.name = js "manifest.json" then
        ((decoderDecode first.bytes).bind JsonText.parse).bind fun manifest =>
          (manifestFields manifest).bind fun fields =>
            (readObjects found.2 [] .empty archive.length).bind fun staged =>
              (verifyClosure fields.1 fields.2 staged).map fun closure =>
                (manifest, fields.1, closure.objects.map fun object =>
                  (object.1, (staged.get? object.1).getD []))
      else none

/-- The put loop. -/
def putAll (target : ObjectStore) (putFails : Nat → Bool) (index : Nat) :
    List (ObjectHash × Bytes) → ObjectStore × Bool
  | [] => (target, true)
  | object :: rest =>
    if putFails index then (target, false)
    else putAll (target.set (hashObject object.2) object.2) putFails (index + 1) rest

def importBundle (target : ObjectStore) (parts : List Bytes) (answers : ImportAnswers) :
    ObjectStore × ImportOutcome :=
  match if answers.aborted || answers.pinFails then none else readBundle parts.flatten with
  | none => (target, .rejected)
  | some (manifest, roots, objects) =>
    let put := putAll target answers.putFails 0 objects
    (put.1, if put.2 then .imported manifest roots else .interrupted)

end Import

end PiRp.Bundle

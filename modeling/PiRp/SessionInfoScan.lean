import PiRp.SessionManagerOperations
import PiRp.Utf8Decoding

/-! The listing of sessions reads each file for a summary: how many messages it has, their text, the name and
the time of the last activity. One scan parses every line; the other looks at the bytes of a line first and
parses it only when its text can matter. -/

namespace PiRp.Manager

/-- Conversions that the language makes: the time value of `new Date(value)` and the text of a value in
`join`, none when an object of the value has no usable conversion and they throw, and `Math.max`. -/
class Conversions where
  getTime : Option Json → Option JsNumber
  toText : Json → Option JsStr
  max : JsNumber → JsNumber → JsNumber

variable [Conversions]

namespace SessionScan

/-! ### Messages -/

/-- `isMessageWithContent`, none for a message whose members cannot be read. -/
def isMessageWithContent : Option Json → Option Bool
  | none | some .null => none
  | some message =>
    some ((message.member (js "role")).any Json.isString && (message.member (js "content")).isSome)

/-- Whether the role of a message is `user` or `assistant`. -/
def isSpoken (message : Json) : Bool :=
  message.member (js "role") = some (.string (js "user")) ||
    message.member (js "role") = some (.string (js "assistant"))

/-- The text of a block's `text` in `join`: nothing for null and undefined. -/
def blockText (block : Json) : Option JsStr :=
  match block.member (js "text") with
  | none | some .null => some []
  | some (.string text) => some text
  | some value => Conversions.toText value

/-- `extractTextContent`, none when it throws. -/
def extractTextContent (message : Json) : Option JsStr :=
  match message.member (js "content") with
  | some (.string content) => some content
  | some (.array blocks) =>
    if .null ∈ blocks then none
    else
      ((blocks.filter fun block => isType block (js "text")).mapM blockText).map (JsStr.join (js " "))
  | _ => none

/-- `getMessageActivityTime`, none when it throws. -/
def getMessageActivityTime (entry : Json) : Option (Option JsNumber) := do
  if ← isMessageWithContent (entry.member (js "message")) then
    let message := (entry.member (js "message")).getD .null
    if isSpoken message then
      match message.member (js "timestamp") with
      | some (.number timestamp) => return some timestamp
      | _ =>
        let time ← Conversions.getTime (entry.member (js "timestamp"))
        return if time = .nan then none else some time
    else return none
  else return none

/-! ### The accumulator -/

structure SessionScanAccumulator where
  header : Option Json
  messageCount : Nat
  firstMessage : JsStr
  allMessages : List JsStr
  name : Option JsStr
  lastActivityTime : Option JsNumber

def newSessionScanAccumulator : SessionScanAccumulator := ⟨none, 0, [], [], none, none⟩

/-- How `applySessionEntry` ends: it returns true or false, or throws. -/
inductive Outcome where
  | applied
  | rejected
  | threw

/-- `name?.trim() || undefined`, none when the name has no `trim`. -/
def trimmedName : Option Json → Option (Option JsStr)
  | none | some .null => some none
  | some (.string name) =>
    match JsStr.trim name with
    | [] => some none
    | trimmed => some (some trimmed)
  | some _ => none

/-- The text of a message is kept when it is not empty; the first one of a user is the first message. -/
def SessionScanAccumulator.push (acc : SessionScanAccumulator) (message : Json) (text : JsStr) :
    SessionScanAccumulator :=
  if text = [] then acc
  else
    { acc with
      allMessages := acc.allMessages ++ [text]
      firstMessage :=
        if acc.firstMessage = [] && message.member (js "role") = some (.string (js "user")) then text
        else acc.firstMessage }

/-- The accumulator after the time of a message. -/
def SessionScanAccumulator.active (acc : SessionScanAccumulator) : Option JsNumber → SessionScanAccumulator
  | none => acc
  | some time =>
    { acc with lastActivityTime := some (Conversions.max (acc.lastActivityTime.getD (.int 0)) time) }

/-- What an entry that is no header changes, whether it ends or throws. -/
def applyMessage (acc : SessionScanAccumulator) (entry : Json) : SessionScanAccumulator × Outcome :=
  let counted := { acc with messageCount := acc.messageCount + 1 }
  match getMessageActivityTime entry with
  | none => (counted, .threw)
  | some time =>
    let message := (entry.member (js "message")).getD .null
    if isMessageWithContent (entry.member (js "message")) = some true ∧ isSpoken message = true then
      match extractTextContent message with
      | none => (counted.active time, .threw)
      | some text => ((counted.active time).push message text, .applied)
    else (counted.active time, .applied)

def applySessionEntry (acc : SessionScanAccumulator) (entry : Json) : SessionScanAccumulator × Outcome :=
  if entry = .null then (acc, .threw)
  else if acc.header = none then
    if isHeader entry then ({ acc with header := some entry }, .applied) else (acc, .rejected)
  else if isType entry (js "session_info") then
    match trimmedName (entry.member (js "name")) with
    | none => (acc, .threw)
    | some name => ({ acc with name }, .applied)
  else if isType entry (js "message") then applyMessage acc entry
  else (acc, .applied)

/-! ### The two scans -/

/-- `new TextDecoder().decode(bytes)`: a byte order mark at the start is no text. -/
def withoutMark (bytes : List UInt8) : List UInt8 :=
  if [0xef, 0xbb, 0xbf].isPrefixOf bytes then bytes.drop 3 else bytes

def readTextLinesSync (bytes : List UInt8) : List JsStr := readTextLines (Utf8.decode (withoutMark bytes))

section Scans

variable [JsonText.NumberText]

/-- The loop of `scanSessionInfoLines`; an error is an exception, none a file that is rejected. -/
def scanLines : SessionScanAccumulator → List JsStr → Except Unit (Option SessionScanAccumulator)
  | acc, [] => .ok (some acc)
  | acc, line :: rest =>
    match SessionManager.parseSessionEntryLine line with
    | none => scanLines acc rest
    | some entry =>
      match applySessionEntry acc entry with
      | (next, .applied) => scanLines next rest
      | (_, .rejected) => .ok none
      | (_, .threw) => .error ()

def scanSessionInfoLines (bytes : List UInt8) : Except Unit (Option SessionScanAccumulator) :=
  scanLines newSessionScanAccumulator (readTextLinesSync bytes)

/-- The bytes of a text in ASCII. -/
def ascii (text : String) : List UInt8 := text.toList.map fun c => UInt8.ofNat c.toNat

def sessionLinePrefix : List UInt8 := ascii "\x7b\"type\":\"session\""

def sessionInfoLinePrefix : List UInt8 := ascii "\x7b\"type\":\"session_info\""

def messageLinePrefix : List UInt8 := ascii "\x7b\"type\":\"message\""

def messageRoleProbeBytes : Nat := 256

def roleMark : List UInt8 := ascii "\"role\":\""

/-- The text behind the first occurrence of a mark. -/
def behindFirst (mark : List UInt8) : List UInt8 → Option (List UInt8)
  | [] => if mark = [] then some [] else none
  | byte :: rest =>
    if mark.isPrefixOf (byte :: rest) then some ((byte :: rest).drop mark.length) else behindFirst mark rest

/-- The role that the probe reads in the first bytes of a line: up to the next quote, and without one all but
the last byte, as `slice` takes the missing index for minus one. -/
def probedRole (line : List UInt8) : Option (List UInt8) :=
  (behindFirst roleMark (line.take messageRoleProbeBytes)).map fun found =>
    if 0x22 ∈ found then found.takeWhile (· ≠ 0x22) else found.dropLast

/-- A message line that is counted without being parsed. -/
def isSkipped (line : List UInt8) : Bool :=
  messageLinePrefix.isPrefixOf (line.take 24) &&
    (probedRole line).any fun role => role ≠ ascii "user" && role ≠ ascii "assistant"

/-- The entry of a line is parsed and applied; what throws is caught. -/
def applyParsed (acc : SessionScanAccumulator) (line : List UInt8) : SessionScanAccumulator × Outcome :=
  match JsonText.parse (Utf8.decode line) with
  | none => (acc, .threw)
  | some entry => applySessionEntry acc entry

/-- One line of `scanSessionInfoBytes`; none when the file is rejected. -/
def scanLine (acc : SessionScanAccumulator) (line : List UInt8) : Option SessionScanAccumulator :=
  if line = [] then some acc
  else if acc.header.isSome && messageLinePrefix.isPrefixOf (line.take 24) then
    if isSkipped line then some { acc with messageCount := acc.messageCount + 1 }
    else some (applyParsed acc line).1
  else if acc.header.isSome && sessionInfoLinePrefix.isPrefixOf (line.take 24) then
    some (applyParsed acc line).1
  else if !acc.header.isSome || !sessionLinePrefix.isPrefixOf (line.take 24) then
    match applyParsed acc line with
    | (_, .rejected) => none
    | (next, _) => some next
  else some acc

def scanSessionInfoBytes (bytes : List UInt8) : Option SessionScanAccumulator :=
  ((withoutMark bytes).splitOn 0x0a).foldlM scanLine newSessionScanAccumulator

/-! ### The summary -/

/-- A session in the list; the times are the values of its dates. -/
structure SessionInfo where
  path : JsStr
  id : Option Json
  cwd : JsStr
  name : Option JsStr
  parentSessionPath : Option Json
  created : JsNumber
  modified : JsNumber
  messageCount : Nat
  firstMessage : JsStr
  allMessagesText : JsStr

/-- What `buildSessionInfo` makes of the scan of a file; none is the null of a file that is left out. -/
def buildSessionInfo (path : JsStr) (mtimeMs : JsNumber) (acc : SessionScanAccumulator) : Option SessionInfo := do
  let header ← acc.header
  let headerTime ← match header.member (js "timestamp") with
    | some (.string timestamp) => Conversions.getTime (some (.string timestamp))
    | _ => some .nan
  let modified ← Conversions.getTime (some (.number (
    match acc.lastActivityTime with
    | some time => if time.exceeds 0 then time else if headerTime ≠ .nan then headerTime else mtimeMs
    | none => if headerTime ≠ .nan then headerTime else mtimeMs)))
  let created ← Conversions.getTime (header.member (js "timestamp"))
  return {
    path
    id := header.member (js "id")
    cwd := textOf header (js "cwd")
    name := acc.name
    parentSessionPath := header.member (js "parentSession")
    created
    modified
    messageCount := acc.messageCount
    firstMessage := if acc.firstMessage = [] then js "(no messages)" else acc.firstMessage
    allMessagesText := JsStr.join (js " ") acc.allMessages }

/-- The scan of the lines as `buildSessionInfo` uses it: an exception leaves the file out. -/
def scannedLines (bytes : List UInt8) : Option SessionScanAccumulator :=
  match scanSessionInfoLines bytes with
  | .ok acc => acc
  | .error () => none

end Scans

end SessionScan

end PiRp.Manager

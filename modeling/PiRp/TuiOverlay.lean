import PiRp.Columns
import PiRp.JsOccurrences

/-! `compositeTuiLine`: an overlay drawn into a line of the terminal at a fixed column. Lines are sequences of graphemes
and ANSI sequences, and only graphemes take columns. -/

namespace PiRp.Tui

open Columns

/-- What `extractAnsiCode` and the segmenter find in a line. -/
inductive Token
  | grapheme (segment : JsStr)
  | ansi (code : JsStr)

abbrev Line := List Token

def Token.text : Token → JsStr
  | .grapheme segment => segment
  | .ansi code => code

def graphemes (line : Line) : List JsStr :=
  line.filterMap fun
    | .grapheme segment => some segment
    | .ansi _ => none

def ansiCodes (codes : List JsStr) : Line := codes.map Token.ansi

/-- `" ".repeat(count)`. -/
def blanks (count : ℕ) : Line := List.replicate count (.grapheme (js " "))

def segmentReset : Line := [.ansi (js "\x1b[0m"), .ansi (js "\x1b]8;;\x07")]

def kittyPrefix : JsStr := js "\x1b_G"

def iterm2Prefix : JsStr := js "\x1b]1337;File="

def isImageLine (line : Line) : Bool :=
  let text := line.flatMap Token.text
  (JsStr.indexOf kittyPrefix text).isSome || (JsStr.indexOf iterm2Prefix text).isSome

-- The widths of graphemes are Unicode data, and `getActiveCodes` is what an `AnsiCodeTracker` returns that has
-- processed the given codes.
variable (graphemeWidth : JsStr → ℕ) (getActiveCodes : List JsStr → List JsStr)

def visibleWidth (line : Line) : ℕ := extent graphemeWidth (graphemes line)

/-! ### Slicing -/

structure Slice where
  text : Line
  width : ℕ

def Slice.after (text : Line) (width : ℕ) (rest : Slice) : Slice :=
  { text := text ++ rest.text, width := width + rest.width }

/-- The loop of `sliceWithWidth`. -/
def sliceLoop (startCol endCol : ℕ) (strict : Bool) (currentCol : ℕ) (pendingAnsi : List JsStr) : Line → Slice
  | [] => { text := [], width := 0 }
  | .ansi code :: rest =>
    if startCol ≤ currentCol ∧ currentCol < endCol then
      (sliceLoop startCol endCol strict currentCol pendingAnsi rest).after [.ansi code] 0
    else if currentCol < startCol then
      sliceLoop startCol endCol strict currentCol (pendingAnsi ++ [code]) rest
    else sliceLoop startCol endCol strict currentCol pendingAnsi rest
  | .grapheme segment :: rest =>
    let w := graphemeWidth segment
    let goOn (pendingAnsi : List JsStr) : Slice :=
      if endCol ≤ currentCol + w then { text := [], width := 0 }
      else sliceLoop startCol endCol strict (currentCol + w) pendingAnsi rest
    if startCol ≤ currentCol ∧ currentCol < endCol ∧ (strict = false ∨ currentCol + w ≤ endCol) then
      (goOn []).after (ansiCodes pendingAnsi ++ [.grapheme segment]) w
    else goOn pendingAnsi

def sliceWithWidth (line : Line) (startCol length : ℕ) (strict : Bool) : Slice :=
  if length ≤ 0 then { text := [], width := 0 }
  else sliceLoop graphemeWidth startCol (startCol + length) strict 0 [] line

def sliceByColumn (line : Line) (startCol length : ℕ) (strict : Bool) : Line :=
  (sliceWithWidth graphemeWidth line startCol length strict).text

/-! ### The segments beside the overlay -/

structure Segments where
  before : Line
  beforeWidth : ℕ
  after : Line
  afterWidth : ℕ

def Segments.none : Segments := { before := [], beforeWidth := 0, after := [], afterWidth := 0 }

def Segments.addBefore (text : Line) (width : ℕ) (rest : Segments) : Segments :=
  { rest with before := text ++ rest.before, beforeWidth := width + rest.beforeWidth }

def Segments.addAfter (text : Line) (width : ℕ) (rest : Segments) : Segments :=
  { rest with after := text ++ rest.after, afterWidth := width + rest.afterWidth }

section Extract

variable (beforeEnd afterStart : ℕ) (afterLen : ℤ) (strictAfter : Bool)

/-- The loop of `extractSegments`; `codes` is what the tracker has processed. -/
def extractLoop (currentCol : ℕ) (pendingAnsiBefore codes : List JsStr) (afterStarted : Bool) : Line → Segments
  | [] => .none
  | .ansi code :: rest =>
    if currentCol < beforeEnd then
      extractLoop currentCol (pendingAnsiBefore ++ [code]) (codes ++ [code]) afterStarted rest
    else if afterStart ≤ currentCol ∧ currentCol < afterStart + afterLen ∧ afterStarted then
      (extractLoop currentCol pendingAnsiBefore (codes ++ [code]) afterStarted rest).addAfter [.ansi code] 0
    else extractLoop currentCol pendingAnsiBefore (codes ++ [code]) afterStarted rest
  | .grapheme segment :: rest =>
    let w := graphemeWidth segment
    let goOn (pendingAnsiBefore : List JsStr) (afterStarted : Bool) : Segments :=
      if (if afterLen ≤ 0 then beforeEnd ≤ currentCol + w else afterStart + afterLen ≤ currentCol + w) then .none
      else extractLoop (currentCol + w) pendingAnsiBefore codes afterStarted rest
    if currentCol < beforeEnd ∧ currentCol + w ≤ beforeEnd then
      (goOn [] afterStarted).addBefore (ansiCodes pendingAnsiBefore ++ [.grapheme segment]) w
    else if afterStart ≤ currentCol ∧ currentCol < afterStart + afterLen ∧
        (strictAfter = false ∨ currentCol + w ≤ afterStart + afterLen) then
      let active := if afterStarted then [] else ansiCodes (getActiveCodes codes)
      (goOn pendingAnsiBefore true).addAfter (active ++ [.grapheme segment]) w
    else goOn pendingAnsiBefore afterStarted

def extractSegments (line : Line) : Segments :=
  extractLoop graphemeWidth getActiveCodes beforeEnd afterStart afterLen strictAfter 0 [] [] false line

end Extract

def compositeTuiLine (baseLine overlayLine : Line) (startCol overlayWidth totalWidth : ℕ) : Line :=
  if isImageLine baseLine then baseLine
  else
    let afterStart := startCol + overlayWidth
    let base := extractSegments graphemeWidth getActiveCodes startCol afterStart (totalWidth - afterStart) true baseLine
    let overlay := sliceWithWidth graphemeWidth overlayLine 0 overlayWidth true
    let beforePad := startCol - base.beforeWidth
    let overlayPad := overlayWidth - overlay.width
    let actualBeforeWidth := max startCol base.beforeWidth
    let actualOverlayWidth := max overlayWidth overlay.width
    let afterTarget := totalWidth - actualBeforeWidth - actualOverlayWidth
    let afterPad := afterTarget - base.afterWidth
    let result := base.before ++ blanks beforePad ++ segmentReset ++ overlay.text ++ blanks overlayPad ++
      segmentReset ++ base.after ++ blanks afterPad
    if visibleWidth graphemeWidth result ≤ totalWidth then result
    else sliceByColumn graphemeWidth result 0 totalWidth true

end PiRp.Tui

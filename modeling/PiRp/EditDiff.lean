import PiRp.ExceptBind
import PiRp.JsOccurrences
import PiRp.Sequenced

/-! The exact and fuzzy replacements of the edit tool. Every edit is matched against the same content; where one
of them needs fuzzy matching all of them are matched in the normalized content, and what they change is carried
over to the original line by line. -/

namespace PiRp.EditDiff

open Sequenced

/-! ### Normalization -/

def lineFeed : UInt16 := 0x0A

def carriageReturn : UInt16 := 0x0D

/-- `text.replace(/\r\n/g, "\n").replace(/\r/g, "\n")`. -/
def normalizeToLF : JsStr → JsStr
  | [] => []
  | [unit] => [if unit = carriageReturn then lineFeed else unit]
  | unit :: next :: rest =>
    if unit = carriageReturn then
      if next = lineFeed then lineFeed :: normalizeToLF rest else lineFeed :: normalizeToLF (next :: rest)
    else unit :: normalizeToLF (next :: rest)

/-- `text.trimEnd()`. -/
def trimEnd (text : JsStr) : JsStr := (text.reverse.dropWhile JsStr.isWhitespace).reverse

def smartSingleQuotes : List UInt16 := [0x2018, 0x2019, 0x201A, 0x201B]

def smartDoubleQuotes : List UInt16 := [0x201C, 0x201D, 0x201E, 0x201F]

def dashes : List UInt16 := [0x2010, 0x2011, 0x2012, 0x2013, 0x2014, 0x2015, 0x2212]

/-- NBSP and the other spaces that become a regular one. -/
def isSpecialSpace (unit : UInt16) : Bool :=
  unit = 0x00A0 || (0x2002 ≤ unit && unit ≤ 0x200A) || unit = 0x202F || unit = 0x205F || unit = 0x3000

/-- Replaces the units of a character class by one unit. -/
def replaceClass (isMember : UInt16 → Bool) (replacement : UInt16) (text : JsStr) : JsStr :=
  text.map fun unit => if isMember unit then replacement else unit

/-- Unicode's normalization form NFKC. -/
class Nfkc where
  normalize : JsStr → JsStr

variable [Nfkc]

def normalizeForFuzzyMatch (text : JsStr) : JsStr :=
  let stripped := JsStr.join [lineFeed] ((JsStr.split [lineFeed] (Nfkc.normalize text)).map trimEnd)
  replaceClass isSpecialSpace 0x20
    (replaceClass dashes.contains 0x2D
      (replaceClass smartDoubleQuotes.contains 0x22
        (replaceClass smartSingleQuotes.contains 0x27 stripped)))

/-! ### Lines -/

/-- The matches of `/[^\n]*\n|[^\n]+/g` after the units of a line that were read. -/
def linesGo (line : JsStr) : JsStr → List JsStr
  | [] => if line = [] then [] else [line]
  | unit :: rest => if unit = lineFeed then (line ++ [unit]) :: linesGo [] rest else linesGo (line ++ [unit]) rest

def splitLinesWithEndings (content : JsStr) : List JsStr := linesGo [] content

structure LineSpan where
  start : Nat
  finish : Nat

/-- The spans of the lines from an offset on. -/
def spansFrom (offset : Nat) : List JsStr → List LineSpan
  | [] => []
  | line :: rest => ⟨offset, offset + line.length⟩ :: spansFrom (offset + line.length) rest

def getLineSpans (content : JsStr) : List LineSpan := spansFrom 0 (splitLinesWithEndings content)

structure TextReplacement where
  matchIndex : Nat
  matchLength : Nat
  newText : JsStr

structure MatchedEdit extends TextReplacement where
  editIndex : Nat

/-- The text of an error. -/
abbrev Message := JsStr

def outsideError : Message := js "Replacement range is outside the base content."

structure LineRange where
  startLine : Nat
  endLine : Nat

def getReplacementLineRange (lines : List LineSpan) (replacement : TextReplacement) : Except Message LineRange :=
  let replacementStart := replacement.matchIndex
  let replacementEnd := replacement.matchIndex + replacement.matchLength
  match lines.findIdx? fun line => line.start ≤ replacementStart && replacementStart < line.finish with
  | none => .error outsideError
  | some startLine =>
    match (lines.drop startLine).findIdx? fun line => replacementEnd ≤ line.finish with
    | none => .error outsideError
    | some more => .ok ⟨startLine, startLine + more + 1⟩

/-! ### Replacements -/

/-- One round of the loop of `applyReplacements`. -/
def applyReplacement (offset : Nat) (replacement : TextReplacement) (result : JsStr) : JsStr :=
  result.take (replacement.matchIndex - offset) ++ replacement.newText ++
    result.drop (replacement.matchIndex + replacement.matchLength - offset)

/-- Applies the replacements from the last one to the first one. -/
def applyReplacements (content : JsStr) (replacements : List TextReplacement) (offset : Nat) : JsStr :=
  replacements.foldr (applyReplacement offset) content

/-- Replacements that touch a block of lines. -/
structure Group extends LineRange where
  replacements : List TextReplacement

/-- One round of the loop that forms the groups. -/
def addToGroups (baseLines : List LineSpan) (groups : List Group) (replacement : TextReplacement) :
    Except Message (List Group) := do
  let range ← getReplacementLineRange baseLines replacement
  match groups.getLast? with
  | some current =>
    if range.startLine < current.endLine then
      return groups.dropLast ++ [{ current with
        endLine := max current.endLine range.endLine
        replacements := current.replacements ++ [replacement] }]
    else return groups ++ [⟨range, [replacement]⟩]
  | none => return groups ++ [⟨range, [replacement]⟩]

/-- The text of the lines from one on and before another one. -/
def linesBetween (lines : List JsStr) (first last : Nat) : JsStr := ((lines.take last).drop first).flatten

/-- One round of the loop that writes the groups; the number of the next original line and what was written. -/
def writeGroup (originalLines : List JsStr) (baseContent : JsStr) (baseLines : List LineSpan)
    (state : Nat × JsStr) (group : Group) : Nat × JsStr :=
  let groupStartOffset := (baseLines[group.startLine]?.map LineSpan.start).getD 0
  let groupEndOffset := (baseLines[group.endLine - 1]?.map LineSpan.finish).getD 0
  (group.endLine, state.2 ++ linesBetween originalLines state.1 group.startLine ++
    applyReplacements ((baseContent.take groupEndOffset).drop groupStartOffset) group.replacements groupStartOffset)

def applyReplacementsPreservingUnchangedLines (originalContent baseContent : JsStr)
    (replacements : List TextReplacement) : Except Message JsStr := do
  let originalLines := splitLinesWithEndings originalContent
  let baseLines := getLineSpans baseContent
  if originalLines.length ≠ baseLines.length then
    .error (js "Cannot preserve unchanged lines because the base content has a different line count.")
  else
    let groups ← (bySequence TextReplacement.matchIndex replacements).foldlM (addToGroups baseLines) []
    let written := groups.foldl (writeGroup originalLines baseContent baseLines) (0, [])
    return written.2 ++ linesBetween originalLines written.1 originalLines.length

/-! ### Matching -/

structure FuzzyMatchResult where
  found : Bool
  index : Nat
  matchLength : Nat
  usedFuzzyMatch : Bool
  contentForReplacement : JsStr

structure Edit where
  oldText : JsStr
  newText : JsStr

structure AppliedEditsResult where
  baseContent : JsStr
  newContent : JsStr
  deriving DecidableEq

/-- The exact match is tried first; an index that is not found is left at the start. -/
def fuzzyFindText (content oldText : JsStr) : FuzzyMatchResult :=
  match JsStr.indexOf oldText content with
  | some exactIndex => ⟨true, exactIndex, oldText.length, false, content⟩
  | none =>
    let fuzzyContent := normalizeForFuzzyMatch content
    let fuzzyOldText := normalizeForFuzzyMatch oldText
    match JsStr.indexOf fuzzyOldText fuzzyContent with
    | none => ⟨false, 0, 0, false, content⟩
    | some fuzzyIndex => ⟨true, fuzzyIndex, fuzzyOldText.length, true, fuzzyContent⟩

/-- `text.split(separator)`; without a separator every unit is a piece. -/
def splitBy (separator text : JsStr) : List JsStr :=
  if separator = [] then text.map fun unit => [unit] else JsStr.split separator text

def countOccurrences (content oldText : JsStr) : Int :=
  (splitBy (normalizeForFuzzyMatch oldText) (normalizeForFuzzyMatch content)).length - 1

/-! ### Errors -/

def numbered (editIndex : Nat) : JsStr := js "edits[" ++ js (toString editIndex) ++ js "]"

def getNotFoundError (path : JsStr) (editIndex totalEdits : Nat) : Message :=
  if totalEdits = 1 then
    js "Could not find the exact text in " ++ path ++
      js ". The old text must match exactly including all whitespace and newlines."
  else
    js "Could not find " ++ numbered editIndex ++ js " in " ++ path ++
      js ". The oldText must match exactly including all whitespace and newlines."

def getDuplicateError (path : JsStr) (editIndex totalEdits : Nat) (occurrences : Int) : Message :=
  if totalEdits = 1 then
    js "Found " ++ js (toString occurrences) ++ js " occurrences of the text in " ++ path ++
      js ". The text must be unique. Please provide more context to make it unique."
  else
    js "Found " ++ js (toString occurrences) ++ js " occurrences of " ++ numbered editIndex ++ js " in " ++ path ++
      js ". Each oldText must be unique. Please provide more context to make it unique."

def getEmptyOldTextError (path : JsStr) (editIndex totalEdits : Nat) : Message :=
  if totalEdits = 1 then js "oldText must not be empty in " ++ path ++ js "."
  else numbered editIndex ++ js ".oldText must not be empty in " ++ path ++ js "."

def getOverlapError (path : JsStr) (previous current : MatchedEdit) : Message :=
  numbered previous.editIndex ++ js " and " ++ numbered current.editIndex ++ js " overlap in " ++ path ++
    js ". Merge them into one edit or target disjoint regions."

def getNoChangeError (path : JsStr) (totalEdits : Nat) : Message :=
  if totalEdits = 1 then
    js "No changes made to " ++ path ++ js ". The replacement produced identical content. " ++
      js "This might indicate an issue with special characters or the text not existing as expected."
  else js "No changes made to " ++ path ++ js ". The replacements produced identical content."

/-! ### Application -/

/-- One round of the loop that matches the edits. -/
def matchEdit (replacementBaseContent path : JsStr) (totalEdits : Nat) (item : Edit × Nat) :
    Except Message MatchedEdit :=
  let matchResult := fuzzyFindText replacementBaseContent item.1.oldText
  let occurrences := countOccurrences replacementBaseContent item.1.oldText
  if !matchResult.found then .error (getNotFoundError path item.2 totalEdits)
  else if occurrences > 1 then .error (getDuplicateError path item.2 totalEdits occurrences)
  else .ok ⟨⟨matchResult.index, matchResult.matchLength, item.1.newText⟩, item.2⟩

omit [Nfkc] in
/-- The loop over neighbours. -/
def checkOverlaps (path : JsStr) : List MatchedEdit → Except Message Unit
  | previous :: current :: rest =>
    if current.matchIndex < previous.matchIndex + previous.matchLength then
      .error (getOverlapError path previous current)
    else checkOverlaps path (current :: rest)
  | _ => .ok ()

def normalizeEdit (edit : Edit) : Edit := ⟨normalizeToLF edit.oldText, normalizeToLF edit.newText⟩

def applyEditsToNormalizedContent (normalizedContent : JsStr) (edits : List Edit) (path : JsStr) :
    Except Message AppliedEditsResult := do
  let normalizedEdits := edits.map normalizeEdit
  match normalizedEdits.findIdx? fun edit => edit.oldText.length = 0 with
  | some editIndex => .error (getEmptyOldTextError path editIndex normalizedEdits.length)
  | none => do
      let initialMatches := normalizedEdits.map fun edit => fuzzyFindText normalizedContent edit.oldText
      let usedFuzzyMatch := initialMatches.any FuzzyMatchResult.usedFuzzyMatch
      let replacementBaseContent :=
        if usedFuzzyMatch then normalizeForFuzzyMatch normalizedContent else normalizedContent
      let unsorted ← normalizedEdits.zipIdx.mapM (matchEdit replacementBaseContent path normalizedEdits.length)
      let matchedEdits := bySequence (fun edit : MatchedEdit => edit.matchIndex) unsorted
      checkOverlaps path matchedEdits
      let replacements := matchedEdits.map MatchedEdit.toTextReplacement
      let newContent ←
        if usedFuzzyMatch then
          applyReplacementsPreservingUnchangedLines normalizedContent replacementBaseContent replacements
        else .ok (applyReplacements replacementBaseContent replacements 0)
      if normalizedContent = newContent then .error (getNoChangeError path normalizedEdits.length)
      else return ⟨normalizedContent, newContent⟩

end PiRp.EditDiff

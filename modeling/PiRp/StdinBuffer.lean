import PiRp.JsObject
import PiRp.JsOccurrences

/-! The input buffer of the terminal, `packages/tui/src/stdin-buffer.ts`. What arrives is cut into escape sequences and
single characters; the start of a sequence is held back until its end has arrived or the timeout flushes it. Text
between the markers of a bracketed paste is emitted as one paste. -/

namespace PiRp.Tui.Stdin

open List

open JsStr (indexOf)

def esc : UInt16 := 0x1b

def bracketedPasteStart : JsStr := esc :: js "[200~"

def bracketedPasteEnd : JsStr := esc :: js "[201~"

/-! ### Escape sequences -/

inductive Status where
  | complete
  | incomplete
  | notEscape
  deriving DecidableEq

def isDigit (unit : UInt16) : Bool := 0x30 ≤ unit.toNat && unit.toNat ≤ 0x39

/-- `/^\d+$/`. -/
def isNumber (text : JsStr) : Bool := !text.isEmpty && text.all isDigit

/-- `/^<\d+;\d+;\d+[Mm]$/`; the test of the parts that follows it in the source says the same. -/
def isMouseReport (payload : JsStr) : Bool :=
  (payload.getLast? = some 0x4d || payload.getLast? = some 0x6d) &&
    ((JsStr.split (js ";") payload.tail.dropLast).length = 3 &&
      (JsStr.split (js ";") payload.tail.dropLast).all isNumber)

/-- A CSI sequence behind its two leading characters. -/
def isCompleteCsiSequence (payload : JsStr) : Status :=
  match payload.getLast? with
  | none => .incomplete
  | some lastChar =>
    if 0x40 ≤ lastChar.toNat ∧ lastChar.toNat ≤ 0x7e then
      if payload.head? = some 0x3c then if isMouseReport payload then .complete else .incomplete
      else .complete
    else .incomplete

/-- A sequence that goes on to `ESC \`, or to BEL. -/
def isTerminated (data : JsStr) (bell : Bool) : Status :=
  if ([esc, 0x5c].isSuffixOf data || bell && data.getLast? = some 0x07) = true then .complete else .incomplete

def isCompleteSequence (data : JsStr) : Status :=
  match data with
  | [] => .notEscape
  | [first] => if first = esc then .incomplete else .notEscape
  | first :: second :: payload =>
    if first ≠ esc then .notEscape
    else if second = 0x5b then
      if payload.head? = some 0x4d then if 6 ≤ data.length then .complete else .incomplete
      else isCompleteCsiSequence payload
    else if second = 0x5d then isTerminated data true
    else if second = 0x50 ∨ second = 0x5f then isTerminated data false
    else if second = 0x4f then if payload = [] then .incomplete else .complete
    else .complete

/-- The characters that begin a sequence behind ESC. -/
def opensSequence (char : Option UInt16) : Bool :=
  char = some 0x5b || char = some 0x5d || char = some 0x4f || char = some 0x50 || char = some 0x5f

/-- Where the sequence at the start of a text ends. -/
def sequenceEnd (remaining : JsStr) : Option Nat :=
  (List.range' 1 remaining.length).find? fun seqEnd => isCompleteSequence (remaining.take seqEnd) ≠ .incomplete

/-- A pass of the loop: the sequence at the start of a text and what follows it. Behind two ESC that a sequence follows,
only the first is a sequence of its own. -/
def nextSequence (remaining : JsStr) : Option (JsStr × JsStr) :=
  match remaining with
  | [] => none
  | first :: rest =>
    if first ≠ esc then some ([first], rest)
    else (sequenceEnd remaining).map fun seqEnd =>
      if remaining.take seqEnd = [esc, esc] ∧ opensSequence (remaining.drop seqEnd).head? = true then ([esc], rest)
      else (remaining.take seqEnd, remaining.drop seqEnd)

variable {remaining : JsStr}

theorem sequenceEnd_bounds {seqEnd : Nat} (hend : sequenceEnd remaining = some seqEnd) :
    0 < seqEnd ∧ seqEnd ≤ remaining.length := by
  have hmem := mem_of_find?_eq_some hend
  rw [mem_range'_1] at hmem
  omega

variable {sequence : JsStr}

theorem nextSequence_eq_some {rest : JsStr}
    (hnext : nextSequence remaining = some (sequence, rest)) : sequence ++ rest = remaining ∧ sequence ≠ [] := by
  cases remaining with
  | nil => cases hnext
  | cons first tail =>
    rw [nextSequence] at hnext
    split_ifs at hnext with hesc
    · cases hnext
      exact ⟨rfl, cons_ne_nil _ _⟩
    · obtain ⟨seqEnd, hend, hcut⟩ := Option.map_eq_some_iff.mp hnext
      have hbounds := sequenceEnd_bounds hend
      split_ifs at hcut with hdouble
      · cases hcut
        rw [not_not] at hesc
        exact ⟨by rw [hesc]; rfl, cons_ne_nil _ _⟩
      · cases hcut
        refine ⟨take_append_drop _ _, fun hnil => ?_⟩
        have hlength := congrArg List.length hnil
        rw [length_take, length_nil] at hlength
        omega

/-- The sequences, and what is left of an unfinished one. -/
def extractCompleteSequences (buffer : JsStr) : List JsStr × JsStr :=
  match _hnext : nextSequence buffer with
  | none => ([], buffer)
  | some (sequence, rest) =>
    let (sequences, remainder) := extractCompleteSequences rest
    (sequence :: sequences, remainder)
  termination_by buffer.length
  decreasing_by
    obtain ⟨hsplit, hne⟩ := nextSequence_eq_some _hnext
    have hpos := length_pos_iff.mpr hne
    rw [← hsplit, length_append]
    omega

/-- `/^\x1b\[(\d+)(?::\d*)?(?::\d+)?u$/`, with a code point from the blank on. -/
def parseUnmodifiedKittyPrintableCodepoint (sequence : JsStr) : Option Nat :=
  if [esc, 0x5b].isPrefixOf sequence ∧ sequence.getLast? = some 0x75 then
    match JsStr.split (js ":") (sequence.drop 2).dropLast with
    | codepoint :: modifiers =>
      if isNumber codepoint ∧ modifiers.length ≤ 2 ∧ (modifiers.head?.all fun shifted => shifted.all isDigit) = true ∧
          modifiers.tail.all isNumber = true ∧ 32 ≤ decimalValue codepoint then
        some (decimalValue codepoint)
      else none
    | [] => none
  else none

/-! ### The buffer -/

/-- What happens to a piece of input: it is emitted, or dropped as the duplicate of a key. -/
inductive Output where
  | data (sequence : JsStr)
  | paste (content : JsStr)
  | suppressed (sequence : JsStr)
  deriving DecidableEq

structure StdinBuffer where
  buffer : JsStr := []
  pasteMode : Bool := false
  pasteBuffer : JsStr := []
  pendingKittyPrintableCodepoint : Option Nat := none

def rawCodepoint : JsStr → Option Nat
  | [char] => some char.toNat
  | _ => none

/-- The sequence and the codepoint that is pending behind it. -/
def emitDataSequence (pending : Option Nat) (sequence : JsStr) : Output × Option Nat :=
  if (rawCodepoint sequence).isSome = true ∧ rawCodepoint sequence = pending then (.suppressed sequence, none)
  else (.data sequence, parseUnmodifiedKittyPrintableCodepoint sequence)

theorem emitDataSequence_cases (pending : Option Nat) (sequence : JsStr) :
    (∃ char, sequence = [char] ∧ pending = some char.toNat ∧
      emitDataSequence pending sequence = (.suppressed [char], none)) ∨
    emitDataSequence pending sequence = (.data sequence, parseUnmodifiedKittyPrintableCodepoint sequence) := by
  rw [emitDataSequence]
  split_ifs with hrepeated
  · match sequence, hrepeated with
    | [char], hrepeated => exact .inl ⟨char, rfl, hrepeated.2.symm, rfl⟩
    | [], hrepeated => cases hrepeated.1
    | _ :: _ :: _, hrepeated => cases hrepeated.1
  · exact .inr rfl

def emitAll (pending : Option Nat) : List JsStr → List Output × Option Nat
  | [] => ([], pending)
  | sequence :: rest =>
    let (output, next) := emitDataSequence pending sequence
    let (outputs, last) := emitAll next rest
    (output :: outputs, last)

/-- The text before a marker and the text behind it: the two slices at its index. -/
def cutAt (marker text : JsStr) : Option (JsStr × JsStr) :=
  (indexOf marker text).map fun index => (text.take index, text.drop (index + marker.length))

theorem cutAt_eq_some {marker text before behind : JsStr} (hcut : cutAt marker text = some (before, behind)) :
    text = before ++ (marker ++ behind) := by
  obtain ⟨index, hindex, hslices⟩ := Option.map_eq_some_iff.mp hcut
  cases hslices
  obtain ⟨rest, hrest⟩ := JsStr.indexOf_eq_some hindex
  have hbehind : text.drop (index + marker.length) = rest := by
    rw [← drop_drop, ← hrest, drop_left]
  rw [hbehind, hrest, take_append_drop]

variable {buffer pasteBuffer : JsStr}

/-- What is behind a paste is shorter. -/
theorem behind_paste_length {before content : JsStr}
    (hstart : cutAt bracketedPasteStart buffer = some (before, pasteBuffer))
    (hend : cutAt bracketedPasteEnd pasteBuffer = some (content, remaining)) : remaining.length < buffer.length := by
  rw [cutAt_eq_some hstart, cutAt_eq_some hend]
  simp only [length_append, bracketedPasteStart, length_cons]
  omega

/-- `process` outside a paste, on the buffer with the new data. What is unfinished before a paste is not kept. -/
def processText (pending : Option Nat) (buffer : JsStr) : List Output × StdinBuffer :=
  match _hstart : cutAt bracketedPasteStart buffer with
  | none =>
    let (sequences, remainder) := extractCompleteSequences buffer
    let (outputs, pending) := emitAll pending sequences
    (outputs, { buffer := remainder, pendingKittyPrintableCodepoint := pending })
  | some (beforePaste, pasteBuffer) =>
    let outputs := (emitAll pending (extractCompleteSequences beforePaste).1).1
    match _hend : cutAt bracketedPasteEnd pasteBuffer with
    | none => (outputs, { pasteMode := true, pasteBuffer })
    | some (pastedContent, remaining) =>
      let (later, final) := processText none remaining
      (outputs ++ .paste pastedContent :: later, final)
  termination_by buffer.length
  decreasing_by
    exact behind_paste_length _hstart _hend

/-- `process` inside a paste, on the text of the paste with the new data. -/
def processPaste (pending : Option Nat) (pasteBuffer : JsStr) : List Output × StdinBuffer :=
  match cutAt bracketedPasteEnd pasteBuffer with
  | none => ([], { pasteMode := true, pasteBuffer, pendingKittyPrintableCodepoint := pending })
  | some (pastedContent, remaining) =>
    let (later, final) := processText none remaining
    (.paste pastedContent :: later, final)

def process (state : StdinBuffer) (str : JsStr) : List Output × StdinBuffer :=
  if str = [] ∧ state.buffer = [] then
    let (output, pending) := emitDataSequence state.pendingKittyPrintableCodepoint []
    ([output], { state with pendingKittyPrintableCodepoint := pending })
  else if state.pasteMode then
    processPaste state.pendingKittyPrintableCodepoint (state.pasteBuffer ++ (state.buffer ++ str))
  else processText state.pendingKittyPrintableCodepoint (state.buffer ++ str)

/-- The timeout: what is held back is emitted as it is. -/
def flush (state : StdinBuffer) : List Output × StdinBuffer :=
  if state.buffer = [] then ([], state)
  else
    let (output, pending) := emitDataSequence none state.buffer
    ([output], { state with buffer := [], pendingKittyPrintableCodepoint := pending })

/-! ### What one pass does -/

theorem extract_of_none (hnext : nextSequence buffer = none) : extractCompleteSequences buffer = ([], buffer) := by
  rw [extractCompleteSequences]
  grind

theorem extract_of_some {rest : JsStr} (hnext : nextSequence buffer = some (sequence, rest)) :
    extractCompleteSequences buffer =
      (sequence :: (extractCompleteSequences rest).1, (extractCompleteSequences rest).2) := by
  rw [extractCompleteSequences]
  grind

/-- Induction along the loop of `extractCompleteSequences`. -/
theorem extract_induction {motive : JsStr → Prop} (last : ∀ buffer, nextSequence buffer = none → motive buffer)
    (next : ∀ buffer sequence rest, nextSequence buffer = some (sequence, rest) → motive rest → motive buffer)
    (buffer : JsStr) : motive buffer := by
  induction buffer using extractCompleteSequences.induct with
  | case1 buffer hnext => exact last buffer hnext
  | case2 buffer sequence rest hnext _ _ _ ih => exact next buffer sequence rest hnext ih

theorem extract_flatten (buffer : JsStr) :
    (extractCompleteSequences buffer).1.flatten ++ (extractCompleteSequences buffer).2 = buffer := by
  induction buffer using extract_induction with
  | last buffer hnext =>
    rw [extract_of_none hnext]
    rfl
  | next buffer sequence rest hnext ih =>
    rw [extract_of_some hnext, flatten_cons, append_assoc, ih]
    exact (nextSequence_eq_some hnext).1

theorem processText_text (hstart : cutAt bracketedPasteStart buffer = none) (pending : Option Nat) :
    processText pending buffer = ((emitAll pending (extractCompleteSequences buffer).1).1,
        { buffer := (extractCompleteSequences buffer).2
          pendingKittyPrintableCodepoint := (emitAll pending (extractCompleteSequences buffer).1).2 }) := by
  rw [processText]
  grind

/-- Behind a paste start the text is that of a paste, as if it came with the next chunk. -/
theorem processText_paste {before : JsStr}
    (hstart : cutAt bracketedPasteStart buffer = some (before, pasteBuffer)) (pending : Option Nat) :
    processText pending buffer =
      ((emitAll pending (extractCompleteSequences before).1).1 ++ (processPaste none pasteBuffer).1,
        (processPaste none pasteBuffer).2) := by
  rw [processText, processPaste]
  grind

theorem processPaste_open (hend : cutAt bracketedPasteEnd pasteBuffer = none)
    (pending : Option Nat) : processPaste pending pasteBuffer =
      ([], { pasteMode := true, pasteBuffer, pendingKittyPrintableCodepoint := pending }) := by
  rw [processPaste, hend]

theorem processPaste_closed {content : JsStr}
    (hend : cutAt bracketedPasteEnd pasteBuffer = some (content, remaining)) (pending : Option Nat) :
    processPaste pending pasteBuffer =
      (.paste content :: (processText none remaining).1, (processText none remaining).2) := by
  rw [processPaste, hend]

/-- Induction along the pastes of a text. -/
theorem paste_induction {motive : JsStr → Prop}
    (text : ∀ buffer, cutAt bracketedPasteStart buffer = none → motive buffer)
    (opened : ∀ buffer before pasteBuffer, cutAt bracketedPasteStart buffer = some (before, pasteBuffer) →
      cutAt bracketedPasteEnd pasteBuffer = none → motive buffer)
    (closed : ∀ buffer before pasteBuffer content remaining,
      cutAt bracketedPasteStart buffer = some (before, pasteBuffer) →
      cutAt bracketedPasteEnd pasteBuffer = some (content, remaining) → motive remaining → motive buffer)
    (buffer : JsStr) : motive buffer := by
  induction hlength : buffer.length using Nat.strongRecOn generalizing buffer with
  | _ length ih =>
    cases hstart : cutAt bracketedPasteStart buffer with
    | none => exact text buffer hstart
    | some slices =>
      cases hend : cutAt bracketedPasteEnd slices.2 with
      | none => exact opened buffer slices.1 slices.2 hstart hend
      | some behind =>
        have hshorter := behind_paste_length hstart hend
        exact closed buffer slices.1 slices.2 behind.1 behind.2 hstart hend
          (ih behind.2.length (by omega) behind.2 rfl)

/-! ### No input is lost -/

/-- What the input of an output was. -/
def Output.text : Output → JsStr
  | .data sequence => sequence
  | .paste content => bracketedPasteStart ++ (content ++ bracketedPasteEnd)
  | .suppressed sequence => sequence

def StdinBuffer.held (state : StdinBuffer) : JsStr :=
  (if state.pasteMode then bracketedPasteStart ++ state.pasteBuffer else []) ++ state.buffer

/-- The unfinished sequences before the pastes of a text. -/
def unfinishedBeforePastes (buffer : JsStr) : JsStr :=
  match _hstart : cutAt bracketedPasteStart buffer with
  | none => []
  | some (beforePaste, pasteBuffer) =>
    (extractCompleteSequences beforePaste).2 ++
      match _hend : cutAt bracketedPasteEnd pasteBuffer with
      | none => []
      | some (_, remaining) => unfinishedBeforePastes remaining
  termination_by buffer.length
  decreasing_by
    exact behind_paste_length _hstart _hend

/-- The same for a text that begins inside a paste. -/
def unfinishedBehindPaste (pasteBuffer : JsStr) : JsStr :=
  match cutAt bracketedPasteEnd pasteBuffer with
  | none => []
  | some (_, remaining) => unfinishedBeforePastes remaining

theorem unfinishedBeforePastes_text (hstart : cutAt bracketedPasteStart buffer = none) :
    unfinishedBeforePastes buffer = [] := by
  rw [unfinishedBeforePastes]
  grind

theorem unfinishedBeforePastes_paste {before : JsStr}
    (hstart : cutAt bracketedPasteStart buffer = some (before, pasteBuffer)) :
    unfinishedBeforePastes buffer = (extractCompleteSequences before).2 ++ unfinishedBehindPaste pasteBuffer := by
  rw [unfinishedBeforePastes, unfinishedBehindPaste]
  grind

inductive Event where
  | process (str : JsStr)
  | timeout

def Event.input : Event → JsStr
  | .process str => str
  | .timeout => []

def step (state : StdinBuffer) : Event → List Output × StdinBuffer
  | .process str => process state str
  | .timeout => flush state

def run (state : StdinBuffer) : List Event → List Output × StdinBuffer
  | [] => ([], state)
  | event :: events =>
    ((step state event).1 ++ (run (step state event).2 events).1, (run (step state event).2 events).2)

/-- The unfinished sequences that a step finds before the start of a paste. -/
def unfinished (state : StdinBuffer) : Event → JsStr
  | .timeout => []
  | .process str =>
    if str = [] ∧ state.buffer = [] then []
    else if state.pasteMode then unfinishedBehindPaste (state.pasteBuffer ++ (state.buffer ++ str))
    else unfinishedBeforePastes (state.buffer ++ str)

def unfinishedAlong (state : StdinBuffer) : List Event → JsStr
  | [] => []
  | event :: events => unfinished state event ++ unfinishedAlong (step state event).2 events

/-- What is kept of an input is all of it but the lost text, and all of it where nothing is lost. -/
structure Accounts (kept lost input : JsStr) : Prop where
  length : kept.length + lost.length = input.length
  whole : lost = [] → kept = input

theorem Accounts.all (text : JsStr) : Accounts text [] text := ⟨rfl, fun _ => rfl⟩

theorem Accounts.append {kept lost input kept' lost' input' : JsStr} (h : Accounts kept lost input)
    (h' : Accounts kept' lost' input') : Accounts (kept ++ kept') (lost ++ lost') (input ++ input') where
  length := by
    have hfirst := h.length
    have hsecond := h'.length
    simp only [length_append]
    omega
  whole := by
    intro hlost
    rw [append_eq_nil_iff] at hlost
    rw [h.whole hlost.1, h'.whole hlost.2]

/-- Text that is held after one part of the input and accounted for with the next. -/
theorem Accounts.trans {out held lost input out' held' lost' input' : JsStr}
    (h : Accounts (out ++ held) lost input) (h' : Accounts (out' ++ held') lost' (held ++ input')) :
    Accounts (out ++ out' ++ held') (lost ++ lost') (input ++ input') where
  length := by
    have hfirst := h.length
    have hsecond := h'.length
    simp only [length_append] at hfirst hsecond ⊢
    omega
  whole := by
    intro hlost
    rw [append_eq_nil_iff] at hlost
    calc out ++ out' ++ held' = out ++ (out' ++ held') := append_assoc ..
      _ = out ++ held ++ input' := by rw [h'.whole hlost.2, append_assoc]
      _ = input ++ input' := by rw [h.whole hlost.1]

theorem extract_accounts (buffer : JsStr) :
    Accounts (extractCompleteSequences buffer).1.flatten (extractCompleteSequences buffer).2 buffer where
  length := by rw [← length_append, extract_flatten]
  whole := by
    intro hnil
    have hflatten := extract_flatten buffer
    rwa [hnil, append_nil] at hflatten

theorem emitDataSequence_text (pending : Option Nat) (sequence : JsStr) :
    (emitDataSequence pending sequence).1.text = sequence := by
  obtain ⟨char, rfl, _, hemit⟩ | hemit := emitDataSequence_cases pending sequence
  · rw [hemit]
    rfl
  · rw [hemit]
    rfl

theorem emitAll_text (pending : Option Nat) (sequences : List JsStr) :
    (emitAll pending sequences).1.flatMap Output.text = sequences.flatten := by
  induction sequences generalizing pending with
  | nil => rfl
  | cons sequence rest ih =>
    rw [emitAll, flatMap_cons, emitDataSequence_text, ih, flatten_cons]

/-- The outputs and the text held behind them. -/
def kept (result : List Output × StdinBuffer) : JsStr := result.1.flatMap Output.text ++ result.2.held

theorem processText_accounts (pending : Option Nat) (buffer : JsStr) :
    Accounts (kept (processText pending buffer)) (unfinishedBeforePastes buffer) buffer := by
  induction buffer using paste_induction generalizing pending with
  | text buffer hstart =>
    have hkept : kept (processText pending buffer) = buffer := by
      rw [kept, processText_text hstart, emitAll_text]
      exact extract_flatten buffer
    rw [hkept, unfinishedBeforePastes_text hstart]
    exact .all buffer
  | opened buffer before pasteBuffer hstart hend =>
    have hkept : kept (processText pending buffer) =
        (extractCompleteSequences before).1.flatten ++ (bracketedPasteStart ++ pasteBuffer) := by
      rw [kept, processText_paste hstart, processPaste_open hend, append_nil, emitAll_text]
      exact congrArg _ (append_nil _)
    rw [hkept, unfinishedBeforePastes_paste hstart, unfinishedBehindPaste, hend]
    rw [cutAt_eq_some hstart]
    exact (extract_accounts before).append (.all _)
  | closed buffer before pasteBuffer content remaining hstart hend ih =>
    have hkept : kept (processText pending buffer) = (extractCompleteSequences before).1.flatten ++
        (bracketedPasteStart ++ (content ++ bracketedPasteEnd) ++ kept (processText none remaining)) := by
      rw [kept, processText_paste hstart, processPaste_closed hend, flatMap_append, emitAll_text,
        flatMap_cons, append_assoc, append_assoc]
      rfl
    have hbuffer : buffer = before ++ (bracketedPasteStart ++ (content ++ bracketedPasteEnd) ++ remaining) := by
      rw [cutAt_eq_some hstart, cutAt_eq_some hend, append_assoc, append_assoc]
    rw [hkept, unfinishedBeforePastes_paste hstart, unfinishedBehindPaste, hend]
    rw [hbuffer]
    exact (extract_accounts before).append (Accounts.append (.all _) (ih none))

theorem processPaste_accounts (pending : Option Nat) (pasteBuffer : JsStr) :
    Accounts (kept (processPaste pending pasteBuffer)) (unfinishedBehindPaste pasteBuffer)
      (bracketedPasteStart ++ pasteBuffer) := by
  cases hend : cutAt bracketedPasteEnd pasteBuffer with
  | none =>
    have hkept : kept (processPaste pending pasteBuffer) = bracketedPasteStart ++ pasteBuffer := by
      rw [kept, processPaste_open hend]
      exact append_nil _
    rw [hkept, unfinishedBehindPaste, hend]
    exact .all _
  | some slices =>
    have hkept : kept (processPaste pending pasteBuffer) =
        bracketedPasteStart ++ (slices.1 ++ bracketedPasteEnd) ++ kept (processText none slices.2) := by
      rw [kept, processPaste_closed hend, flatMap_cons, append_assoc]
      rfl
    have hinput : bracketedPasteStart ++ pasteBuffer =
        bracketedPasteStart ++ (slices.1 ++ bracketedPasteEnd) ++ slices.2 := by
      rw [cutAt_eq_some hend, append_assoc, append_assoc]
    rw [hkept, unfinishedBehindPaste, hend, hinput]
    exact Accounts.append (.all _) (processText_accounts none slices.2)

/-- Nothing else is held while a paste is read. -/
def StdinBuffer.Settled (state : StdinBuffer) : Prop := state.pasteMode = true → state.buffer = []

theorem processText_settled (pending : Option Nat) (buffer : JsStr) : (processText pending buffer).2.Settled := by
  induction buffer using paste_induction generalizing pending with
  | text buffer hstart =>
    rw [processText_text hstart]
    nofun
  | opened buffer before pasteBuffer hstart hend =>
    rw [processText_paste hstart, processPaste_open hend]
    exact fun _ => rfl
  | closed buffer before pasteBuffer content remaining hstart hend ih =>
    rw [processText_paste hstart, processPaste_closed hend]
    exact ih none

theorem processPaste_settled (pending : Option Nat) (pasteBuffer : JsStr) :
    (processPaste pending pasteBuffer).2.Settled := by
  cases hend : cutAt bracketedPasteEnd pasteBuffer with
  | none =>
    rw [processPaste_open hend]
    exact fun _ => rfl
  | some slices =>
    rw [processPaste_closed hend]
    exact processText_settled none slices.2

variable {state : StdinBuffer}

section

variable (hsettled : state.Settled)

include hsettled

theorem step_settled (event : Event) : (step state event).2.Settled := by
  cases event with
  | process str =>
    rw [step, process]
    split_ifs
    · exact hsettled
    · exact processPaste_settled _ _
    · exact processText_settled _ _
  | timeout =>
    rw [step, flush]
    split_ifs
    · exact hsettled
    · exact fun _ => rfl

theorem step_accounts (event : Event) :
    Accounts (kept (step state event)) (unfinished state event) (state.held ++ event.input) := by
  cases event with
  | process str =>
    rw [step, process, unfinished]
    split_ifs with hempty hpaste
    · have hkept : kept ([(emitDataSequence state.pendingKittyPrintableCodepoint []).1], { state with
          pendingKittyPrintableCodepoint := (emitDataSequence state.pendingKittyPrintableCodepoint []).2 }) =
            state.held ++ (Event.process str).input := by
        rw [kept, flatMap_singleton, emitDataSequence_text, Event.input, hempty.1, append_nil]
        rfl
      rw [← hkept]
      exact .all _
    · have hheld : state.held ++ (Event.process str).input =
          bracketedPasteStart ++ (state.pasteBuffer ++ (state.buffer ++ str)) := by
        rw [StdinBuffer.held, if_pos hpaste, hsettled hpaste, append_nil, append_assoc]
        rfl
      rw [hheld]
      exact processPaste_accounts _ _
    · have hheld : state.held ++ (Event.process str).input = state.buffer ++ str := by
        rw [StdinBuffer.held, if_neg hpaste]
        rfl
      rw [hheld]
      exact processText_accounts _ _
  | timeout =>
    have hkept : kept (step state .timeout) = state.held ++ Event.input .timeout := by
      rw [step, flush, Event.input, append_nil]
      split_ifs with hempty
      · rfl
      · have htext : state.pasteMode = false := Bool.eq_false_iff.mpr fun hpaste => hempty (hsettled hpaste)
        simp [kept, StdinBuffer.held, htext, emitDataSequence_text]
    rw [hkept]
    exact .all _

theorem run_accounts (events : List Event) :
    Accounts (kept (run state events)) (unfinishedAlong state events) (state.held ++ events.flatMap Event.input) := by
  induction events generalizing state with
  | nil =>
    rw [flatMap_nil, append_nil]
    exact .all _
  | cons event events ih =>
    have hstep := step_accounts hsettled event
    have hrest := ih (step_settled hsettled event)
    rw [flatMap_cons, ← append_assoc, kept, run, flatMap_append]
    exact hstep.trans hrest

end

/-! ### What is suppressed -/

/-- How the codepoint that is pending goes through the outputs. -/
inductive Emitted : Option Nat → List Output → Option Nat → Prop
  | nil (pending) : Emitted pending [] pending
  | forget {pending outputs last} : Emitted none outputs last → Emitted pending outputs last
  | data {pending outputs last} (sequence) :
      Emitted (parseUnmodifiedKittyPrintableCodepoint sequence) outputs last →
      Emitted pending (.data sequence :: outputs) last
  | paste {pending outputs last} (content) : Emitted none outputs last → Emitted pending (.paste content :: outputs) last
  | suppressed {outputs last} (char : UInt16) : Emitted none outputs last →
      Emitted (some char.toNat) (.suppressed [char] :: outputs) last

theorem Emitted.append {pending next last : Option Nat} {outputs later : List Output}
    (hfirst : Emitted pending outputs next) (hlater : Emitted next later last) :
    Emitted pending (outputs ++ later) last := by
  induction hfirst with
  | nil => exact hlater
  | forget _ ih => exact .forget (ih hlater)
  | data sequence _ ih => exact .data sequence (ih hlater)
  | paste content _ ih => exact .paste content (ih hlater)
  | suppressed char _ ih => exact .suppressed char (ih hlater)

/-- A sequence that is suppressed is the character of the key before it, or the one that is pending. -/
def Repeats (pending : Option Nat) (before : List Output) (sequence : JsStr) : Prop :=
  ∃ char : UInt16, sequence = [char] ∧ (before = [] ∧ pending = some char.toNat ∨
    ∃ key, before.getLast? = some (.data key) ∧ parseUnmodifiedKittyPrintableCodepoint key = some char.toNat)

theorem Repeats.cons {before : List Output} {sequence : JsStr} (hrepeats : Repeats none before sequence)
    (pending : Option Nat) (output : Output) : Repeats pending (output :: before) sequence := by
  obtain ⟨char, hchar, ⟨_, hpending⟩ | ⟨key, hlast, hparse⟩⟩ := hrepeats
  · cases hpending
  · exact ⟨char, hchar, .inr ⟨key, by rw [getLast?_cons, hlast]; rfl, hparse⟩⟩

theorem Emitted.repeats {pending last : Option Nat} {outputs : List Output} (hemitted : Emitted pending outputs last)
    {before after : List Output} {sequence : JsStr} (hout : outputs = before ++ .suppressed sequence :: after) :
    Repeats pending before sequence := by
  induction hemitted generalizing before with
  | nil => exact absurd hout (append_ne_nil_of_right_ne_nil _ (cons_ne_nil _ _)).symm
  | forget _ ih =>
    obtain ⟨char, hchar, ⟨_, hpending⟩ | hkey⟩ := ih hout
    · cases hpending
    · exact ⟨char, hchar, .inr hkey⟩
  | data key _ ih =>
    cases before with
    | nil => cases hout
    | cons output before =>
      obtain ⟨rfl, hrest⟩ := List.cons.inj hout
      obtain ⟨char, hchar, ⟨rfl, hpending⟩ | ⟨other, hlast, hparse⟩⟩ := ih hrest
      · exact ⟨char, hchar, .inr ⟨key, rfl, hpending⟩⟩
      · exact ⟨char, hchar, .inr ⟨other, by rw [getLast?_cons, hlast]; rfl, hparse⟩⟩
  | paste content _ ih =>
    cases before with
    | nil => cases hout
    | cons output before => exact (ih (List.cons.inj hout).2).cons _ output
  | suppressed char _ ih =>
    cases before with
    | nil =>
      cases hout
      exact ⟨char, rfl, .inl ⟨rfl, rfl⟩⟩
    | cons output before => exact (ih (List.cons.inj hout).2).cons _ output

theorem emitDataSequence_emitted (pending : Option Nat) (sequence : JsStr) :
    Emitted pending [(emitDataSequence pending sequence).1] (emitDataSequence pending sequence).2 := by
  obtain ⟨char, rfl, rfl, hemit⟩ | hemit := emitDataSequence_cases pending sequence
  · rw [hemit]
    exact .suppressed char (.nil none)
  · rw [hemit]
    exact .data sequence (.nil _)

theorem emitAll_emitted (pending : Option Nat) (sequences : List JsStr) :
    Emitted pending (emitAll pending sequences).1 (emitAll pending sequences).2 := by
  induction sequences generalizing pending with
  | nil => exact .nil pending
  | cons sequence rest ih =>
    rw [emitAll]
    exact (emitDataSequence_emitted pending sequence).append (ih _)

theorem processText_emitted (pending : Option Nat) (buffer : JsStr) :
    Emitted pending (processText pending buffer).1 (processText pending buffer).2.pendingKittyPrintableCodepoint := by
  induction buffer using paste_induction generalizing pending with
  | text buffer hstart =>
    rw [processText_text hstart]
    exact emitAll_emitted _ _
  | opened buffer before pasteBuffer hstart hend =>
    rw [processText_paste hstart, processPaste_open hend]
    exact (emitAll_emitted _ _).append (.forget (.nil none))
  | closed buffer before pasteBuffer content remaining hstart hend ih =>
    rw [processText_paste hstart, processPaste_closed hend]
    exact (emitAll_emitted _ _).append (.paste content (ih none))

theorem step_emitted (state : StdinBuffer) (event : Event) :
    Emitted state.pendingKittyPrintableCodepoint (step state event).1
      (step state event).2.pendingKittyPrintableCodepoint := by
  cases event with
  | process str =>
    rw [step, process]
    split_ifs
    · exact emitDataSequence_emitted _ _
    · rw [processPaste]
      split
      · exact .nil _
      · exact .paste _ (processText_emitted none _)
    · exact processText_emitted _ _
  | timeout =>
    rw [step, flush]
    split_ifs
    · exact .nil _
    · exact .forget (emitDataSequence_emitted _ _)

theorem run_emitted (state : StdinBuffer) (events : List Event) :
    Emitted state.pendingKittyPrintableCodepoint (run state events).1
      (run state events).2.pendingKittyPrintableCodepoint := by
  induction events generalizing state with
  | nil => exact .nil _
  | cons event events ih => exact (step_emitted state event).append (ih _)

/-- The outputs and the held text are the input, and what is suppressed is the character of the key sequence that was
emitted right before it. -/
def InputKept (events : List Event) (outputs : List Output) (state : StdinBuffer) : Prop :=
  outputs.flatMap Output.text ++ state.held = events.flatMap Event.input ∧
    ∀ before sequence after, outputs = before ++ .suppressed sequence :: after →
      ∃ (char : UInt16) (key : JsStr), sequence = [char] ∧ before.getLast? = some (.data key) ∧
        parseUnmodifiedKittyPrintableCodepoint key = some char.toNat

/-- A run keeps its input just when no paste starts behind an unfinished sequence. -/
theorem run_keeps_input_iff (events : List Event) :
    InputKept events (run {} events).1 (run {} events).2 ↔ unfinishedAlong {} events = [] := by
  have hrun := run_accounts (show StdinBuffer.Settled {} from nofun) events
  constructor
  · intro hkept
    have hlength := hrun.length
    rw [kept, hkept.1] at hlength
    rw [← length_eq_zero_iff]
    exact Nat.left_eq_add.mp hlength.symm
  · intro hnone
    refine ⟨hrun.whole hnone, fun before sequence after hout => ?_⟩
    obtain ⟨char, hchar, ⟨_, hpending⟩ | ⟨key, hkey⟩⟩ := (run_emitted {} events).repeats hout
    · cases hpending
    · exact ⟨char, key, hchar, hkey⟩

/-- The start of a key sequence that a paste follows is lost. -/
theorem run_loses_escape :
    ¬ InputKept [.process [esc], .process bracketedPasteStart] (run {} [.process [esc], .process bracketedPasteStart]).1
      (run {} [.process [esc], .process bracketedPasteStart]).2 := by
  rintro ⟨hkept, _⟩
  revert hkept
  decide +kernel

end PiRp.Tui.Stdin

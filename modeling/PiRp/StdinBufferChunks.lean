import PiRp.StdinBuffer

/-! Chunks of terminal input. Fed in chunks, a text gives the events of the whole text unless a cut stands behind two ESC
that the next character would have parted, or inside a paste start of which a part has been taken for a sequence. -/

namespace PiRp.Tui.Stdin

open List

open JsStr (indexOf)

/-! ### Markers in longer texts -/

variable {text : JsStr}

theorem indexOf_le {word : JsStr} {index : Nat} (hindex : indexOf word text = some index) : index ≤ text.length := by
  induction text generalizing index with
  | nil =>
    rw [indexOf] at hindex
    split_ifs at hindex
    cases hindex
    exact Nat.le_refl 0
  | cons unit rest ih =>
    rw [indexOf] at hindex
    split_ifs at hindex
    · cases hindex
      exact Nat.zero_le _
    · obtain ⟨earlier, hear, rfl⟩ := Option.map_eq_some_iff.mp hindex
      exact Nat.succ_le_succ (ih hear)

/-- An occurrence is the first one also in what is left of a text. -/
theorem indexOf_append_left {word front : JsStr} (hindex : ∀ index < front.length,
    indexOf word (front ++ text) ≠ some index) :
    indexOf word (front ++ text) = (indexOf word text).map (front.length + ·) := by
  induction front with
  | nil => simp
  | cons unit front ih =>
    rw [cons_append, indexOf]
    split_ifs with hstar
    · exact absurd (by rw [cons_append, indexOf, if_pos hstar]) (hindex 0 (Nat.succ_pos _))
    · rw [ih, Option.map_map]
      · congr 1
        funext index
        simp only [Function.comp, length_cons]
        omega
      · intro index hlt heq
        refine hindex (index + 1) (Nat.succ_lt_succ hlt) ?_
        rw [cons_append, indexOf, if_neg hstar, heq]
        rfl

variable {before : JsStr}

theorem cutAt_eq_some_iff {marker behind : JsStr} : cutAt marker text = some (before, behind) ↔
      text = before ++ (marker ++ behind) ∧ indexOf marker text = some before.length := by
  constructor
  · intro hcut
    refine ⟨cutAt_eq_some hcut, ?_⟩
    obtain ⟨index, hindex, hslices⟩ := Option.map_eq_some_iff.mp hcut
    cases hslices
    rw [hindex, length_take_of_le (indexOf_le hindex)]
  · rintro ⟨htext, hindex⟩
    rw [cutAt, hindex, Option.map_some, htext, take_left, ← drop_drop, drop_left, drop_left]

theorem cutAt_append {marker behind : JsStr} (hcut : cutAt marker text = some (before, behind))
    (more : JsStr) : cutAt marker (text ++ more) = some (before, behind ++ more) := by
  rw [cutAt_eq_some_iff] at hcut ⊢
  exact ⟨by rw [hcut.1]; simp, JsStr.indexOf_append hcut.2 more⟩

theorem cutAt_append_left {marker front behind : JsStr}
    (hcut : cutAt marker (front ++ text) = some (front ++ before, behind)) :
    cutAt marker text = some (before, behind) := by
  rw [cutAt_eq_some_iff] at hcut ⊢
  obtain ⟨htext, hindex⟩ := hcut
  refine ⟨by simpa using htext, ?_⟩
  rw [indexOf_append_left, Option.map_eq_some_iff] at hindex
  · obtain ⟨index, hindex, hlength⟩ := hindex
    rw [length_append] at hlength
    rw [hindex, Nat.add_left_cancel hlength]
  · intro index hlt heq
    rw [hindex, length_append] at heq
    cases heq
    omega

theorem cutAt_none_append_left {marker front : JsStr} (hcut : cutAt marker (front ++ text) = none) :
    cutAt marker text = none := by
  rw [cutAt, Option.map_eq_none_iff] at hcut ⊢
  rw [indexOf_append_left fun _ _ => by simp [hcut]] at hcut
  exact Option.map_eq_none_iff.mp hcut

/-! ### Sequences in longer texts -/

theorem sequenceEnd_append {seqEnd : Nat} (hend : sequenceEnd text = some seqEnd) (more : JsStr) :
    sequenceEnd (text ++ more) = some seqEnd := by
  have hbounds := sequenceEnd_bounds hend
  simp only [sequenceEnd, find?_range'_eq_some] at hend ⊢
  obtain ⟨hcomplete, hmem, hearlier⟩ := hend
  refine ⟨?_, ?_, fun index hone hlt => ?_⟩
  · rwa [take_append_of_le_length hbounds.2]
  · rw [mem_range'_1, length_append]
    omega
  · rw [take_append_of_le_length (by omega)]
    exact hearlier index hone hlt

variable {sequence more : JsStr}

/-- The two ESC of a text end are one sequence, unless the next character opens one behind the second. -/
theorem nextSequence_append {rest : JsStr} (hnext : nextSequence text = some (sequence, rest))
    (hdouble : ¬ (sequence = [esc, esc] ∧ rest = [] ∧ opensSequence more.head? = true)) :
    nextSequence (text ++ more) = some (sequence, rest ++ more) := by
  cases text with
  | nil => cases hnext
  | cons first tail =>
    rw [nextSequence] at hnext
    rw [cons_append, nextSequence]
    split_ifs at hnext ⊢ with hesc
    · cases hnext
      rfl
    · obtain ⟨seqEnd, hend, hcut⟩ := Option.map_eq_some_iff.mp hnext
      have hle := (sequenceEnd_bounds hend).2
      rw [← cons_append, sequenceEnd_append hend, Option.map_some, take_append_of_le_length hle,
        drop_append_of_le_length hle]
      split_ifs at hcut with hopens
      · obtain ⟨rfl, rfl⟩ := Prod.mk.inj hcut
        have hhead : ((first :: tail).drop seqEnd ++ more).head? = ((first :: tail).drop seqEnd).head? := by
          cases hdrop : (first :: tail).drop seqEnd with
          | nil =>
            rw [hdrop] at hopens
            cases hopens.2
          | cons => rfl
        rw [hhead, if_pos hopens]
      · obtain ⟨rfl, rfl⟩ := Prod.mk.inj hcut
        rw [if_neg]
        rintro ⟨hesc', hopens'⟩
        cases hdrop : (first :: tail).drop seqEnd with
        | nil =>
          rw [hdrop] at hopens'
          exact hdouble ⟨hesc', hdrop, hopens'⟩
        | cons unit rest =>
          rw [hdrop] at hopens' hopens
          exact hopens ⟨hesc', hopens'⟩

theorem nextSequence_doubled (hnext : nextSequence text = some ([esc, esc], []))
    (hopens : opensSequence more.head? = true) : nextSequence (text ++ more) = some ([esc], esc :: more) := by
  obtain ⟨rfl, -⟩ := nextSequence_eq_some hnext
  have hend : sequenceEnd [esc, esc] = some 2 := by decide
  rw [append_nil, cons_append, nextSequence, if_neg (not_not.mpr rfl), ← cons_append,
    sequenceEnd_append hend, Option.map_some, if_pos ⟨rfl, hopens⟩]
  rfl

/-- The text ends in a sequence of two ESC, and the next one begins with a character that would have parted them. -/
def EndsDoubled (text next : JsStr) : Prop :=
  (extractCompleteSequences text).2 = [] ∧ (extractCompleteSequences text).1.getLast? = some [esc, esc] ∧
    opensSequence next.head? = true

variable {next : JsStr}

theorem EndsDoubled.cons {rest : JsStr} (hnext : nextSequence text = some (sequence, rest))
    (hdouble : EndsDoubled rest next) : EndsDoubled text next := by
  rw [EndsDoubled, extract_of_some hnext, getLast?_cons]
  exact ⟨hdouble.1, by rw [hdouble.2.1]; rfl, hdouble.2.2⟩

theorem extract_nil : extractCompleteSequences [] = ([], []) := extract_of_none rfl

theorem extract_append (hdouble : ¬ EndsDoubled text more) : extractCompleteSequences (text ++ more) =
      ((extractCompleteSequences text).1 ++ (extractCompleteSequences ((extractCompleteSequences text).2 ++ more)).1,
        (extractCompleteSequences ((extractCompleteSequences text).2 ++ more)).2) := by
  induction text using extract_induction with
  | last text hnext => simp [extract_of_none hnext]
  | next text sequence rest hnext ih =>
    have hparted : ¬ (sequence = [esc, esc] ∧ rest = [] ∧ opensSequence more.head? = true) := by
      rintro ⟨rfl, rfl, hopens⟩
      refine hdouble ⟨?_, ?_, hopens⟩
      · simp [extract_of_some hnext, extract_nil]
      · simp [extract_of_some hnext, extract_nil]
    rw [extract_of_some (nextSequence_append hnext hparted), ih (hdouble ∘ .cons hnext), extract_of_some hnext]
    simp

theorem extract_doubled (hdouble : EndsDoubled text more) :
    ∃ sequences later, (extractCompleteSequences text).1 = sequences ++ [[esc, esc]] ∧
      (extractCompleteSequences (text ++ more)).1 = sequences ++ [esc] :: later := by
  induction text using extract_induction with
  | last text hnext =>
    have hlast := hdouble.2.1
    rw [extract_of_none hnext] at hlast
    cases hlast
  | next text sequence rest hnext ih =>
    obtain ⟨hnone, hlast, hopens⟩ := hdouble
    rw [extract_of_some hnext] at hnone hlast
    rw [getLast?_cons] at hlast
    cases hrest : (extractCompleteSequences rest).1 with
    | nil =>
      have hempty := extract_flatten rest
      rw [hrest, hnone] at hempty
      obtain rfl : rest = [] := hempty.symm
      rw [hrest] at hlast
      cases hlast
      refine ⟨[], (extractCompleteSequences (esc :: more)).1, ?_, ?_⟩
      · rw [extract_of_some hnext, extract_nil]
        rfl
      · rw [extract_of_some (nextSequence_doubled hnext hopens)]
        rfl
    | cons other others =>
      have hlast' : (extractCompleteSequences rest).1.getLast? = some [esc, esc] := by
        rw [hrest] at hlast ⊢
        simpa [getLast?_cons] using hlast
      obtain ⟨sequences, later, hfirst, hlater⟩ := ih ⟨hnone, hlast', hopens⟩
      have hnext' := nextSequence_append hnext fun hnil : _ ∧ _ ∧ opensSequence more.head? = true => by
        rw [hnil.2.1, extract_nil] at hrest
        cases hrest
      refine ⟨sequence :: sequences, later, ?_, ?_⟩
      · rw [extract_of_some hnext, hfirst]
        rfl
      · rw [extract_of_some hnext', hlater]
        rfl

theorem nextSequence_remainder (buffer : JsStr) : nextSequence (extractCompleteSequences buffer).2 = none := by
  induction buffer using extract_induction with
  | last buffer hnext => rwa [extract_of_none hnext]
  | next buffer sequence rest hnext ih => rwa [extract_of_some hnext]

theorem extract_remainder (buffer : JsStr) :
    extractCompleteSequences (extractCompleteSequences buffer).2 = ([], (extractCompleteSequences buffer).2) :=
  extract_of_none (nextSequence_remainder buffer)

/-- What is left begins with ESC. -/
theorem remainder_head (buffer : JsStr) :
    (extractCompleteSequences buffer).2 = [] ∨ (extractCompleteSequences buffer).2.head? = some esc := by
  have hnext := nextSequence_remainder buffer
  cases hrem : (extractCompleteSequences buffer).2 with
  | nil => exact .inl rfl
  | cons first rest =>
    rw [hrem, nextSequence] at hnext
    split_ifs at hnext with hesc
    rw [not_not] at hesc
    exact .inr (by rw [hesc]; rfl)

theorem emitAll_append (pending : Option Nat) (sequences later : List JsStr) : emitAll pending (sequences ++ later) =
      ((emitAll pending sequences).1 ++ (emitAll (emitAll pending sequences).2 later).1,
        (emitAll (emitAll pending sequences).2 later).2) := by
  induction sequences generalizing pending with
  | nil => rfl
  | cons sequence rest ih => simp [emitAll, ih]

/-! ### Cuts -/

/-- What of a text stands behind its last paste, or nothing where a paste is open. -/
def openText (buffer : JsStr) : Option JsStr :=
  match _hstart : cutAt bracketedPasteStart buffer with
  | none => some buffer
  | some (_, pasteBuffer) =>
    match _hend : cutAt bracketedPasteEnd pasteBuffer with
    | none => none
    | some (_, remaining) => openText remaining
  termination_by buffer.length
  decreasing_by
    exact behind_paste_length _hstart _hend

variable {buffer : JsStr}

theorem openText_text (hstart : cutAt bracketedPasteStart buffer = none) : openText buffer = some buffer := by
  rw [openText]
  grind

theorem openText_opened {pasteBuffer : JsStr} (hstart : cutAt bracketedPasteStart buffer = some (before, pasteBuffer))
    (hend : cutAt bracketedPasteEnd pasteBuffer = none) : openText buffer = none := by
  rw [openText]
  grind

theorem openText_closed {pasteBuffer content remaining : JsStr}
    (hstart : cutAt bracketedPasteStart buffer = some (before, pasteBuffer))
    (hend : cutAt bracketedPasteEnd pasteBuffer = some (content, remaining)) :
    openText buffer = openText remaining := by
  rw [openText]
  grind

/-- A cut that parts no two ESC which were taken for one sequence, and no paste start of which a part was taken for a
sequence or the end of one. -/
def CleanCut (before next : JsStr) : Prop :=
  ∀ text, openText before = some text → ¬ EndsDoubled text next ∧
    ∀ front behind, cutAt bracketedPasteStart (text ++ next) = some (front, behind) → front.length < text.length →
      (extractCompleteSequences text).1 = (extractCompleteSequences front).1

def CleanCuts (before : JsStr) : List JsStr → Prop
  | [] => True
  | chunk :: chunks => CleanCut before chunk ∧ CleanCuts (before ++ chunk) chunks

theorem CleanCut.closed {pasteBuffer content remaining : JsStr}
    (hstart : cutAt bracketedPasteStart buffer = some (before, pasteBuffer))
    (hend : cutAt bracketedPasteEnd pasteBuffer = some (content, remaining)) :
    CleanCut buffer next ↔ CleanCut remaining next := by
  rw [CleanCut, openText_closed hstart hend]
  rfl

/-- The two runs of a text that is cut, put together. -/
def thenProcess (result : List Output × StdinBuffer) (str : JsStr) : List Output × StdinBuffer :=
  (result.1 ++ (process result.2 str).1, (process result.2 str).2)

variable {str : JsStr}

theorem process_text {state : StdinBuffer} (hne : str ≠ []) (htext : state.pasteMode = false) :
    process state str = processText state.pendingKittyPrintableCodepoint (state.buffer ++ str) := by
  rw [process, if_neg fun hempty => hne hempty.1, htext]
  rfl

theorem process_paste {state : StdinBuffer} (hne : str ≠ []) (hpaste : state.pasteMode = true) : process state str =
      processPaste state.pendingKittyPrintableCodepoint (state.pasteBuffer ++ (state.buffer ++ str)) := by
  rw [process, if_neg fun hempty => hne hempty.1, hpaste]
  rfl

/-- A text without a paste start: what is held back goes on with the next chunk. -/
theorem processText_cut (hstart : cutAt bracketedPasteStart text = none)
    (hclean : CleanCut text next) (pending : Option Nat) : processText pending (text ++ next) =
      ((emitAll pending (extractCompleteSequences text).1).1 ++
          (processText (emitAll pending (extractCompleteSequences text).1).2
            ((extractCompleteSequences text).2 ++ next)).1,
        (processText (emitAll pending (extractCompleteSequences text).1).2
          ((extractCompleteSequences text).2 ++ next)).2) := by
  obtain ⟨hdouble, hmarker⟩ := hclean text (openText_text hstart)
  have hflatten := extract_flatten text
  set sequences := (extractCompleteSequences text).1 with hsequences
  set remainder := (extractCompleteSequences text).2 with hremainder
  have hjoined : text ++ next = sequences.flatten ++ (remainder ++ next) := by rw [← append_assoc, hflatten]
  cases hcut : cutAt bracketedPasteStart (text ++ next) with
  | none =>
    have hrest : cutAt bracketedPasteStart (remainder ++ next) = none :=
      cutAt_none_append_left (show cutAt _ (sequences.flatten ++ _) = none by rw [← hjoined, hcut])
    rw [processText_text hcut, processText_text hrest, extract_append hdouble, emitAll_append]
  | some slices =>
    obtain ⟨front, behind⟩ := slices
    have hfront := cutAt_eq_some hcut
    rcases Nat.lt_or_ge front.length text.length with hlt | hge
    · -- The marker begins in what is held back, and nothing before it is a sequence.
      have hheld := extract_flatten front
      rw [← hmarker front behind hcut hlt] at hheld
      have hrest : cutAt bracketedPasteStart (remainder ++ next) = some ((extractCompleteSequences front).2, behind) :=
        cutAt_append_left (show cutAt _ (sequences.flatten ++ _) = _ by rw [← hjoined, hheld, hcut])
      rw [processText_paste hcut, processText_paste hrest, extract_remainder, hmarker front behind hcut hlt]
      simp [emitAll]
    · obtain ⟨more, rfl⟩ : ∃ more, front = text ++ more :=
        (prefix_of_prefix_length_le ⟨next, rfl⟩ ⟨_, hfront.symm⟩ hge).imp fun _ => Eq.symm
      have hrest : cutAt bracketedPasteStart (remainder ++ next) = some (remainder ++ more, behind) :=
        cutAt_append_left (show cutAt _ (sequences.flatten ++ _) = some (_ ++ (_ ++ _), _) by
          rw [← hjoined, ← append_assoc, hflatten, hcut])
      have hdouble' : ¬ EndsDoubled text more := by
        rintro ⟨hnone, hlast, hopens⟩
        refine hdouble ⟨hnone, hlast, ?_⟩
        rw [append_assoc, append_cancel_left_eq] at hfront
        cases more with
        | nil => cases hopens
        | cons unit more => rwa [hfront]
      rw [processText_paste hcut, processText_paste hrest, extract_append hdouble', emitAll_append]
      simp [hsequences, hremainder]

theorem processText_append (hne : next ≠ []) (hclean : CleanCut before next)
    (pending : Option Nat) : processText pending (before ++ next) = thenProcess (processText pending before) next := by
  induction before using paste_induction generalizing pending with
  | text buffer hstart =>
    rw [processText_cut hstart hclean, thenProcess, processText_text hstart, process_text hne rfl]
  | opened buffer front pasteBuffer hstart hend =>
    rw [thenProcess, processText_paste hstart, processPaste_open hend, process_paste hne rfl,
      processText_paste (cutAt_append hstart next)]
    simp
  | closed buffer front pasteBuffer content remaining hstart hend ih =>
    rw [thenProcess, processText_paste hstart, processPaste_closed hend,
      processText_paste (cutAt_append hstart next), processPaste_closed (cutAt_append hend next),
      ih ((CleanCut.closed hstart hend).mp hclean), thenProcess]
    simp

/-! ### Cuts that are not clean -/

/-- The events of the buffer. -/
def events (outputs : List Output) : List Output :=
  outputs.filter fun output => match output with
    | .suppressed _ => false
    | _ => true

theorem events_append (outputs later : List Output) : events (outputs ++ later) = events outputs ++ events later :=
  filter_append ..

/-- A codepoint that is pending is printable. -/
def Printable (pending : Option Nat) : Prop := ∀ codepoint, pending = some codepoint → 32 ≤ codepoint

theorem parseUnmodifiedKittyPrintableCodepoint_printable (sequence : JsStr) :
    Printable (parseUnmodifiedKittyPrintableCodepoint sequence) := by
  intro codepoint hparse
  rw [parseUnmodifiedKittyPrintableCodepoint] at hparse
  split at hparse
  · split at hparse
    · split at hparse
      · rename_i hprint
        cases hparse
        exact hprint.2.2.2.2
      · cases hparse
    · cases hparse
  · cases hparse

variable {pending : Option Nat}

section

variable (hprint : Printable pending)

include hprint

theorem emitAll_printable (sequences : List JsStr) :
    Printable (emitAll pending sequences).2 := by
  induction sequences generalizing pending with
  | nil => exact hprint
  | cons sequence rest ih =>
    rw [emitAll]
    refine ih ?_
    obtain ⟨char, -, -, hemit⟩ | hemit := emitDataSequence_cases pending sequence
    · rw [hemit]
      rintro _ ⟨⟩
    · rw [hemit]
      exact parseUnmodifiedKittyPrintableCodepoint_printable sequence

/-- An escape sequence is never suppressed. -/
theorem events_emitAll_escape
    (hesc : sequence.head? = some esc) (rest : List JsStr) (later : List Output) :
    ∃ more, events ((emitAll pending (sequence :: rest)).1 ++ later) = .data sequence :: more := by
  obtain ⟨char, rfl, rfl, -⟩ | hemit := emitDataSequence_cases pending sequence
  · cases hesc
    exact absurd (hprint _ rfl) (by decide)
  · exact ⟨_, by rw [emitAll, hemit]; rfl⟩

omit hprint in
/-- Behind the text before a paste comes the paste, or nothing yet. -/
theorem processPaste_outputs (pending : Option Nat) (pasteBuffer : JsStr) :
    (processPaste pending pasteBuffer).1 = [] ∨
      ∃ content later, (processPaste pending pasteBuffer).1 = .paste content :: later := by
  cases hend : cutAt bracketedPasteEnd pasteBuffer with
  | none => exact .inl (by rw [processPaste_open hend])
  | some slices => exact .inr ⟨slices.1, _, by rw [processPaste_closed hend]⟩

/-- A paste start that is cut where a part of it has been taken for a sequence: the chunks have an event more before the
paste. -/
theorem events_ne_of_marker {front behind : JsStr}
    (hcut : cutAt bracketedPasteStart (text ++ next) = some (front, behind)) (hlt : front.length < text.length)
    (hne : (extractCompleteSequences text).1 ≠ (extractCompleteSequences front).1) (later : List Output) :
    events (processText pending (text ++ next)).1 ≠
      events ((emitAll pending (extractCompleteSequences text).1).1 ++ later) := by
  have hfront := cutAt_eq_some hcut
  obtain ⟨part, rfl⟩ : ∃ part, text = front ++ part :=
    (prefix_of_prefix_length_le ⟨_, hfront.symm⟩ ⟨next, rfl⟩ hlt.le).imp fun _ => Eq.symm
  have hpart : part.head? = some esc := by
    cases part with
    | nil => simp at hlt
    | cons unit part =>
      rw [append_assoc, append_cancel_left_eq] at hfront
      exact congrArg List.head? hfront
  have hdouble : ¬ EndsDoubled front part := by
    rintro ⟨-, -, hopens⟩
    rw [hpart] at hopens
    cases hopens
  rw [extract_append hdouble] at hne ⊢
  have hhead : ((extractCompleteSequences front).2 ++ part).head? = some esc := by
    obtain hnone | hesc := remainder_head front
    · rw [hnone]
      exact hpart
    · rw [head?_append, hesc]
      rfl
  cases hmore : nextSequence ((extractCompleteSequences front).2 ++ part) with
  | none => simp [extract_of_none hmore] at hne
  | some next =>
    obtain ⟨sequence, rest⟩ := next
    obtain ⟨hsplit, hsome⟩ := nextSequence_eq_some hmore
    have hesc : sequence.head? = some esc := by
      cases sequence with
      | nil => exact absurd rfl hsome
      | cons unit sequence =>
        rw [← hsplit] at hhead
        exact hhead
    rw [processText_paste hcut, extract_of_some hmore, emitAll_append, append_assoc, events_append, events_append]
    obtain ⟨more, hevents⟩ := events_emitAll_escape (emitAll_printable hprint (extractCompleteSequences front).1) hesc
      (extractCompleteSequences rest).1 later
    intro heq
    have htail := append_cancel_left heq
    rw [hevents] at htail
    obtain hnone | ⟨content, outputs, hpaste⟩ := processPaste_outputs none behind
    · rw [hnone] at htail
      cases htail
    · rw [hpaste] at htail
      cases htail

/-- Two ESC that the next character parts. -/
theorem events_ne_of_doubled
    (hdouble : EndsDoubled text more) (outputs later : List Output) :
    events ((emitAll pending (extractCompleteSequences (text ++ more)).1).1 ++ outputs) ≠
      events ((emitAll pending (extractCompleteSequences text).1).1 ++ later) := by
  obtain ⟨sequences, after, hfirst, hlater⟩ := extract_doubled hdouble
  have hprint' := emitAll_printable hprint sequences
  rw [hfirst, hlater, emitAll_append, emitAll_append, append_assoc, append_assoc, events_append,
    events_append (emitAll pending sequences).1]
  intro heq
  have htail := append_cancel_left heq
  obtain ⟨_, hone⟩ := events_emitAll_escape hprint' (show [esc].head? = _ from rfl) after outputs
  obtain ⟨_, htwo⟩ := events_emitAll_escape hprint' (show [esc, esc].head? = _ from rfl) [] later
  rw [hone, htwo] at htail
  cases htail

end

/-- Whatever follows, the events behind a cut that is not clean are not those of the whole text. -/
theorem events_ne_of_not_clean (hclean : ¬ CleanCut before next)
    (hprint : Printable pending) (rest : JsStr) (later : List Output) :
    events (processText pending (before ++ (next ++ rest))).1 ≠ events ((processText pending before).1 ++ later) := by
  induction before using paste_induction generalizing pending later with
  | text buffer hstart =>
    rw [processText_text hstart]
    simp only [CleanCut, openText_text hstart, Option.some.injEq, forall_eq', not_and_or, not_not,
      not_forall] at hclean
    obtain hdouble | ⟨front, behind, hcut, hlt, hne⟩ := hclean
    · have hopens : opensSequence (next ++ rest).head? = true := by
        cases next with
        | nil => cases hdouble.2.2
        | cons => exact hdouble.2.2
      cases hcut : cutAt bracketedPasteStart (buffer ++ (next ++ rest)) with
      | none =>
        rw [processText_text hcut, ← append_nil (emitAll _ _).1]
        exact events_ne_of_doubled hprint ⟨hdouble.1, hdouble.2.1, hopens⟩ [] later
      | some slices =>
        obtain ⟨front, behind⟩ := slices
        have hfront := cutAt_eq_some hcut
        rcases Nat.lt_or_ge front.length buffer.length with hlt | hge
        · refine events_ne_of_marker hprint hcut hlt (fun hsame => ?_) later
          have hwhole := (extract_accounts buffer).whole hdouble.1
          have hlength := (extract_accounts front).length
          rw [← hsame, hwhole] at hlength
          omega
        · obtain ⟨more, rfl⟩ : ∃ more, front = buffer ++ more :=
            (prefix_of_prefix_length_le ⟨_, rfl⟩ ⟨_, hfront.symm⟩ hge).imp fun _ => Eq.symm
          have hopens' : opensSequence more.head? = true := by
            rw [append_assoc, append_cancel_left_eq] at hfront
            rw [hfront] at hopens
            cases more with
            | nil => cases hopens
            | cons => exact hopens
          rw [processText_paste hcut]
          exact events_ne_of_doubled hprint ⟨hdouble.1, hdouble.2.1, hopens'⟩ _ later
    · have hcut' := cutAt_append hcut rest
      rw [append_assoc] at hcut'
      exact events_ne_of_marker hprint hcut' hlt hne later
  | opened buffer front pasteBuffer hstart hend =>
    refine absurd (fun text htext => ?_) hclean
    rw [openText_opened hstart hend] at htext
    cases htext
  | closed buffer front pasteBuffer content remaining hstart hend ih =>
    rw [processText_paste (cutAt_append hstart _), processPaste_closed (cutAt_append hend _),
      processText_paste hstart, processPaste_closed hend]
    intro heq
    refine ih ((not_congr (CleanCut.closed hstart hend)).mp hclean) (show Printable none from nofun) later ?_
    rw [append_assoc, events_append, events_append (emitAll _ _).1] at heq
    exact (List.cons.inj (append_cancel_left heq)).2

/-! ### Chunks -/

/-- The chunks behind a text that has been read. -/
theorem run_chunks {chunks : List JsStr} (hne : ∀ chunk ∈ chunks, chunk ≠ [])
    (hclean : CleanCuts before chunks) (pending : Option Nat) : processText pending (before ++ chunks.flatten) =
      ((processText pending before).1 ++ (run (processText pending before).2 (chunks.map .process)).1,
        (run (processText pending before).2 (chunks.map .process)).2) := by
  induction chunks generalizing before with
  | nil => simp [run]
  | cons chunk chunks ih =>
    rw [forall_mem_cons] at hne
    rw [flatten_cons, ← append_assoc, ih hne.2 hclean.2, processText_append hne.1 hclean.1, thenProcess]
    simp [run, step]

theorem events_chunks_ne {chunks : List JsStr} (hne : ∀ chunk ∈ chunks, chunk ≠ [])
    (hclean : ¬ CleanCuts before chunks) (hprint : Printable pending) :
    events (processText pending (before ++ chunks.flatten)).1 ≠
      events ((processText pending before).1 ++ (run (processText pending before).2 (chunks.map .process)).1) := by
  induction chunks generalizing before with
  | nil => exact absurd trivial hclean
  | cons chunk chunks ih =>
    rw [forall_mem_cons] at hne
    by_cases hcut : CleanCut before chunk
    · have hrest := ih hne.2 fun hcuts => hclean ⟨hcut, hcuts⟩
      rw [processText_append hne.1 hcut, thenProcess] at hrest
      simpa [run, step] using hrest
    · exact events_ne_of_not_clean hcut hprint chunks.flatten _

theorem processText_nil : processText none [] = ([], {}) := by
  rw [processText_text rfl, extract_nil]
  rfl

theorem process_init (hne : str ≠ []) : process {} str = processText none str := process_text hne rfl

/-- The chunks of a text give what the whole text gives. -/
def SameInChunks (chunks : List JsStr) : Prop :=
  events (run {} (chunks.map .process)).1 = events (process {} chunks.flatten).1 ∧
    (run {} (chunks.map .process)).2 = (process {} chunks.flatten).2

end PiRp.Tui.Stdin

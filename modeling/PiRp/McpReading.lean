import PiRp.McpSse

/-! What the reader of events makes of a stream does not depend on the chunks. As long as no limit is exceeded, it is
the lines of the whole text that count. -/

namespace PiRp

open List Option

/-! ### Lines of a text that grows -/

variable {α : Type*}

theorem splitOn_append [BEq α] [LawfulBEq α] (separator : α) (left right : List α) :
    (left ++ right).splitOn separator = (left.splitOn separator).dropLast ++
        ((left.splitOn separator).getLast?.getD [] ++ right).splitOn separator := by
  induction hlen : left.length using Nat.strong_induction_on generalizing left with
  | _ length ih =>
    by_cases hmem : separator ∈ left
    · obtain ⟨line, rest, rfl, hline⟩ := eq_append_cons_of_mem hmem
      have hrest := ih rest.length (by rw [← hlen, length_append, length_cons]; omega) rest rfl
      have hne := splitOn_ne_nil separator rest
      rw [append_assoc, cons_append, splitOn_append_cons_self_of_not_mem hline,
        splitOn_append_cons_self_of_not_mem hline, hrest, dropLast_cons_of_ne_nil hne,
        getLast?_cons_of_ne_nil hne, cons_append]
    · rw [splitOn_eq_singleton hmem]
      rfl

theorem dropLast_splitOn_append [BEq α] [LawfulBEq α] (separator : α) (left right : List α) :
    ((left ++ right).splitOn separator).dropLast = (left.splitOn separator).dropLast ++
        (((left.splitOn separator).getLast?.getD [] ++ right).splitOn separator).dropLast := by
  rw [splitOn_append, dropLast_append_of_ne_nil (splitOn_ne_nil _ _)]

theorem getLast?_splitOn_append [BEq α] [LawfulBEq α] (separator : α) (left right : List α) :
    ((left ++ right).splitOn separator).getLast? =
      (((left.splitOn separator).getLast?.getD [] ++ right).splitOn separator).getLast? := by
  rw [splitOn_append, getLast?_append_of_ne_nil _ (splitOn_ne_nil _ _)]

theorem notMem_of_mem_splitOn [BEq α] [LawfulBEq α] {separator : α} {text piece : List α}
    (hpiece : piece ∈ text.splitOn separator) : separator ∉ piece := by
  induction hlen : text.length using Nat.strong_induction_on generalizing text with
  | _ length ih =>
    by_cases hmem : separator ∈ text
    · obtain ⟨line, rest, rfl, hline⟩ := eq_append_cons_of_mem hmem
      rw [splitOn_append_cons_self_of_not_mem hline, mem_cons] at hpiece
      rcases hpiece with rfl | hpiece
      · exact hline
      · exact ih rest.length (by rw [← hlen, length_append, length_cons]; omega) hpiece rfl
    · rw [splitOn_eq_singleton hmem, mem_singleton] at hpiece
      exact hpiece ▸ hmem

theorem getLast?_prefix_piece [BEq α] [LawfulBEq α] (separator : α) (left right : List α) :
    ∃ piece ∈ (left ++ right).splitOn separator, (left.splitOn separator).getLast?.getD [] <+: piece := by
  have hne := splitOn_ne_nil separator left
  have hlast : separator ∉ (left.splitOn separator).getLast?.getD [] := by
    rw [getLast?_eq_some_getLast hne, getD_some]
    exact notMem_of_mem_splitOn (getLast_mem hne)
  rw [splitOn_append]
  generalize (left.splitOn separator).getLast?.getD [] = last at hlast
  by_cases hmem : separator ∈ right
  · obtain ⟨line, rest, rfl, hline⟩ := eq_append_cons_of_mem hmem
    refine ⟨last ++ line, mem_append_right _ ?_, prefix_append last line⟩
    rw [← append_assoc, splitOn_append_cons_self_of_not_mem]
    · exact mem_cons_self
    · rw [mem_append, not_or]
      exact ⟨hlast, hline⟩
  · refine ⟨last ++ right, mem_append_right _ ?_, prefix_append last right⟩
    rw [splitOn_eq_singleton]
    · exact mem_singleton_self _
    · rw [mem_append, not_or]
      exact ⟨hlast, hmem⟩

theorem splitOn_lines [BEq α] [LawfulBEq α] {separator : α} {lines : List (List α)}
    (hlines : ∀ line ∈ lines, separator ∉ line) (rest : List α) :
    ((lines.flatMap fun line => line ++ [separator]) ++ rest).splitOn separator =
      lines ++ rest.splitOn separator := by
  induction lines with
  | nil => rfl
  | cons line lines ih =>
    rw [flatMap_cons, append_assoc, append_assoc, singleton_append,
      splitOn_append_cons_self_of_not_mem (hlines line mem_cons_self),
      ih fun other hother => hlines other (mem_cons_of_mem _ hother), cons_append]

namespace Utf8

/-- The text of some bytes without the character that is unfinished at their end. -/
def textOf (bytes : List UInt8) : JsStr := (decodeFrom none bytes).1

theorem textOf_append (left right : List UInt8) :
    textOf (left ++ right) = textOf left ++ (decodeFrom (decodeFrom none left).2 right).1 := by
  rw [textOf, decodeFrom_append]
  rfl

theorem decodeFrom_newline (left right : List UInt8) : decodeFrom none (left ++ 0x0a :: right) =
      (decode left ++ 0x0a :: (decodeFrom none right).1, (decodeFrom none right).2) := by
  rw [decodeFrom_append, decodeFrom, step_newline, decode]
  simp only [append_assoc, cons_append, nil_append]

theorem splitOn_textOf (bytes : List UInt8) : (textOf bytes).splitOn 0x0a =
        ((bytes.splitOn 0x0a).dropLast).map decode ++ [textOf ((bytes.splitOn 0x0a).getLast?.getD [])] ∧
      (decodeFrom none bytes).2 = (decodeFrom none ((bytes.splitOn 0x0a).getLast?.getD [])).2 := by
  induction hlen : bytes.length using Nat.strong_induction_on generalizing bytes with
  | _ length ih =>
    by_cases hmem : 0x0a ∈ bytes
    · obtain ⟨line, rest, rfl, hline⟩ := eq_append_cons_of_mem hmem
      obtain ⟨htext, hstate⟩ := ih rest.length (by rw [← hlen, length_append, length_cons]; omega) rest rfl
      have hne := splitOn_ne_nil (0x0a : UInt8) rest
      rw [textOf, decodeFrom_newline, splitOn_append_cons_self_of_not_mem hline,
        dropLast_cons_of_ne_nil hne, getLast?_cons_of_ne_nil hne]
      dsimp only
      rw [splitOn_append_cons_self_of_not_mem (newline_notMem_decode hline)]
      refine ⟨?_, hstate⟩
      rw [map_cons, cons_append, ← htext]
      rfl
    · have hnot : (0x0a : UInt16) ∉ textOf bytes := newline_notMem_decodeFrom none hmem
      rw [splitOn_eq_singleton hmem, splitOn_eq_singleton hnot]
      exact ⟨rfl, rfl⟩

end Utf8

namespace Mcp.Sse

/-! ### Calls of some lines -/

/-- The calls of some lines, and the event that is pending behind them; none when the limit is exceeded. -/
def readLines (maxEventBytes : Nat) (pending : PendingEvent) : List JsStr → Option (PendingEvent × List Call)
  | [] => some (pending, [])
  | line :: rest =>
    (processLine maxEventBytes pending line).bind fun step =>
      (readLines maxEventBytes step.1 rest).map fun result => (result.1, step.2 ++ result.2)

section Lines

variable {maxEventBytes : Nat}

theorem readLines_append (pending : PendingEvent) (left right : List JsStr) :
    readLines maxEventBytes pending (left ++ right) = (readLines maxEventBytes pending left).bind fun step =>
        (readLines maxEventBytes step.1 right).map fun result => (result.1, step.2 ++ result.2) := by
  induction left generalizing pending with
  | nil =>
    rw [nil_append, readLines, bind_some]
    cases readLines maxEventBytes pending right with
    | none => rfl
    | some result => rfl
  | cons line rest ih =>
    rw [cons_append, readLines, readLines]
    cases processLine maxEventBytes pending line with
    | none => rfl
    | some step =>
      rw [bind_some, bind_some, ih]
      cases readLines maxEventBytes step.1 rest with
      | none => rfl
      | some middle =>
        rw [bind_some, map_some, bind_some]
        cases readLines maxEventBytes middle.1 right with
        | none => rfl
        | some result =>
          simp only [map_some, append_assoc]

theorem readLines_prefix {pending : PendingEvent} {left right : List JsStr} (hstart : left <+: right)
    (hright : (readLines maxEventBytes pending right).isSome = true) :
    (readLines maxEventBytes pending left).isSome = true := by
  obtain ⟨rest, rfl⟩ := hstart
  rw [readLines_append] at hright
  cases hleft : readLines maxEventBytes pending left with
  | none =>
    rw [hleft] at hright
    exact nomatch hright
  | some step => rfl

variable {σ : Type*} {call : σ → Call → σ}

theorem processLines_eq {pending after : PendingEvent} {lines : List JsStr} {calls : List Call}
    (hread : readLines maxEventBytes pending lines = some (after, calls)) (sink : σ) :
    processLines call maxEventBytes pending sink lines = .ok (after, calls.foldl call sink) := by
  induction lines generalizing pending calls sink with
  | nil =>
    obtain ⟨rfl, rfl⟩ := Prod.mk.inj (Option.some.inj hread)
    rfl
  | cons line rest ih =>
    rw [readLines] at hread
    obtain ⟨step, hstep, hrest⟩ := bind_eq_some_iff.mp hread
    obtain ⟨result, hres, heq⟩ := map_eq_some_iff.mp hrest
    obtain ⟨rfl, rfl⟩ := Prod.mk.inj heq
    rw [processLines, hstep]
    dsimp only
    rw [ih hres, foldl_append]

end Lines

/-! ### Chunks -/

section Chunks

variable {σ : Type*} {call : σ → Call → σ} {maxEventBytes : Nat} {sink : σ}

/-- The text of the lines that some bytes complete. -/
def completeLines (bytes : List UInt8) : List JsStr := ((Utf8.textOf bytes).splitOn newline).dropLast

/-- The text behind the last line break. -/
def lastPiece (bytes : List UInt8) : JsStr := ((Utf8.textOf bytes).splitOn newline).getLast?.getD []

/-- The bytes can be read to their end: no start of them is a byte order mark, leaves too long a line, or has too
long an event. -/
def Readable (maxEventBytes : Nat) (bytes : List UInt8) : Prop :=
  (∀ start, start <+: bytes → (Utf8.textOf start).head? ≠ some 0xfeff) ∧
    (∀ start, start <+: bytes → byteLength (lastPiece start) ≤ maxEventBytes) ∧
    (readLines maxEventBytes .empty (completeLines bytes)).isSome = true

theorem completeLines_append (left right : List UInt8) : completeLines (left ++ right) = completeLines left ++
      ((lastPiece left ++ (Utf8.decodeFrom (Utf8.decodeFrom none left).2 right).1).splitOn newline).dropLast := by
  rw [completeLines, Utf8.textOf_append, dropLast_splitOn_append]
  rfl

theorem lastPiece_append (left right : List UInt8) : lastPiece (left ++ right) =
      ((lastPiece left ++ (Utf8.decodeFrom (Utf8.decodeFrom none left).2 right).1).splitOn newline).getLast?.getD [] := by
  rw [lastPiece, Utf8.textOf_append, getLast?_splitOn_append]
  rfl

variable {bytes : List UInt8}

theorem Readable.start {start : List UInt8} (hreadab : Readable maxEventBytes bytes) (hstart : start <+: bytes) :
    Readable maxEventBytes start := by
  obtain ⟨hmark, hlimit, hlines⟩ := hreadab
  refine ⟨fun other hother => hmark other (hother.trans hstart), fun other hother => hlimit other (hother.trans hstart),
    readLines_prefix ?_ hlines⟩
  obtain ⟨rest, rfl⟩ := hstart
  rw [completeLines_append]
  exact prefix_append _ _

/-- The reader has read the bytes. -/
structure HasRead (call : σ → Call → σ) (maxEventBytes : Nat) (sink : σ) (bytes : List UInt8) (reader : Reader σ) :
    Prop where
  seen : reader.decoder.bomSeen = !(Utf8.textOf bytes).isEmpty
  unfinished : reader.decoder.unfinished = (Utf8.decodeFrom none bytes).2
  buffered : reader.buffered = lastPiece bytes
  lines : ∃ calls, readLines maxEventBytes .empty (completeLines bytes) = some (reader.pending, calls) ∧
    reader.sink = calls.foldl call sink

theorem hasRead_start : HasRead call maxEventBytes sink [] (startReader sink) :=
  ⟨rfl, rfl, rfl, [], rfl, rfl⟩

theorem mark_of_head {decoder : Decoder} {before text : JsStr} (hseen : decoder.bomSeen = !before.isEmpty)
    (hhead : (before ++ text).head? ≠ some 0xfeff) : decoder.mark text = text := by
  rw [Decoder.mark, if_neg]
  rintro ⟨hnew, hmark⟩
  rw [hseen, Bool.not_eq_false'] at hnew
  obtain rfl := List.isEmpty_iff.mp hnew
  exact hhead hmark

theorem feed_hasRead {chunk : List UInt8} {reader : Reader σ}
    (hread : HasRead call maxEventBytes sink bytes reader) (hreadab : Readable maxEventBytes (bytes ++ chunk)) :
    ∃ next, feed call maxEventBytes reader chunk = .ok next ∧
      HasRead call maxEventBytes sink (bytes ++ chunk) next := by
  obtain ⟨hseen, hunf, hbuf, calls, hlines, hsink⟩ := hread
  obtain ⟨hmark, hlimit, hall⟩ := hreadab
  have hhead := hmark _ (prefix_refl _)
  have hlast := hlimit _ (prefix_refl _)
  rw [Utf8.textOf_append] at hhead
  rw [lastPiece_append] at hlast
  rw [completeLines_append, readLines_append, hlines, bind_some, isSome_map] at hall
  obtain ⟨⟨pending, later⟩, hlater⟩ := isSome_iff_exists.mp hall
  have hdec : reader.decoder.decode chunk =
      ((Utf8.decodeFrom (Utf8.decodeFrom none bytes).2 chunk).1,
        ⟨!(Utf8.textOf (bytes ++ chunk)).isEmpty, (Utf8.decodeFrom none (bytes ++ chunk)).2⟩) := by
    rw [Decoder.decode, hunf, mark_of_head hseen hhead, hseen, Utf8.textOf_append, Utf8.decodeFrom_append]
    have hempty (left right : JsStr) : (!left.isEmpty || !right.isEmpty) = !(left ++ right).isEmpty := by
      cases left <;> rfl
    rw [hempty]
  rw [feed, hdec, hbuf]
  dsimp only
  rw [processLines_eq hlater, hsink]
  dsimp only
  rw [if_neg (Nat.not_lt.mpr hlast)]
  refine ⟨_, rfl, rfl, rfl, (lastPiece_append bytes chunk).symm, calls ++ later, ?_, ?_⟩
  · rw [completeLines_append, readLines_append, hlines, bind_some, hlater]
    rfl
  · rw [foldl_append]

theorem feedAll_hasRead {chunks : List (List UInt8)} {reader : Reader σ}
    (hread : HasRead call maxEventBytes sink bytes reader)
    (hreadab : Readable maxEventBytes (bytes ++ chunks.flatten)) :
    ∃ last, feedAll call maxEventBytes reader chunks = .ok last ∧
      HasRead call maxEventBytes sink (bytes ++ chunks.flatten) last := by
  induction chunks generalizing bytes reader with
  | nil => exact ⟨reader, rfl, by rwa [flatten_nil, append_nil]⟩
  | cons chunk rest ih =>
    rw [flatten_cons, ← append_assoc] at hreadab ⊢
    obtain ⟨next, hfeed, hnext⟩ := feed_hasRead hread (hreadab.start (prefix_append _ _))
    rw [feedAll, hfeed]
    exact ih hnext hreadab

/-- **What is called back depends on the bytes and the end of the stream alone.** -/
theorem consumeSseStream_eq (call : σ → Call → σ) (sink : σ) {stream : Stream}
    (hreadab : Readable maxEventBytes stream.chunks.flatten) :
    ∃ pending calls, readLines maxEventBytes .empty (completeLines stream.chunks.flatten) = some (pending, calls) ∧
      consumeSseStream call maxEventBytes sink stream = match stream.ending with
        | .dropped => (calls.foldl call sink, .dropped)
        | .clean =>
          let buffered := Utf8.decode ((stream.chunks.flatten.splitOn 0x0a).getLast?.getD [])
          match processLines call maxEventBytes pending (calls.foldl call sink)
            (if buffered = [] then [] else [buffered]) with
          | .error sink => (sink, .exceeded)
          | .ok (pending, sink) => ((dispatch pending).2.foldl call sink, .ended) := by
  have hstart : HasRead call maxEventBytes sink [] (startReader sink) := hasRead_start
  obtain ⟨reader, hfeed, hread⟩ := feedAll_hasRead hstart hreadab
  rw [nil_append] at hread
  obtain ⟨hseen, hunf, hbuf, calls, hlines, hsink⟩ := hread
  refine ⟨reader.pending, calls, hlines, ?_⟩
  rw [consumeSseStream, hfeed]
  dsimp only
  cases stream.ending with
  | dropped => rw [hsink]
  | clean =>
    dsimp only
    have hflush : reader.decoder.mark (Utf8.flush reader.decoder.unfinished) =
        Utf8.flush reader.decoder.unfinished := by
      rw [Decoder.mark, if_neg]
      rintro ⟨-, hmark⟩
      cases hstate : reader.decoder.unfinished with
      | none =>
        rw [hstate] at hmark
        exact nomatch hmark
      | some unfinished =>
        rw [hstate, Utf8.flush] at hmark
        exact absurd hmark (by decide)
    obtain ⟨hpiec, hstate⟩ := Utf8.splitOn_textOf stream.chunks.flatten
    have hlast : reader.buffered ++ reader.decoder.mark (Utf8.flush reader.decoder.unfinished) =
        Utf8.decode ((stream.chunks.flatten.splitOn 0x0a).getLast?.getD []) := by
      rw [hflush, hunf, hbuf, lastPiece, newline, hpiec, getLast?_concat, getD_some, hstate, Utf8.decode]
      rfl
    rw [finish, hlast, hsink]
    generalize (if Utf8.decode _ = [] then [] else _ : List JsStr) = lines
    cases hres : processLines call maxEventBytes reader.pending (calls.foldl call sink) lines with
    | error sink => rfl
    | ok result => rfl

end Chunks

end Mcp.Sse

end PiRp

import PiRp.ExecutorBridge

/-! The bounded writer of a transport. Its counter is the number of bytes of the frames it holds, and
ordinary frames never take the room that is reserved for an abort. -/

namespace PiRp.Executor

open List

variable {options : Options}

def Writer.frames (writer : Writer) : List Outbound := writer.inFlight.toList ++ writer.queued

namespace Writer

variable {writer : Writer}

theorem frames_drain (writer : Writer) : writer.drain.frames = writer.frames := by
  unfold drain
  split
  · next hflig _ hque => rw [frames, frames, hflig, hque]; rfl
  · rfl

theorem frames_send (item : Outbound) : (writer.send options item).1.frames =
    if (writer.send options item).2 = none then writer.frames ++ [item] else writer.frames := by
  by_cases hclos : writer.closed = true
  · rw [send, if_pos hclos]
    rfl
  · by_cases hfull : writer.isFull options item = true
    · rw [send, if_neg hclos, if_pos hfull]
      rfl
    · rw [send, if_neg hclos, if_neg hfull, if_pos rfl, frames_drain]
      exact (append_assoc _ _ _).symm

theorem frames_close (writer : Writer) :
    writer.frames = writer.close.1.frames ++ writer.close.2 ∨ writer.close = (writer, []) := by
  unfold close
  split_ifs
  · exact .inr rfl
  · refine .inl ?_
    rw [frames, frames, append_nil]

theorem mem_close {item : Outbound} :
    (item ∈ writer.close.1.frames → item ∈ writer.frames) ∧ (item ∈ writer.close.2 → item ∈ writer.frames) := by
  rcases writer.frames_close with heq | heq
  · rw [heq]
    exact ⟨fun hmem => mem_append_left _ hmem, fun hmem => mem_append_right _ hmem⟩
  · rw [heq]
    exact ⟨fun hmem => hmem, nofun⟩

theorem mem_sent {item : Outbound} :
    (item ∈ writer.sent.1.frames → item ∈ writer.frames) ∧ (item ∈ writer.sent.2 → item ∈ writer.frames) := by
  unfold sent
  split
  · exact ⟨fun hmem => hmem, nofun⟩
  · next first hflig =>
    rw [frames_drain]
    refine ⟨fun hmem => mem_append_right _ hmem, fun hmem => mem_append_left _ ?_⟩
    rw [hflig]
    exact hmem

theorem mem_failed {item : Outbound} : (item ∈ writer.failed.1.frames → item ∈ writer.frames) ∧
      (item ∈ writer.failed.2 → item ∈ writer.frames) := by
  unfold failed
  split
  · exact ⟨fun hmem => hmem, nofun⟩
  · next first hflig =>
    have hque : ∀ {other}, other ∈ writer.close.1.queued → other ∈ writer.close.1.frames :=
      fun hmem => mem_append_right _ hmem
    refine ⟨fun hmem => mem_close.1 (hque hmem), fun hmem => ?_⟩
    rcases mem_cons.mp hmem with rfl | hdrop
    · exact mem_append_left _ (by rw [hflig]; exact mem_singleton_self _)
    · exact mem_close.2 hdrop

/-! ### The bytes of a writer -/

theorem lengthOf_append (left right : List Outbound) : lengthOf (left ++ right) = lengthOf left + lengthOf right := by
  rw [lengthOf, map_append, sum_append]
  rfl

theorem lengthOf_cons (item : Outbound) (items : List Outbound) :
    lengthOf (item :: items) = item.length + lengthOf items := rfl

theorem lengthOf_singleton (item : Outbound) : lengthOf [item] = item.length := Int.add_zero _

theorem lengthOf_nonneg (items : List Outbound) : 0 ≤ lengthOf items := by
  induction items with
  | nil => exact Int.le_refl 0
  | cons item items ih =>
    rw [lengthOf_cons]
    omega

theorem lengthOf_filter (condition : Outbound → Bool) (items : List Outbound) :
    lengthOf (items.filter condition) ≤ lengthOf items := by
  induction items with
  | nil => exact Int.le_refl 0
  | cons item items ih =>
    rw [lengthOf_cons, filter_cons]
    split_ifs
    · rw [lengthOf_cons]
      omega
    · omega

/-- The bytes of the frames that are no aborts. -/
def ordinaryBytes (writer : Writer) : Int := lengthOf (writer.frames.filter fun item => !item.reserved)

structure Sound (options : Options) (writer : Writer) : Prop where
  counted : writer.bytes = lengthOf writer.frames
  bounded : writer.bytes ≤ options.maxQueuedOutboundBytes
  ordinary : writer.ordinaryBytes ≤ options.maxQueuedOutboundBytes - options.maxAbortControlBytes

theorem sound_new : Sound options .new where
  counted := rfl
  bounded := Int.natCast_nonneg _
  ordinary := by
    have hvalid := options.bytes_valid
    show (0 : Int) ≤ _
    omega

variable (hsound : Sound options writer)

include hsound

theorem Sound.fewer {next : Writer} (dropped : List Outbound)
    (hfram : writer.frames.Perm (next.frames ++ dropped)) (hbytes : next.bytes = writer.bytes - lengthOf dropped) :
    Sound options next := by
  have hlen : lengthOf writer.frames = lengthOf next.frames + lengthOf dropped := by
    rw [← lengthOf_append]
    exact (hfram.map _).sum_eq
  have hord : writer.ordinaryBytes = next.ordinaryBytes +
      lengthOf (dropped.filter fun item => !item.reserved) := by
    rw [ordinaryBytes, ordinaryBytes, ← lengthOf_append, ← filter_append]
    exact ((hfram.filter _).map _).sum_eq
  have hdrop := lengthOf_nonneg dropped
  have hfil := lengthOf_nonneg (dropped.filter fun item => !item.reserved)
  obtain ⟨hcoun, hboun, hroom⟩ := hsound
  exact ⟨by omega, by omega, by omega⟩

omit hsound in
theorem bytes_drain (writer : Writer) : writer.drain.bytes = writer.bytes := by
  unfold drain
  split
  · rfl
  · rfl

theorem Sound.drain : Sound options writer.drain := by
  refine hsound.fewer [] ?_ ?_
  · rw [frames_drain, append_nil]
  · rw [bytes_drain]
    exact (Int.sub_zero _).symm

theorem Sound.send (item : Outbound) : Sound options (writer.send options item).1 := by
  unfold Writer.send
  split_ifs with hclos hfull
  · exact hsound
  · exact hsound
  · apply Sound.drain
    have hfram : ∀ condition : Outbound → Bool,
        lengthOf ((writer.frames ++ [item]).filter condition) =
          lengthOf (writer.frames.filter condition) + lengthOf ([item].filter condition) := by
      intro condition
      rw [filter_append, lengthOf_append]
    have hord := hfram fun item => !item.reserved
    have hall : lengthOf (writer.frames ++ [item]) = lengthOf writer.frames + item.length := by
      rw [lengthOf_append, lengthOf_singleton]
    have hless := lengthOf_filter (fun item => !item.reserved) writer.frames
    obtain ⟨hcoun, hboun, hroom⟩ := hsound
    rw [ordinaryBytes] at hroom
    rw [isFull, Bool.or_eq_true, not_or, decide_eq_true_eq, decide_eq_true_eq] at hfull
    have hnew : ({ writer with bytes := writer.bytes + item.length, queued := writer.queued ++ [item] } :
        Writer).frames = writer.frames ++ [item] := (append_assoc _ _ _).symm
    refine ⟨?_, ?_, ?_⟩
    · rw [hnew, hall, ← hcoun]
    · show writer.bytes + item.length ≤ _
      have hvalid := options.bytes_valid
      by_cases hresd : item.reserved = true
      · rw [if_pos hresd, if_pos hresd] at hfull
        omega
      · rw [if_neg hresd, if_neg hresd] at hfull
        omega
    · rw [ordinaryBytes, hnew, hord]
      by_cases hresd : item.reserved = true
      · rw [filter_cons_of_neg (by simpa using hresd)]
        show _ + 0 ≤ _
        omega
      · rw [if_neg hresd, if_neg hresd] at hfull
        rw [filter_cons_of_pos (by simpa using hresd), filter_nil, lengthOf_singleton]
        omega

theorem Sound.close : Sound options writer.close.1 := by
  unfold Writer.close
  split_ifs
  · exact hsound
  · refine hsound.fewer writer.queued ?_ rfl
    rw [frames, frames, append_nil]

theorem Sound.sent : Sound options writer.sent.1 := by
  unfold Writer.sent
  split
  · exact hsound
  · next item hflig =>
    apply Sound.drain
    refine hsound.fewer [item] ?_ ?_
    · rw [frames, frames, hflig]
      exact perm_append_comm
    · rw [lengthOf_singleton]

theorem Sound.failed : Sound options writer.failed.1 := by
  unfold Writer.failed
  split
  · exact hsound
  · next item hflig =>
    have hclos := hsound.close
    have hsame : writer.close.1.inFlight = some item := by
      unfold Writer.close
      split_ifs
      · exact hflig
      · exact hflig
    refine hclos.fewer [item] ?_ ?_
    · rw [frames, frames, hsame]
      exact perm_append_comm
    · rw [lengthOf_singleton]

end Writer

end PiRp.Executor

import Mathlib.Data.List.Basic
import Mathlib.Tactic

/-! Replacing ranges of a list. Ranges that are disjoint can be replaced one by one from the last to the first,
which is what replacing them at once means. -/

namespace PiRp.Splicing

open List

variable {α : Type*}

/-- A range of a list and what replaces it. -/
@[ext] structure Range (α : Type*) where
  start : Nat
  length : Nat
  text : List α

namespace Range

def finish (range : Range α) : Nat := range.start + range.length

def covers (range : Range α) (position : Nat) : Bool := range.start ≤ position && position < range.finish

/-- One range lies before the other. -/
def Before (first second : Range α) : Prop := first.finish ≤ second.start

instance (first second : Range α) : Decidable (Before first second) :=
  inferInstanceAs (Decidable (first.finish ≤ second.start))

/-- The ranges have no position in common. -/
def Apart (first second : Range α) : Prop := Before first second ∨ Before second first

instance : Trans (Before (α := α)) (Before (α := α)) (Before (α := α)) where
  trans hfirst hsnd := Nat.le_trans hfirst (Nat.le_trans (Nat.le_add_right _ _) hsnd)

theorem Apart.symm {first second : Range α} (hapart : Apart first second) : Apart second first := Or.symm hapart

/-- Replaces a range. -/
def splice (range : Range α) (content : List α) : List α :=
  content.take range.start ++ range.text ++ content.drop range.finish

end Range

open Range

/-- What stands for a position when every range is replaced: the new text where a range starts, and the item
unless a range covers it. -/
def emitted (ranges : List (Range α)) (content : List α) (position : Nat) : List α :=
  ((ranges.find? fun range => range.start = position).elim [] Range.text) ++
    if ranges.any (·.covers position) then [] else content[position]?.toList

/-- Every range replaced at once. -/
def replaceAtOnce (ranges : List (Range α)) (content : List α) : List α :=
  (List.range content.length).flatMap (emitted ranges content)

section Emitted

variable {ranges : List (Range α)} {content : List α} {position : Nat}

theorem emitted_before (hbef : ∀ range ∈ ranges, position < range.start) :
    emitted ranges content position = content[position]?.toList := by
  have hstart : ranges.find? (fun range => range.start = position) = none :=
    find?_eq_none.mpr fun range hrange => by simpa using (hbef range hrange).ne'
  have hcov : ranges.any (·.covers position) = false := by
    rw [← Bool.not_eq_true, any_eq_true]
    rintro ⟨range, hrange, hcov⟩
    rw [covers, Bool.and_eq_true, decide_eq_true_eq] at hcov
    exact absurd hcov.1 (Nat.not_le.mpr (hbef range hrange))
  rw [emitted, hstart, hcov]
  rfl

theorem emitted_cons_of_finish_le {range : Range α} (hpos : 0 < range.length) (hfin : range.finish ≤ position) :
    emitted (range :: ranges) content position = emitted ranges content position := by
  have hstart : ¬ range.start = position := by
    rw [finish] at hfin
    omega
  have hcov : range.covers position = false := by
    rw [covers, decide_eq_false (Nat.not_lt.mpr hfin), Bool.and_false]
  rw [emitted, emitted, find?_cons_of_neg (by simpa using hstart), any_cons, hcov, Bool.false_or]

end Emitted

section Positions

variable {content : List α}

/-- The positions from one up to another. -/
def positions (start stop : Nat) : List Nat := List.range' start (stop - start)

theorem mem_positions {start stop position : Nat} :
    position ∈ positions start stop ↔ start ≤ position ∧ position < stop := by
  rw [positions, mem_range'_1]
  omega

theorem positions_append {start middle stop : Nat} (hstart : start ≤ middle) (hstop : middle ≤ stop) :
    positions start stop = positions start middle ++ positions middle stop := by
  obtain ⟨before, rfl⟩ := Nat.exists_eq_add_of_le hstart
  obtain ⟨after, rfl⟩ := Nat.exists_eq_add_of_le hstop
  rw [positions, positions, positions, Nat.add_sub_cancel_left, Nat.add_sub_cancel_left, range'_append_1,
    Nat.add_assoc, Nat.add_sub_cancel_left]

theorem flatMap_positions {start stop : Nat} (hstop : stop ≤ content.length) :
    (positions start stop).flatMap (fun position => content[position]?.toList) = (content.take stop).drop start := by
  by_cases hle : start ≤ stop
  · obtain ⟨count, rfl⟩ := Nat.exists_eq_add_of_le hle
    induction count with
    | zero => simp [positions]
    | succ count ih =>
      have hitem : start + count < content.length := by omega
      rw [positions_append (Nat.le_add_right start count) (by omega), flatMap_append, ih (by omega) (by omega),
        ← Nat.add_assoc, take_add_one, drop_append_of_le_length (by rw [length_take]; omega)]
      simp [positions]
  · rw [positions, Nat.sub_eq_zero_of_le (Nat.le_of_not_le hle), range'_zero, flatMap_nil,
      drop_eq_nil_of_le (by rw [length_take]; omega)]

end Positions

theorem foldr_splice {ranges : List (Range α)} {content : List α} (hord : ranges.Pairwise Before)
    (hpos : ∀ range ∈ ranges, 0 < range.length) (hins : ∀ range ∈ ranges, range.finish ≤ content.length)
    {start : Nat} (hstart : ∀ range ∈ ranges, start ≤ range.start) (hle : start ≤ content.length) :
    ranges.foldr splice content =
      content.take start ++ (positions start content.length).flatMap (emitted ranges content) := by
  induction ranges generalizing start with
  | nil =>
    have hkept : ∀ position ∈ positions start content.length,
        emitted [] content position = content[position]?.toList :=
      fun position _ => emitted_before fun _ hrange => absurd hrange not_mem_nil
    rw [foldr_nil, flatMap_congr hkept, flatMap_positions le_rfl, take_length, take_append_drop]
  | cons range rest ih =>
    obtain ⟨hfirst, hrest⟩ := pairwise_cons.mp hord
    have hrange := hins range mem_cons_self
    have hlen := hpos range mem_cons_self
    have hfrom := hstart range mem_cons_self
    have hends : range.finish = range.start + range.length := rfl
    rw [foldr_cons, ih hrest (fun other hother => hpos other (mem_cons_of_mem _ hother))
      (fun other hother => hins other (mem_cons_of_mem _ hother)) (fun other hother => hfirst other hother)
      hrange, splice]
    have hcut : (content.take range.finish).length = range.finish := by
      rw [length_take, Nat.min_eq_left hrange]
    rw [take_append_of_le_length (by omega), take_take, Nat.min_eq_left (by omega),
      drop_left' hcut]
    -- Before the range every item is kept, in it only its text is written.
    have hbef : (positions start range.start).flatMap (emitted (range :: rest) content) =
        (content.take range.start).drop start := by
      rw [← flatMap_positions (by omega)]
      refine flatMap_congr fun position hposit => emitted_before fun other hother => ?_
      have hlt := (mem_positions.mp hposit).2
      rcases mem_cons.mp hother with rfl | hother
      · exact hlt
      · have hlater : range.finish ≤ other.start := hfirst other hother
        omega
    have hwit : (positions range.start range.finish).flatMap (emitted (range :: rest) content) = range.text := by
      have hcover : ∀ position ∈ positions (range.start + 1) range.finish,
          emitted (range :: rest) content position = [] := by
        intro position hposit
        obtain ⟨hge, hlt⟩ := mem_positions.mp hposit
        have hnone : (range :: rest).find? (fun other => other.start = position) = none := by
          refine find?_eq_none.mpr fun other hother => ?_
          rcases mem_cons.mp hother with rfl | hother
          · simpa using (show ¬ other.start = position by omega)
          · have hlater : range.finish ≤ other.start := hfirst other hother
            simpa using (show ¬ other.start = position by omega)
        have hcov : range.covers position = true := by
          rw [covers, decide_eq_true (show range.start ≤ position by omega), decide_eq_true hlt]
          rfl
        rw [emitted, hnone, any_cons, hcov]
        rfl
      have hcov : range.covers range.start = true := by
        rw [covers, decide_eq_true le_rfl, decide_eq_true (show range.start < range.finish by omega)]
        rfl
      rw [positions_append (Nat.le_succ range.start) (show range.start + 1 ≤ range.finish by omega),
        flatMap_append, flatMap_eq_nil_iff.mpr hcover, append_nil]
      simp [positions, emitted, hcov]
    have hafter : (positions range.finish content.length).flatMap (emitted (range :: rest) content) =
        (positions range.finish content.length).flatMap (emitted rest content) :=
      flatMap_congr fun position hposit =>
        emitted_cons_of_finish_le hlen (mem_positions.mp hposit).1
    rw [positions_append hfrom (show range.start ≤ content.length by omega),
      positions_append (show range.start ≤ range.finish by omega) hrange, flatMap_append, flatMap_append,
      hbef, hwit, hafter, ← append_assoc, ← append_assoc]
    congr 2
    calc content.take range.start
      _ = (content.take range.start).take start ++ (content.take range.start).drop start :=
          (take_append_drop _ _).symm
      _ = content.take start ++ (content.take range.start).drop start := by
          rw [take_take, Nat.min_eq_left hfrom]

/-! ### Order -/

section Order

variable {ranges others : List (Range α)}

theorem Apart.start_ne {first second : Range α} (hfirst : 0 < first.length) (hsnd : 0 < second.length)
    (hapart : Apart first second) : first.start ≠ second.start := by
  intro heq
  rcases hapart with hbef | hbef
  · rw [Before, finish] at hbef
    omega
  · rw [Before, finish] at hbef
    omega

theorem find?_start (hpos : ∀ range ∈ ranges, 0 < range.length) (hapart : ranges.Pairwise Apart) (position : Nat)
    (range : Range α) : ranges.find? (fun range => range.start = position) = some range ↔
      range ∈ ranges ∧ range.start = position := by
  induction ranges with
  | nil => simp
  | cons first rest ih =>
    obtain ⟨hfirst, hrest⟩ := pairwise_cons.mp hapart
    have hrest := ih (fun other hother => hpos other (mem_cons_of_mem _ hother)) hrest
    rw [find?_cons, mem_cons]
    by_cases hstart : first.start = position
    · rw [decide_eq_true hstart, Option.some.injEq]
      constructor
      · rintro rfl
        exact ⟨.inl rfl, hstart⟩
      · rintro ⟨rfl | hother, hother'⟩
        · rfl
        · have hne := Apart.start_ne (hpos first mem_cons_self) (hpos range (mem_cons_of_mem _ hother))
            (hfirst range hother)
          exact absurd (hstart.trans hother'.symm) hne
    · rw [decide_eq_false hstart, hrest]
      refine and_congr_left fun hother => (or_iff_right ?_).symm
      rintro rfl
      exact hstart hother

theorem emitted_perm (hperm : ranges.Perm others) (hpos : ∀ range ∈ ranges, 0 < range.length)
    (hapart : ranges.Pairwise Apart) (content : List α) (position : Nat) :
    emitted ranges content position = emitted others content position := by
  have hpos' : ∀ range ∈ others, 0 < range.length := fun range hrange => hpos range (hperm.mem_iff.mpr hrange)
  have hapart' : others.Pairwise Apart := (hperm.pairwise_iff Apart.symm).mp hapart
  have hstart : ranges.find? (fun range => range.start = position) =
      others.find? fun range => range.start = position := by
    ext range
    rw [find?_start hpos hapart, find?_start hpos' hapart', hperm.mem_iff]
  rw [emitted, emitted, hstart, hperm.any_eq]

theorem replaceAtOnce_perm (hperm : ranges.Perm others) (hpos : ∀ range ∈ ranges, 0 < range.length)
    (hapart : ranges.Pairwise Apart) (content : List α) :
    replaceAtOnce ranges content = replaceAtOnce others content :=
  flatMap_congr fun position _ => emitted_perm hperm hpos hapart content position

theorem pairwise_before_iff (hpos : ∀ range ∈ ranges, 0 < range.length)
    (hsor : ranges.Pairwise fun first second => first.start ≤ second.start) :
    ranges.Pairwise Before ↔ ranges.Pairwise Apart := by
  refine ⟨fun hbef => hbef.imp .inl, fun hapart => ?_⟩
  refine List.Pairwise.imp_of_mem (fun {first second} _ hmem hboth => ?_) (hsor.and hapart)
  rcases hboth.2 with hbef | hbef
  · exact hbef
  · have hlen := hpos second hmem
    have hle := hboth.1
    rw [Before, finish] at hbef
    omega

end Order

end PiRp.Splicing

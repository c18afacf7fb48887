import Mathlib.Data.List.Basic
import Mathlib.Tactic

/-! Reading a result page by page. A page holds the first items behind a cursor, and the next page is asked
for with the key of the last item as the cursor, until a page is empty. When every item is behind the ones
before it and behind none of the others, the pages joined are the result. -/

namespace PiRp.Pagination

open List

variable {α κ ε : Type*}

/-- The pages joined, none when no page was empty within the rounds. A page that fails ends the reading. -/
def pages (find : Option κ → Except ε (List α)) (key : α → κ) :
    Nat → Option κ → Option (Except ε (List α))
  | 0, _ => none
  | rounds + 1, cursor =>
    match find cursor with
    | .error error => some (.error error)
    | .ok page =>
      match page.getLast? with
      | none => some (.ok page)
      | some last => (pages find key rounds (some (key last))).map fun rest => rest.map (page ++ ·)

/-- Every item is behind those before it, and none is behind itself or one after it. -/
def Follows (behind : κ → α → Bool) (key : α → κ) (result : List α) : Prop :=
  (∀ item ∈ result, behind (key item) item = false) ∧
    result.Pairwise fun before later => behind (key before) later = true ∧ behind (key later) before = false

variable {behind : κ → α → Bool} {key : α → κ}

theorem Follows.sublist {result part : List α} (hfol : Follows behind key result) (hpart : part.Sublist result) :
    Follows behind key part :=
  ⟨fun item hitem => hfol.1 item (hpart.subset hitem), hfol.2.sublist hpart⟩

theorem Follows.filter_behind {start rest : List α} {last : α} (hfol : Follows behind key (start ++ rest))
    (hlast : start.getLast? = some last) : (start ++ rest).filter (behind (key last)) = rest := by
  obtain ⟨front, rfl⟩ := getLast?_eq_some_iff.mp hlast
  obtain ⟨hself, hpair⟩ := hfol
  rw [append_assoc, singleton_append, pairwise_append, pairwise_cons] at hpair
  obtain ⟨-, ⟨hrest, -⟩, hfront⟩ := hpair
  have hnone : front.filter (behind (key last)) = [] := by
    rw [filter_eq_nil_iff]
    intro item hitem
    rw [(hfront item hitem last mem_cons_self).2]
    decide
  have hall : rest.filter (behind (key last)) = rest :=
    filter_eq_self.mpr fun item hitem => (hrest item hitem).1
  have hlast : behind (key last) last = false := hself last (by simp)
  rw [filter_append, filter_append, hnone, hall, filter_singleton, hlast]
  rfl

theorem pages_eq {result : List α} (hfol : Follows behind key result) {size : Nat} (hsize : 0 < size)
    {find : Option κ → Except ε (List α)}
    (hfind : ∀ cursor, (∀ value, cursor = some value → ∃ item ∈ result, key item = value) →
      find cursor = .ok ((result.filter fun item => cursor.all fun value => behind value item).take size)) :
    pages find key (result.length + 1) none = some (.ok result) := by
  -- The pages read from a cursor give what is left of the result behind the items read so far.
  have hrest : ∀ rounds start rest cursor, result = start ++ rest → rest.length < rounds →
      cursor = start.getLast?.map key → pages find key rounds cursor = some (.ok rest) := by
    intro rounds
    induction rounds with
    | zero =>
      intro start rest cursor _ hlt
      omega
    | succ rounds ih =>
      intro start rest cursor hres hlt hcur
      have hfil : (result.filter fun item => cursor.all fun value => behind value item) = rest := by
        cases hlast : start.getLast? with
        | none =>
          rw [getLast?_eq_none_iff] at hlast
          rw [hcur, hres, hlast]
          simp
        | some last =>
          rw [hres] at hfol ⊢
          rw [hcur, hlast]
          exact hfol.filter_behind hlast
      have hpage : find cursor = .ok (rest.take size) := by
        rw [hfind cursor, hfil]
        intro value hvalue
        rw [hcur, Option.map_eq_some_iff] at hvalue
        obtain ⟨last, hlast, rfl⟩ := hvalue
        refine ⟨last, ?_, rfl⟩
        rw [hres]
        exact mem_append_left _ (mem_of_getLast? hlast)
      rw [pages, hpage]
      dsimp only
      cases hlast : (rest.take size).getLast? with
      | none =>
        have hempty : rest.take size = [] := getLast?_eq_none_iff.mp hlast
        rw [take_eq_nil_iff] at hempty
        rw [hempty.resolve_left hsize.ne']
        simp
      | some last =>
        have hne : rest ≠ [] := by
          rintro rfl
          simp at hlast
        have hpos := length_pos_iff.mpr hne
        have hnext := ih (start ++ rest.take size) (rest.drop size) (some (key last))
          (by rw [hres, append_assoc, take_append_drop])
          (by rw [length_drop]; omega)
          (by rw [getLast?_append, hlast]; rfl)
        dsimp only
        rw [hnext]
        exact congrArg (fun list => some (Except.ok list)) (take_append_drop size rest)
  exact hrest _ [] result none rfl (Nat.lt_succ_self _) rfl

end PiRp.Pagination

import Mathlib.Data.List.Basic
import Mathlib.Data.List.Nodup
import Mathlib.Data.List.Perm.Subperm
import Mathlib.Tactic

/-! Depth-first traversal with a stack. An item is visited once for its key; visiting it yields a record
and further items, or fails. `Traverses` is the traversal without a bound on the number of visits,
`traverse` the function with one. A traversal reads its items only at keys that it reaches. -/

namespace PiRp.Worklist

open List

variable {ι κ β : Type*}

section Relation

variable (key : ι → κ) (visit : ι → Option (β × List ι))

/-- The traversal that starts with the stack and the visited records and ends with the result. -/
inductive Traverses : List ι → List (κ × β) → List (κ × β) → Prop
  | done (visited : List (κ × β)) : Traverses [] visited visited
  | skip {item : ι} {rest : List ι} {visited result : List (κ × β)}
      (hvis : key item ∈ visited.map Prod.fst) (hrest : Traverses rest visited result) :
      Traverses (item :: rest) visited result
  | visit {item : ι} {rest refs : List ι} {visited result : List (κ × β)} {record : β}
      (hnew : key item ∉ visited.map Prod.fst) (hvisit : visit item = some (record, refs))
      (hrest : Traverses (refs.reverse ++ rest) (visited ++ [(key item, record)]) result) :
      Traverses (item :: rest) visited result

end Relation

variable {key : ι → κ} {visit : ι → Option (β × List ι)}

theorem Traverses.extends {stack : List ι} {visited result : List (κ × β)}
    (htrav : Traverses key visit stack visited result) : ∃ added, result = visited ++ added := by
  induction htrav with
  | done visited => exact ⟨[], (append_nil visited).symm⟩
  | skip hvis hrest ih => exact ih
  | visit hnew hvisit hrest ih =>
    obtain ⟨added, rfl⟩ := ih
    exact ⟨_, append_assoc ..⟩

theorem Traverses.mem_of_visited {stack : List ι} {visited result : List (κ × β)}
    (htrav : Traverses key visit stack visited result) {found : κ}
    (hfound : found ∈ visited.map Prod.fst) : found ∈ result.map Prod.fst := by
  obtain ⟨added, rfl⟩ := htrav.extends
  rw [map_append]
  exact mem_append_left _ hfound

theorem Traverses.mem_of_stack {stack : List ι} {visited result : List (κ × β)}
    (htrav : Traverses key visit stack visited result) {item : ι} (hitem : item ∈ stack) :
    key item ∈ result.map Prod.fst := by
  induction htrav with
  | done visited => exact absurd hitem not_mem_nil
  | skip hvis hrest ih =>
    rcases mem_cons.mp hitem with rfl | hitem
    · exact hrest.mem_of_visited hvis
    · exact ih hitem
  | visit hnew hvisit hrest ih =>
    rcases mem_cons.mp hitem with rfl | hitem
    · exact hrest.mem_of_visited (by simp)
    · exact ih (mem_append_right _ hitem)

theorem Traverses.nodup {stack : List ι} {visited result : List (κ × β)}
    (htrav : Traverses key visit stack visited result)
    (hnodup : (visited.map Prod.fst).Nodup) : (result.map Prod.fst).Nodup := by
  induction htrav with
  | done visited => exact hnodup
  | skip hvis hrest ih => exact ih hnodup
  | visit hnew hvisit hrest ih =>
    apply ih
    rw [map_append, map_singleton]
    exact hnodup.append (nodup_singleton _)
      (disjoint_singleton.mpr hnew)

/-- **Where the records come from.** A record of the result that was not there before is the one of a
visited item, and what that item refers to is visited as well. -/
theorem Traverses.record {stack : List ι} {visited result : List (κ × β)}
    (htrav : Traverses key visit stack visited result) {entry : κ × β} (hentry : entry ∈ result) :
    entry ∈ visited ∨ ∃ item refs, key item = entry.1 ∧ visit item = some (entry.2, refs) ∧
      ∀ ref ∈ refs, key ref ∈ result.map Prod.fst := by
  induction htrav with
  | done visited => exact .inl hentry
  | skip hvis hrest ih => exact ih hentry
  | visit hnew hvisit hrest ih =>
    rcases ih hentry with hold | hfound
    · rcases mem_append.mp hold with hold | hold
      · exact .inl hold
      · obtain rfl := mem_singleton.mp hold
        refine .inr ⟨_, _, rfl, hvisit, fun ref href => hrest.mem_of_stack ?_⟩
        exact mem_append_left _ (mem_reverse.mpr href)
    · exact .inr hfound

/-- Only reached items are read: the traversal is the same for a visit that agrees on a set of keys
which holds the stack and is closed under references. -/
theorem Traverses.congr {other : ι → Option (β × List ι)} {inside : κ → Prop}
    (hagree : ∀ item, inside (key item) → other item = visit item)
    (hclos : ∀ item record refs, inside (key item) → visit item = some (record, refs) →
      ∀ ref ∈ refs, inside (key ref)) {stack : List ι} {visited result : List (κ × β)}
    (htrav : Traverses key visit stack visited result)
    (hstack : ∀ item ∈ stack, inside (key item)) : Traverses key other stack visited result := by
  induction htrav with
  | done visited => exact .done visited
  | skip hvis hrest ih =>
    exact .skip hvis (ih fun item hitem => hstack item (mem_cons_of_mem _ hitem))
  | visit hnew hvisit hrest ih =>
    have hins := hstack _ mem_cons_self
    refine .visit hnew ((hagree _ hins).trans hvisit) (ih fun item hitem => ?_)
    rcases mem_append.mp hitem with href | hitem
    · exact hclos _ _ _ hins hvisit item (mem_reverse.mp href)
    · exact hstack item (mem_cons_of_mem _ hitem)

theorem Traverses.inside {inside : κ → Prop}
    (hclos : ∀ item record refs, inside (key item) → visit item = some (record, refs) →
      ∀ ref ∈ refs, inside (key ref)) {stack : List ι} {visited result : List (κ × β)}
    (htrav : Traverses key visit stack visited result) (hstack : ∀ item ∈ stack, inside (key item))
    (hvis : ∀ entry ∈ visited, inside entry.1) : ∀ entry ∈ result, inside entry.1 := by
  induction htrav with
  | done visited => exact hvis
  | skip _ hrest ih => exact ih (fun item hitem => hstack item (mem_cons_of_mem _ hitem)) hvis
  | visit hnew hvisit hrest ih =>
    have hins := hstack _ mem_cons_self
    refine ih (fun item hitem => ?_) fun entry hentry => ?_
    · rcases mem_append.mp hitem with href | hitem
      · exact hclos _ _ _ hins hvisit item (mem_reverse.mp href)
      · exact hstack item (mem_cons_of_mem _ hitem)
    · rcases mem_append.mp hentry with hold | hentry
      · exact hvis entry hold
      · obtain rfl := mem_singleton.mp hentry
        exact hins

theorem Traverses.skips {visited result : List (κ × β)} (front : List ι) {stack : List ι}
    (hfront : ∀ item ∈ front, key item ∈ visited.map Prod.fst) (htrav : Traverses key visit stack visited result) :
    Traverses key visit (front ++ stack) visited result := by
  induction front with
  | nil => exact htrav
  | cons item front ih =>
    exact .skip (hfront item mem_cons_self)
      (ih fun other hother => hfront other (mem_cons_of_mem _ hother))

theorem Traverses.length_le {keys : List κ}
    (hkeys : ∀ item found, visit item = some found → key item ∈ keys) {stack : List ι}
    {result : List (κ × β)} (htrav : Traverses key visit stack [] result) : result.length ≤ keys.length := by
  have hnodup := htrav.nodup nodup_nil
  have hsub : result.map Prod.fst ⊆ keys := by
    intro found hfound
    obtain ⟨entry, hentry, rfl⟩ := mem_map.mp hfound
    rcases htrav.record hentry with hold | ⟨item, refs, hkey, hvisit, _⟩
    · exact absurd hold not_mem_nil
    · exact hkey ▸ hkeys item _ hvisit
  have hlen := (hnodup.subperm hsub).length_le
  rwa [length_map] at hlen

section Function

variable [DecidableEq κ]

variable (key) in
/-- Pops the visited items off the stack, up to the first new one. -/
def nextItem (visited : List (κ × β)) : List ι → Option (ι × List ι)
  | [] => none
  | item :: rest =>
    if key item ∈ visited.map Prod.fst then nextItem visited rest else some (item, rest)

variable (key visit) in
/-- The traversal with at most `budget` visits; `none` when an item fails or the budget is used up. -/
def traverse (stack : List ι) (visited : List (κ × β)) : Nat → Option (List (κ × β))
  | 0 =>
    match nextItem key visited stack with
    | none => some visited
    | some _ => none
  | budget + 1 =>
    match nextItem key visited stack with
    | none => some visited
    | some (item, rest) =>
      (visit item).bind fun found =>
        traverse (found.2.reverse ++ rest) (visited ++ [(key item, found.1)]) budget

theorem nextItem_none {visited : List (κ × β)} {stack : List ι}
    (hnext : nextItem key visited stack = none) : ∀ item ∈ stack, key item ∈ visited.map Prod.fst := by
  induction stack with
  | nil => exact fun item hitem => absurd hitem not_mem_nil
  | cons first rest ih =>
    rw [nextItem] at hnext
    split_ifs at hnext with hfirst
    intro item hitem
    rcases mem_cons.mp hitem with rfl | hitem
    · exact hfirst
    · exact ih hnext item hitem

theorem nextItem_some {visited : List (κ × β)} {stack rest : List ι} {item : ι}
    (hnext : nextItem key visited stack = some (item, rest)) : key item ∉ visited.map Prod.fst ∧
      ∃ front, stack = front ++ item :: rest ∧ ∀ other ∈ front, key other ∈ visited.map Prod.fst := by
  induction stack with
  | nil => exact nomatch hnext
  | cons first others ih =>
    rw [nextItem] at hnext
    split_ifs at hnext with hfirst
    · obtain ⟨hnew, front, rfl, hfront⟩ := ih hnext
      refine ⟨hnew, first :: front, rfl, fun other hother => ?_⟩
      rcases mem_cons.mp hother with rfl | hother
      · exact hfirst
      · exact hfront other hother
    · cases hnext
      exact ⟨hfirst, [], rfl, fun other hother => absurd hother not_mem_nil⟩

theorem nextItem_skip {visited : List (κ × β)} {item : ι} (rest : List ι) (hvis : key item ∈ visited.map Prod.fst) :
    nextItem key visited (item :: rest) = nextItem key visited rest := by
  rw [nextItem, if_pos hvis]

theorem traverse_skip {visited : List (κ × β)} {item : ι} (rest : List ι) (budget : Nat)
    (hvis : key item ∈ visited.map Prod.fst) :
    traverse key visit (item :: rest) visited budget = traverse key visit rest visited budget := by
  cases budget with
  | zero => rw [traverse, traverse, nextItem_skip rest hvis]
  | succ budget => rw [traverse, traverse, nextItem_skip rest hvis]

theorem traverses_of_traverse {budget : Nat} {stack : List ι} {visited result : List (κ × β)}
    (htraver : traverse key visit stack visited budget = some result) : Traverses key visit stack visited result := by
  have hdone : ∀ {stack : List ι} {visited : List (κ × β)}, nextItem key visited stack = none →
      Traverses key visit stack visited visited := by
    intro stack visited hnext
    rw [← append_nil stack]
    exact Traverses.skips stack (nextItem_none hnext) (.done visited)
  induction budget generalizing stack visited with
  | zero =>
    rw [traverse] at htraver
    cases hnext : nextItem key visited stack with
    | none =>
      rw [hnext] at htraver
      obtain rfl := Option.some.inj htraver
      exact hdone hnext
    | some found =>
      rw [hnext] at htraver
      exact nomatch htraver
  | succ budget ih =>
    rw [traverse] at htraver
    cases hnext : nextItem key visited stack with
    | none =>
      rw [hnext] at htraver
      obtain rfl := Option.some.inj htraver
      exact hdone hnext
    | some found =>
      obtain ⟨item, rest⟩ := found
      rw [hnext] at htraver
      obtain ⟨⟨record, refs⟩, hvisit, hrest⟩ := Option.bind_eq_some_iff.mp htraver
      obtain ⟨hnew, front, rfl, hfront⟩ := nextItem_some hnext
      exact Traverses.skips front hfront (.visit hnew hvisit (ih hrest))

theorem Traverses.traverse {stack : List ι} {visited result : List (κ × β)}
    (htrav : Traverses key visit stack visited result) {budget : Nat}
    (hbud : result.length ≤ visited.length + budget) :
    Worklist.traverse key visit stack visited budget = some result := by
  induction htrav generalizing budget with
  | done visited =>
    cases budget with
    | zero => rfl
    | succ budget => rfl
  | skip hvis hrest ih => rw [traverse_skip _ _ hvis, ih hbud]
  | visit hnew hvisit hrest ih =>
    obtain ⟨added, rfl⟩ := hrest.extends
    simp only [length_append, length_singleton] at hbud ih
    cases budget with
    | zero => omega
    | succ budget =>
      rw [Worklist.traverse, nextItem, if_neg hnew]
      simp only [hvisit, Option.bind_some]
      exact ih (by omega)

/-- **The function is the traversal** when its budget covers the keys at which visits succeed. -/
theorem traverse_eq_some_iff {keys : List κ}
    (hkeys : ∀ item found, visit item = some found → key item ∈ keys) {budget : Nat}
    (hbud : keys.length ≤ budget) {stack : List ι} {result : List (κ × β)} :
    traverse key visit stack [] budget = some result ↔ Traverses key visit stack [] result := by
  refine ⟨traverses_of_traverse, fun htrav => htrav.traverse ?_⟩
  rw [length_nil, Nat.zero_add]
  exact (htrav.length_le hkeys).trans hbud

end Function

end PiRp.Worklist

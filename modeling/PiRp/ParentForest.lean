import Mathlib.Data.List.Nodup
import Mathlib.Tactic

/-! Forests given by parent links. `link item` is `none` for an item that is absent, `some none` for a
root and `some (some parent)` for a child. A forest has no dangling link and no cycle: from every
present item the links lead to a root. Three changes keep a forest: a new item below a present one, a
new parent from outside the subtree, the removal of a set that is closed under children. In a forest
the walk down from an item ends. -/

namespace PiRp.ParentForest

variable {α : Type*}

/-- The links from the item up end at a root. -/
inductive Rooted (link : α → Option (Option α)) : α → Prop
  | root {item : α} (hroot : link item = some none) : Rooted link item
  | child {item parent : α} (hpar : link item = some (some parent)) (hrooted : Rooted link parent) :
      Rooted link item

def Forest (link : α → Option (Option α)) : Prop :=
  ∀ item, link item ≠ none → Rooted link item

/-- The item is the top or below it. -/
inductive Inside (link : α → Option (Option α)) (top : α) : α → Prop
  | self : Inside link top top
  | under {item parent : α} (hpar : link item = some (some parent))
      (hins : Inside link top parent) : Inside link top item

variable {link other : α → Option (Option α)} {top item parent : α}

theorem Rooted.present (hrooted : Rooted link item) : link item ≠ none := by
  cases hrooted with
  | root hroot => simp [hroot]
  | child hpar _ => simp [hpar]

theorem Forest.parent_present (hfor : Forest link) (hpar : link item = some (some parent)) : link parent ≠ none := by
  cases hfor item (by simp [hpar]) with
  | root hroot => simp [hpar] at hroot
  | child hother hrooted =>
    rw [hpar] at hother
    obtain rfl := Option.some.inj (Option.some.inj hother)
    exact hrooted.present

theorem Rooted.extend (hagree : ∀ item, link item ≠ none → other item = link item)
    (hrooted : Rooted link item) : Rooted other item := by
  induction hrooted with
  | root hroot => exact .root ((hagree _ (by simp [hroot])).trans hroot)
  | child hpar _ ih => exact .child ((hagree _ (by simp [hpar])).trans hpar) ih

theorem Inside.trans {middle : α} (hmid : Inside link top middle) (hitem : Inside link middle item) :
    Inside link top item := by
  induction hitem with
  | self => exact hmid
  | under hpar _ ih => exact .under hpar ih

theorem Inside.eq_or_child (hins : Inside link top item) :
    item = top ∨ ∃ child, link child = some (some top) ∧ Inside link child item := by
  induction hins with
  | self => exact .inl rfl
  | @under item parent hpar _ ih =>
    rcases ih with rfl | ⟨child, hchild, hbelow⟩
    · exact .inr ⟨item, hpar, .self⟩
    · exact .inr ⟨child, hchild, .under hpar hbelow⟩

theorem inside_iff : Inside link top item ↔
    item = top ∨ ∃ parent, link item = some (some parent) ∧ Inside link top parent := by
  constructor
  · intro hins
    cases hins with
    | self => exact .inl rfl
    | under hpar hins => exact .inr ⟨_, hpar, hins⟩
  · rintro (rfl | ⟨parent, hpar, hins⟩)
    · exact .self
    · exact .under hpar hins

theorem Inside.total {left right : α} (hleft : Inside link left item) (hright : Inside link right item) :
    Inside link left right ∨ Inside link right left := by
  induction hleft with
  | self => exact .inr hright
  | @under item parent hpar _ ih =>
    cases hright with
    | self => exact .inl (.under hpar ‹_›)
    | under hother hins =>
      rw [hpar] at hother
      obtain rfl := Option.some.inj (Option.some.inj hother)
      exact ih hins

theorem Rooted.not_inside_child (hrooted : Rooted link top) {child : α}
    (hchild : link child = some (some top)) : ¬ Inside link child top := by
  -- Induction on the way from the top to its root: a cycle through the top is one through its parent.
  induction hrooted generalizing child with
  | root hroot =>
    intro hins
    cases hins with
    | self => simp [hchild] at hroot
    | under hpar _ => simp [hpar] at hroot
  | @child item parent hpar hrooted ih =>
    intro hins
    refine ih hpar ?_
    cases hins with
    | self =>
      rw [hpar] at hchild
      obtain rfl := Option.some.inj (Option.some.inj hchild)
      exact .self
    | under hother hins =>
      rw [hpar] at hother
      obtain rfl := Option.some.inj (Option.some.inj hother)
      exact Inside.trans (.under hchild .self) hins

/-! ### Changes -/

theorem Forest.insert (hfor : Forest link) {parentOf : Option α}
    (hpar : ∀ parent, parentOf = some parent → link parent ≠ none) (hnew : link item = none)
    (hitem : other item = some parentOf) (hother : ∀ rest, rest ≠ item → other rest = link rest) : Forest other := by
  have hagree : ∀ rest, link rest ≠ none → other rest = link rest := fun rest hpres =>
    hother rest fun heq => hpres (heq ▸ hnew)
  intro rest hrest
  by_cases heq : rest = item
  · subst heq
    cases parentOf with
    | none => exact .root hitem
    | some parent => exact .child hitem ((hfor parent (hpar parent rfl)).extend hagree)
  · exact (hfor rest ((hother rest heq) ▸ hrest)).extend hagree

theorem Inside.of_change {parentOf : Option α} {start : α}
    (hpar : ∀ parent, parentOf = some parent → ¬ Inside link top parent)
    (hitem : other item = some parentOf) (hother : ∀ rest, rest ≠ item → other rest = link rest)
    (hins : Inside other top start) : Inside link top start := by
  induction hins with
  | self => exact .self
  | @under start parent hstart _ ih =>
    by_cases heq : start = item
    · rw [heq, hitem] at hstart
      exact absurd ih (hpar parent (Option.some.inj hstart))
    · exact .under ((hother start heq) ▸ hstart) ih

theorem Inside.of_fewer (hfewer : ∀ item, other item ≠ none → other item = link item)
    (hins : Inside other top item) : Inside link top item := by
  induction hins with
  | self => exact .self
  | @under item parent hpar _ ih =>
    have hkept := hfewer item (by simp [hpar])
    exact .under (hkept ▸ hpar) ih

theorem Rooted.reparent (hother : ∀ rest, rest ≠ item → other rest = link rest) {start : α}
    (hrooted : Rooted link start) (houts : ¬ Inside link item start) : Rooted other start := by
  induction hrooted with
  | @root start hroot =>
    have hne : start ≠ item := fun heq => houts (heq ▸ .self)
    exact .root ((hother start hne).trans hroot)
  | @child start parent hpar _ ih =>
    have hne : start ≠ item := fun heq => houts (heq ▸ .self)
    exact .child ((hother start hne).trans hpar)
      (ih fun hins => houts (.under hpar hins))

theorem Forest.reparent (hfor : Forest link) {parentOf : Option α}
    (hpar : ∀ parent, parentOf = some parent → link parent ≠ none ∧ ¬ Inside link item parent)
    (hitem : other item = some parentOf) (hother : ∀ rest, rest ≠ item → other rest = link rest) : Forest other := by
  have htop : Rooted other item := by
    cases parentOf with
    | none => exact .root hitem
    | some parent =>
      obtain ⟨hpres, houts⟩ := hpar parent rfl
      exact .child hitem ((hfor parent hpres).reparent hother houts)
  intro rest hrest
  by_cases heq : rest = item
  · exact heq ▸ htop
  · have hrooted := hfor rest ((hother rest heq) ▸ hrest)
    clear hrest heq
    induction hrooted with
    | @root start hroot =>
      by_cases heq : start = item
      · exact heq ▸ htop
      · exact .root ((hother start heq).trans hroot)
    | @child start parent hstart _ ih =>
      by_cases heq : start = item
      · exact heq ▸ htop
      · exact .child ((hother start heq).trans hstart) ih

theorem Forest.remove (hfor : Forest link) {removed : α → Prop}
    (hclos : ∀ item parent, link item = some (some parent) → removed parent → removed item)
    (hgone : ∀ item, removed item → other item = none)
    (hother : ∀ item, ¬ removed item → other item = link item) : Forest other := by
  intro item hitem
  have hkept : ¬ removed item := fun hrem => hitem (hgone item hrem)
  have hrooted := hfor item ((hother item hkept) ▸ hitem)
  clear hitem
  induction hrooted with
  | @root start hroot => exact .root ((hother start hkept).trans hroot)
  | @child start parent hpar _ ih =>
    exact .child ((hother start hkept).trans hpar)
      (ih fun hrem => hkept (hclos start parent hpar hrem))

/-! ### Walking down -/

theorem Forest.child_subtree (hfor : Forest link) {child : α} (hchild : link child = some (some top)) :
    (∀ item, Inside link child item → Inside link top item) ∧ ¬ Inside link child top :=
  ⟨fun _ hitem => Inside.trans (.under hchild .self) hitem,
    (hfor top (hfor.parent_present hchild)).not_inside_child hchild⟩

open Classical in
/-- The number of listed items inside the subtree. -/
noncomputable def subtreeSize (link : α → Option (Option α)) (items : List α) (top : α) : Nat :=
  (items.filter fun item => Inside link top item).length

theorem subtreeSize_le (link : α → Option (Option α)) (items : List α) (top : α) :
    subtreeSize link items top ≤ items.length := List.length_filter_le _ _

theorem subtreeSize_of_fewer (hfewer : ∀ item, other item ≠ none → other item = link item)
    (items : List α) (top : α) : subtreeSize other items top ≤ subtreeSize link items top := by
  classical
  exact (List.monotone_filter_right items fun item hitem =>
    decide_eq_true ((of_decide_eq_true hitem).of_fewer hfewer)).length_le

theorem Forest.subtreeSize_child (hfor : Forest link) {items : List α} {child : α}
    (hchild : link child = some (some top)) (htop : top ∈ items) :
    subtreeSize link items child < subtreeSize link items top := by
  classical
  obtain ⟨hsub, hout⟩ := hfor.child_subtree hchild
  have hsubl : (items.filter fun item => Inside link child item).Sublist
      (items.filter fun item => Inside link top item) :=
    List.monotone_filter_right items fun item hitem =>
      decide_eq_true (hsub item (of_decide_eq_true hitem))
  refine lt_of_le_of_ne hsubl.length_le fun hlen => ?_
  have heq := hsubl.eq_of_length hlen
  have hmem : top ∈ items.filter fun item => Inside link top item :=
    List.mem_filter.mpr ⟨htop, decide_eq_true .self⟩
  rw [← heq, List.mem_filter] at hmem
  exact hout (of_decide_eq_true hmem.2)

end PiRp.ParentForest

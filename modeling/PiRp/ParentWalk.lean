import Mathlib.Data.Fintype.EquivFin
import Mathlib.Data.Set.Finite.Basic
import Mathlib.Logic.Relation
import Mathlib.Order.WellFounded

/-! Walks along parent links. A walk lists a node, its parent, the parent of that one and so on, and is done
when a node has no parent. It ends exactly when the links from its start are well founded, and among finitely
many nodes exactly when no node it reaches is above itself. -/

namespace PiRp.ParentWalk

variable {α : Type*}

/-- The walk from a node, none when it is not done after the rounds. -/
def ascend (parent : α → Option α) : Nat → Option α → Option (List α)
  | _, none => some []
  | 0, some _ => none
  | rounds + 1, some current => (ascend parent rounds (parent current)).map (current :: ·)

/-- The walk from the node is done after some number of rounds. -/
def Ends (parent : α → Option α) (start : Option α) : Prop :=
  ∃ rounds, (ascend parent rounds start).isSome = true

def Up (parent : α → Option α) (child above : α) : Prop := parent child = some above

/-- No node at or above the start is above itself. -/
def CycleFree (parent : α → Option α) (start : Option α) : Prop :=
  ∀ first, start = some first → ∀ node, Relation.ReflTransGen (Up parent) first node →
    ¬Relation.TransGen (Up parent) node node

variable {parent : α → Option α}

theorem ascend_some (rounds : Nat) (current : α) :
    ascend parent (rounds + 1) (some current) = (ascend parent rounds (parent current)).map (current :: ·) := rfl

theorem ends_none : Ends parent none := ⟨0, rfl⟩

theorem ends_some {current : α} : Ends parent (some current) ↔ Ends parent (parent current) := by
  constructor
  · rintro ⟨rounds, hroun⟩
    cases rounds with
    | zero => exact nomatch hroun
    | succ rounds =>
      rw [ascend_some, Option.isSome_map] at hroun
      exact ⟨rounds, hroun⟩
  · rintro ⟨rounds, hroun⟩
    refine ⟨rounds + 1, ?_⟩
    rw [ascend_some, Option.isSome_map]
    exact hroun

theorem ends_iff_acc {start : α} :
    Ends parent (some start) ↔ Acc (fun above child => Up parent child above) start := by
  constructor
  · rintro ⟨rounds, hroun⟩
    induction rounds generalizing start with
    | zero => exact nomatch hroun
    | succ rounds ih =>
      rw [ascend_some, Option.isSome_map] at hroun
      refine Acc.intro start fun above habove => ih ?_
      rwa [habove] at hroun
  · intro hacc
    induction hacc with
    | intro start _ ih =>
      rw [ends_some]
      cases hparent : parent start with
      | none => exact ends_none
      | some above => exact ih above hparent

theorem Acc.irrefl {r : α → α → Prop} {node : α} (hacc : Acc r node) : ¬r node node := by
  induction hacc with
  | intro node _ ih => exact fun hself => ih node hself hself

theorem not_ends_of_self {node : α} (hself : parent node = some node) : ¬Ends parent (some node) :=
  fun hends => Acc.irrefl (ends_iff_acc.mp hends) hself

theorem acc_of_reaches {start node : α} (hacc : Acc (fun above child => Up parent child above) start)
    (hreac : Relation.ReflTransGen (Up parent) start node) : Acc (fun above child => Up parent child above) node := by
  induction hreac with
  | refl => exact hacc
  | tail _ hup ih => exact ih.inv hup

theorem cycleFree_of_acc {start : α} (hacc : Acc (fun above child => Up parent child above) start) :
    CycleFree parent (some start) := by
  intro first hfirst node hreac hcycle
  obtain rfl := Option.some.inj hfirst
  have hnode := (acc_of_reaches hacc hreac).transGen
  exact Acc.irrefl hnode (Relation.transGen_swap.mpr hcycle)

theorem acc_of_cycleFree {nodes : Set α} (hnodes : nodes.Finite)
    (hpar : ∀ child above, parent child = some above → above ∈ nodes) {start : α}
    (hfree : CycleFree parent (some start)) : Acc (fun above child => Up parent child above) start := by
  let Reached := {node // Relation.ReflTransGen (Up parent) start node}
  have hfin : Finite Reached := by
    refine Set.Finite.to_subtype ((hnodes.insert start).subset fun node hnode => ?_)
    rcases Relation.ReflTransGen.cases_tail hnode with rfl | ⟨child, _, hup⟩
    · exact Set.mem_insert _ _
    · exact Set.mem_insert_of_mem _ (hpar child node hup)
  let above : Reached → Reached → Prop := fun upper lower => Relation.TransGen (Up parent) lower.1 upper.1
  have : IsTrans Reached above := ⟨fun _ _ _ hleft hright => Relation.TransGen.trans hright hleft⟩
  have : Std.Irrefl above := ⟨fun node => hfree start rfl node.1 node.2⟩
  have hwell : WellFounded above := Finite.wellFounded_of_trans_of_irrefl above
  have hall : ∀ node : Reached, Acc (fun above child => Up parent child above) node.1 := by
    intro node
    induction node using hwell.induction with
    | h node ih => exact Acc.intro node.1 fun upper hup => ih ⟨upper, node.2.tail hup⟩ (.single hup)
  exact hall ⟨start, .refl⟩

theorem ends_iff {nodes : Set α} (hnodes : nodes.Finite)
    (hpar : ∀ child above, parent child = some above → above ∈ nodes) (start : Option α) :
    Ends parent start ↔ CycleFree parent start := by
  cases start with
  | none => exact ⟨fun _ _ hfirst => (nomatch hfirst), fun _ => ends_none⟩
  | some first =>
    rw [ends_iff_acc]
    exact ⟨cycleFree_of_acc, acc_of_cycleFree hnodes hpar⟩

end PiRp.ParentWalk

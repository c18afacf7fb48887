import Mathlib.Data.List.Basic

/-! Lists in which calls are made at turns and answered later. A turn and what follows it up to the next turn is a
stretch; every answer belongs to a call of its stretch, and a condition holds of the calls and the answers of each. -/

namespace PiRp.Stretches

open List

inductive Kind (ι : Type*) where
  | turn (calls : List ι)
  | answer (call : ι)
  | other
  deriving DecidableEq

variable {ι : Type*}

def Kind.calls? : Kind ι → Option (List ι)
  | .turn calls => some calls
  | _ => none

/-- The answers before the next turn. -/
def answers : List (Kind ι) → List ι
  | [] => []
  | .turn _ :: _ => []
  | .answer call :: rest => call :: answers rest
  | .other :: rest => answers rest

/-- The calls of the last turn, or those that were open before. -/
def openCalls (calls : List ι) (kinds : List (Kind ι)) : List ι :=
  (kinds.reverse.findSome? Kind.calls?).getD calls

/-- Every answer belongs to a call of the last turn before it, and every turn settles its calls. -/
structure Settled (settles : List ι → List ι → Prop) (kinds : List (Kind ι)) : Prop where
  turns : ∀ before calls after, kinds = before ++ .turn calls :: after → settles calls (answers after)
  asked : ∀ before call after, kinds = before ++ .answer call :: after → call ∈ openCalls [] before

/-- The list is read with the calls of the last turn and the answers since. -/
def Reads (settles : List ι → List ι → Prop) (calls given : List ι) : List (Kind ι) → Prop
  | [] => settles calls given
  | .turn next :: rest => settles calls given ∧ Reads settles next [] rest
  | .answer call :: rest => call ∈ calls ∧ Reads settles calls (given ++ [call]) rest
  | .other :: rest => Reads settles calls given rest

variable {settles : List ι → List ι → Prop} {calls given : List ι} {kinds : List (Kind ι)}

theorem openCalls_cons_turn (next : List ι) : openCalls calls (.turn next :: kinds) = openCalls next kinds := by
  rw [openCalls, openCalls, reverse_cons, findSome?_append]
  cases kinds.reverse.findSome? Kind.calls? with
  | none => rfl
  | some found => rfl

theorem openCalls_cons_of_none {kind : Kind ι} (hkind : kind.calls? = none) :
    openCalls calls (kind :: kinds) = openCalls calls kinds := by
  rw [openCalls, openCalls, reverse_cons, findSome?_append, findSome?_singleton, hkind, Option.or_none]

theorem forall_split_cons {α κ : Type*} {make : α → κ} {P : List κ → α → List κ → Prop} {head : κ} {rest : List κ} :
    (∀ before item after, head :: rest = before ++ make item :: after → P before item after) ↔
      (∀ item, head = make item → P [] item rest) ∧
        ∀ before item after, rest = before ++ make item :: after → P (head :: before) item after := by
  constructor
  · intro hall
    refine ⟨fun item heq => hall [] item rest (by rw [heq]; rfl), fun before item after heq => ?_⟩
    exact hall (head :: before) item after (by rw [heq]; rfl)
  · rintro ⟨hhead, hrest⟩ before item after heq
    cases before with
    | nil =>
      obtain ⟨hitem, rfl⟩ := List.cons.inj heq
      exact hhead item hitem
    | cons first before =>
      obtain ⟨rfl, htail⟩ := List.cons.inj heq
      exact hrest before item after htail

theorem reads_iff : Reads settles calls given kinds ↔ settles calls (given ++ answers kinds) ∧
    (∀ before next after, kinds = before ++ .turn next :: after → settles next (answers after)) ∧
      ∀ before call after, kinds = before ++ .answer call :: after → call ∈ openCalls calls before := by
  induction kinds generalizing calls given with
  | nil =>
    rw [Reads, answers, append_nil]
    refine (and_iff_left ⟨?_, ?_⟩).symm
    · intro before next after heq
      exact absurd heq.symm (append_ne_nil_of_right_ne_nil _ (cons_ne_nil _ _))
    · intro before call after heq
      exact absurd heq.symm (append_ne_nil_of_right_ne_nil _ (cons_ne_nil _ _))
  | cons kind rest ih =>
    rw [forall_split_cons, forall_split_cons]
    cases kind with
    | turn next =>
      simp only [Reads, answers, ih, openCalls_cons_turn, Kind.turn.injEq, reduceCtorEq, forall_eq',
        append_nil, nil_append, false_implies, implies_true, true_and, and_assoc]
    | answer call =>
      simp only [Reads, answers, ih, openCalls_cons_of_none (show (Kind.answer call).calls? = none from rfl), Kind.answer.injEq,
        reduceCtorEq, forall_eq', append_assoc, singleton_append, false_implies, implies_true, true_and]
      exact ⟨fun ⟨hcall, hends, hturns, hasked⟩ => ⟨hends, hturns, hcall, hasked⟩,
        fun ⟨hends, hturns, hcall, hasked⟩ => ⟨hcall, hends, hturns, hasked⟩⟩
    | other =>
      simp only [Reads, answers, ih, openCalls_cons_of_none (show (@Kind.other ι).calls? = none from rfl), reduceCtorEq, false_implies,
        implies_true, true_and]

theorem settled_iff (hset : ∀ given, settles [] given) : Settled settles kinds ↔ Reads settles [] [] kinds := by
  rw [reads_iff]
  constructor
  · rintro ⟨hturns, hasked⟩
    exact ⟨hset _, hturns, hasked⟩
  · rintro ⟨-, hturns, hasked⟩
    exact ⟨hturns, hasked⟩

end PiRp.Stretches

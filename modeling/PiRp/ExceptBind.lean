import Mathlib.Data.List.Forall2

/-! Sequencing of computations that may fail. -/

namespace PiRp

variable {ε α β : Type}

@[simp] theorem ok_bind (value : α) (next : α → Except ε β) : (Except.ok value >>= next) = next value := rfl

@[simp] theorem error_bind (error : ε) (next : α → Except ε β) : (Except.error error >>= next) = .error error := rfl

theorem bind_eq_ok {first : Except ε α} {next : α → Except ε β} {result : β} :
    first >>= next = .ok result ↔ ∃ value, first = .ok value ∧ next value = .ok result := by
  cases first with
  | error error => exact ⟨nofun, fun ⟨_, hvalue, _⟩ => nomatch hvalue⟩
  | ok value =>
    refine ⟨fun h => ⟨value, rfl, h⟩, ?_⟩
    rintro ⟨other, hother, hnext⟩
    cases hother
    exact hnext

theorem bind_eq_error {first : Except ε α} {next : α → Except ε β} {error : ε} : first >>= next = .error error ↔
      first = .error error ∨ ∃ value, first = .ok value ∧ next value = .error error := by
  cases first with
  | error other =>
    rw [error_bind]
    refine ⟨fun h => .inl (congrArg Except.error (Except.error.inj h)), ?_⟩
    rintro (h | ⟨_, hvalue, _⟩)
    · exact congrArg Except.error (Except.error.inj h)
    · exact nomatch hvalue
  | ok value =>
    refine ⟨fun h => .inr ⟨value, rfl, h⟩, ?_⟩
    rintro (h | ⟨other, hother, hnext⟩)
    · exact nomatch h
    · cases hother
      exact hnext

/-! Conditions on a result can be decided when they can be on every value. -/

def decidableOfOk (computed : Except ε α) (condition : α → Prop)
    [∀ value, Decidable (condition value)] :
    Decidable (∀ value, computed = .ok value → condition value) :=
  match computed with
  | .error _ => isTrue nofun
  | .ok value => decidable_of_iff (condition value)
      ⟨fun hcond _ heq => Except.ok.inj heq ▸ hcond, fun hall => hall value rfl⟩

instance decidableOfSome (found : Option α) (condition : α → Prop)
    [∀ value, Decidable (condition value)] :
    Decidable (∀ value, found = some value → condition value) :=
  match found with
  | none => isTrue nofun
  | some value => decidable_of_iff (condition value)
      ⟨fun hcond _ heq => Option.some.inj heq ▸ hcond, fun hall => hall value rfl⟩

/-! ### Loops that may fail -/

section Loops

variable {step other : β → α → Except ε β} {items : List α} {start last : β}

theorem foldlM_mem (hrun : items.foldlM step start = .ok last) {item : α} (hitem : item ∈ items) :
    ∃ before after, step before item = .ok after := by
  induction items generalizing start with
  | nil => exact absurd hitem List.not_mem_nil
  | cons first rest ih =>
    rw [List.foldlM_cons] at hrun
    obtain ⟨next, hfirst, hrest⟩ := bind_eq_ok.mp hrun
    rcases List.mem_cons.mp hitem with rfl | hitem
    · exact ⟨start, next, hfirst⟩
    · exact ih hrest hitem

theorem foldlM_mono
    (hstep : ∀ item ∈ items, ∀ before after, step before item = .ok after → other before item = .ok after)
    (hrun : items.foldlM step start = .ok last) : items.foldlM other start = .ok last := by
  induction items generalizing start with
  | nil => exact hrun
  | cons item rest ih =>
    rw [List.foldlM_cons] at hrun ⊢
    obtain ⟨next, hfirst, hrest⟩ := bind_eq_ok.mp hrun
    refine bind_eq_ok.mpr ⟨next, hstep item List.mem_cons_self _ _ hfirst, ?_⟩
    exact ih (fun item hitem => hstep item (List.mem_cons_of_mem _ hitem)) hrest

theorem mapM_eq_ok {convert : α → Except ε β} {results : List β} :
    items.mapM convert = .ok results ↔ List.Forall₂ (fun item result => convert item = .ok result) items results := by
  induction items generalizing results with
  | nil =>
    rw [List.mapM_nil]
    constructor
    · intro hnil
      cases hnil
      exact .nil
    · intro hnil
      cases hnil
      rfl
  | cons item rest ih =>
    rw [List.mapM_cons, bind_eq_ok]
    constructor
    · rintro ⟨first, hfirst, hrest⟩
      obtain ⟨others, hoth, hall⟩ := bind_eq_ok.mp hrest
      cases hall
      exact .cons hfirst (ih.mp hoth)
    · intro hall
      cases hall with
      | cons hfirst hoth => exact ⟨_, hfirst, bind_eq_ok.mpr ⟨_, ih.mpr hoth, rfl⟩⟩

end Loops

end PiRp

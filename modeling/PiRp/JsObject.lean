import PiRp.JsText
import Mathlib.Data.List.Perm.Basic

/-! The own properties of a JavaScript object, as an ordered list of keys with values. Array indices
come first in ascending order, the other keys follow in the order they were defined. Defining the
properties of an object one after the other in their own order builds the same list again. -/

namespace PiRp

open List

/-- The decimal digits of a number. -/
def decimal (value : Nat) : JsStr := (Nat.toDigits 10 value).map fun c => UInt16.ofNat c.toNat

/-- The value of a string read as decimal digits. -/
def decimalValue (text : JsStr) : Nat :=
  text.foldl (fun value unit => value * 10 + (unit.toNat - 0x30)) 0

/-- The array index a key denotes: the key is the canonical text of a number below `2^32 - 1`. -/
def arrayIndex? (key : JsStr) : Option Nat :=
  if key = decimal (decimalValue key) ∧ decimalValue key < 2 ^ 32 - 1 then some (decimalValue key)
  else none

/-- The key comes before the other one whatever the order of definition. -/
def keyBefore (key other : JsStr) : Bool :=
  match arrayIndex? key, arrayIndex? other with
  | some index, some otherIndex => index < otherIndex
  | some _, none => true
  | none, _ => false

/-- The order in which an object can list two of its keys. -/
def KeyOrder (key other : JsStr) : Prop := key ≠ other ∧ keyBefore other key = false

instance (key other : JsStr) : Decidable (KeyOrder key other) :=
  inferInstanceAs (Decidable (key ≠ other ∧ keyBefore other key = false))

theorem keyBefore_asymm {key other : JsStr} (hbef : keyBefore key other = true) : keyBefore other key = false := by
  simp only [keyBefore] at hbef ⊢
  cases hkey : arrayIndex? key <;> cases hother : arrayIndex? other <;> simp_all
  omega

theorem keyBefore_trans {first second third : JsStr} (hleft : keyBefore first second = true)
    (hright : keyBefore second third = true) : keyBefore first third = true := by
  simp only [keyBefore] at hleft hright ⊢
  cases hfirst : arrayIndex? first <;> cases hsnd : arrayIndex? second <;>
    cases hthird : arrayIndex? third <;> simp_all
  omega

variable {β : Type*}

/-- The own properties of an object with values in `β`. -/
abbrev Props (β : Type*) := List (JsStr × β)

namespace Props

/-- The keys are pairwise distinct and listed in property order. -/
def Ordered (props : Props β) : Prop := props.Pairwise fun left right => KeyOrder left.1 right.1

instance (props : Props β) : Decidable props.Ordered :=
  inferInstanceAs (Decidable (props.Pairwise fun left right => KeyOrder left.1 right.1))

def get? (props : Props β) (key : JsStr) : Option β :=
  match props with
  | [] => none
  | (other, value) :: rest => if other = key then some value else get? rest key

theorem get?_append (left right : Props β) (key : JsStr) :
    get? (left ++ right) key = (get? left key).or (get? right key) := by
  induction left with
  | nil => rfl
  | cons entry rest ih =>
    obtain ⟨other, value⟩ := entry
    rw [cons_append, get?, get?, ih]
    split_ifs
    · rfl
    · rfl

variable {key : JsStr}

theorem get?_eq_none {props : Props β} (hkey : ∀ entry ∈ props, entry.1 ≠ key) : get? props key = none := by
  induction props with
  | nil => rfl
  | cons entry rest ih =>
    obtain ⟨other, value⟩ := entry
    rw [get?, if_neg (hkey _ mem_cons_self)]
    exact ih fun entry hentry => hkey entry (mem_cons_of_mem _ hentry)

theorem mem_of_get? {props : Props β} {value : β} (hvalue : get? props key = some value) : (key, value) ∈ props := by
  induction props with
  | nil => exact nomatch hvalue
  | cons entry rest ih =>
    obtain ⟨other, found⟩ := entry
    rw [get?] at hvalue
    split_ifs at hvalue with hkey
    · obtain rfl := Option.some.inj hvalue
      exact hkey ▸ mem_cons_self
    · exact mem_cons_of_mem _ (ih hvalue)

/-- Puts a new key where the property order has it. -/
def insertKey (props : Props β) (key : JsStr) (value : β) : Props β :=
  match props with
  | [] => [(key, value)]
  | entry :: rest =>
    if keyBefore key entry.1 then (key, value) :: entry :: rest
    else entry :: insertKey rest key value

/-- Defines a property: an existing key keeps its place. -/
def set (props : Props β) (key : JsStr) (value : β) : Props β :=
  if props.any fun entry => entry.1 = key then
    props.map fun entry => if entry.1 = key then (key, value) else entry
  else insertKey props key value

theorem insertKey_perm (props : Props β) (key : JsStr) (value : β) :
    (insertKey props key value).Perm ((key, value) :: props) := by
  induction props with
  | nil => exact List.Perm.refl _
  | cons entry rest ih =>
    rw [insertKey]
    split_ifs with hbef
    · exact List.Perm.refl _
    · exact (ih.cons entry).trans (List.Perm.swap _ _ _)

theorem set_of_not_mem {props : Props β} (value : β)
    (hkey : ∀ entry ∈ props, entry.1 ≠ key) : set props key value = insertKey props key value := by
  rw [set, if_neg]
  rw [any_eq_true]
  rintro ⟨entry, hentry, heq⟩
  exact hkey entry hentry (by simpa using heq)

theorem insertKey_last {props : Props β} (value : β) (hafter : ∀ entry ∈ props, keyBefore key entry.1 = false) :
    insertKey props key value = props ++ [(key, value)] := by
  induction props with
  | nil => rfl
  | cons entry rest ih =>
    rw [insertKey, hafter entry mem_cons_self, if_neg Bool.false_ne_true,
      ih fun other hother => hafter other (mem_cons_of_mem _ hother)]
    rfl

theorem set_last {props : Props β} {value : β} (hord : Ordered (props ++ [(key, value)])) :
    set props key value = props ++ [(key, value)] := by
  have hall := (pairwise_append.mp hord).2.2
  rw [set_of_not_mem value fun entry hentry => (hall entry hentry _ (mem_singleton_self _)).1,
    insertKey_last value fun entry hentry => (hall entry hentry _ (mem_singleton_self _)).2]

/-- **Defining the properties of an object in their order gives the object back.** -/
theorem foldl_set {props : Props β} (hord : Ordered props) :
    props.foldl (fun object entry => set object entry.1 entry.2) [] = props := by
  suffices h : ∀ before after : Props β, Ordered (before ++ after) →
      after.foldl (fun object entry => set object entry.1 entry.2) before = before ++ after from
    h [] props hord
  intro before after
  induction after generalizing before with
  | nil => intro _; rw [foldl_nil, append_nil]
  | cons entry after ih =>
    intro h
    have hsplit : before ++ entry :: after = before ++ [entry] ++ after := by
      rw [append_assoc, singleton_append]
    rw [hsplit] at h ⊢
    have hfirst : Ordered (before ++ [(entry.1, entry.2)]) := (pairwise_append.mp h).1
    rw [foldl_cons, set_last hfirst]
    exact ih _ h

theorem insertKey_ordered {props : Props β} (value : β) (hord : Ordered props)
    (hkey : ∀ entry ∈ props, entry.1 ≠ key) : Ordered (insertKey props key value) := by
  induction props with
  | nil => exact pairwise_singleton _ _
  | cons entry rest ih =>
    obtain ⟨hentry, hrest⟩ := pairwise_cons.mp hord
    rw [insertKey]
    split_ifs with hbef
    · refine pairwise_cons.mpr ⟨fun other hother => ⟨(hkey other hother).symm, ?_⟩, hord⟩
      rcases mem_cons.mp hother with rfl | hother
      · exact keyBefore_asymm hbef
      · by_contra hnot
        have hlate := keyBefore_trans (Bool.not_eq_false _ ▸ hnot) hbef
        rw [(hentry other hother).2] at hlate
        exact Bool.false_ne_true hlate
    · refine pairwise_cons.mpr ⟨fun other hother => ?_,
        ih hrest fun other hother => hkey other (mem_cons_of_mem _ hother)⟩
      rcases mem_cons.mp ((insertKey_perm rest key value).mem_iff.mp hother) with rfl | hother
      · exact ⟨hkey entry mem_cons_self, Bool.not_eq_true _ ▸ hbef⟩
      · exact hentry other hother

end Props

end PiRp

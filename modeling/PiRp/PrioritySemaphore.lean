import Mathlib.Data.Finset.Card
import Mathlib.Data.List.Basic

/-!
# A counting semaphore with a priority queue

The semaphore knows who holds a slot, not only how many do.  What it promises is part of its type, so that a
counter with a queue is right as soon as it is shown to follow a semaphore.
-/

namespace PiRp

open List

section Insertion

variable {α : Type*}

/-- The item before the first one that has to stand behind it, and at the end when there is none. -/
def insertBefore (behind : α → Bool) (item : α) (items : List α) : List α :=
  match items.findIdx? behind with
  | none => items ++ [item]
  | some idx => items.insertIdx idx item

theorem insertBefore_cons (behind : α → Bool) (item first : α) (items : List α) :
    insertBefore behind item (first :: items) =
      if behind first then item :: first :: items else first :: insertBefore behind item items := by
  rw [insertBefore, insertBefore, findIdx?_cons]
  by_cases hfirst : behind first = true
  · rw [if_pos hfirst, if_pos hfirst]
    rfl
  · rw [if_neg hfirst, if_neg hfirst]
    cases items.findIdx? behind <;> rfl

theorem insertBefore_perm (behind : α → Bool) (item : α) (items : List α) :
    (insertBefore behind item items).Perm (item :: items) := by
  induction items with
  | nil => exact List.Perm.refl _
  | cons first items ih =>
    rw [insertBefore_cons]
    split
    · exact List.Perm.refl _
    · exact (ih.cons first).trans (List.Perm.swap item first items)

theorem pairwise_insertBefore {order : α → α → Prop} {behind : α → Bool} {item : α} {items : List α}
    (hitems : items.Pairwise order) (hbef : ∀ other ∈ items, behind other = false → order other item)
    (hbeh : ∀ other ∈ items, behind other = true → order item other)
    (hmono : ∀ a ∈ items, ∀ b ∈ items, order a b → behind a = true → behind b = true) :
    (insertBefore behind item items).Pairwise order := by
  induction items with
  | nil => exact pairwise_singleton order item
  | cons first items ih =>
    obtain ⟨hfirst, hrest⟩ := pairwise_cons.mp hitems
    have hmem := mem_cons_self (a := first) (l := items)
    have htail : ∀ {other}, other ∈ items → other ∈ first :: items := mem_cons_of_mem first
    rw [insertBefore_cons]
    split
    · rename_i hfound
      refine pairwise_cons.mpr ⟨fun other hother => ?_, hitems⟩
      rcases mem_cons.mp hother with rfl | hother
      · exact hbeh _ hmem hfound
      · exact hbeh _ (htail hother) (hmono _ hmem _ (htail hother) (hfirst other hother) hfound)
    · rename_i hfound
      refine pairwise_cons.mpr ⟨fun other hother => ?_, ?_⟩
      · rcases mem_cons.mp ((insertBefore_perm behind item items).mem_iff.mp hother) with rfl | hother
        · exact hbef first hmem (Bool.eq_false_iff.mpr hfound)
        · exact hfirst other hother
      · exact ih hrest (fun other hother => hbef other (htail hother))
          (fun other hother => hbeh other (htail hother))
          (fun a ha b hb => hmono a (htail ha) b (htail hb))

end Insertion

variable {P : Type*} [LinearOrder P]

/-- A request for a slot: its priority, and its number in the order of arrival. -/
structure Waiter (P : Type*) where
  priority : P
  arrival : ℕ

/-- Who is served first: the higher priority, and among equals the one that came first. -/
def Waiter.ahead (a b : Waiter P) : Prop :=
  b.priority < a.priority ∨ b.priority = a.priority ∧ a.arrival < b.arrival

theorem Waiter.ahead.priority_le {a b : Waiter P} (h : a.ahead b) : b.priority ≤ a.priority :=
  h.elim le_of_lt fun h => h.1.le

omit [LinearOrder P] in
theorem mem_eraseP_arrival {queue : List (Waiter P)} (hdist : (queue.map Waiter.arrival).Nodup) {arrival : ℕ}
    {waiter : Waiter P} :
    waiter ∈ queue.eraseP (·.arrival = arrival) ↔ waiter ∈ queue ∧ waiter.arrival ≠ arrival := by
  induction queue with
  | nil => exact iff_of_false not_mem_nil fun h => not_mem_nil h.1
  | cons first queue ih =>
    obtain ⟨hfirst, hrest⟩ := nodup_cons.mp hdist
    by_cases heq : first.arrival = arrival
    · rw [eraseP_cons_of_pos (by simpa using heq), mem_cons]
      refine ⟨fun h => ⟨Or.inr h, fun hsame => hfirst ?_⟩, fun h => h.1.resolve_left fun hsame => h.2 ?_⟩
      · rw [heq, ← hsame]
        exact mem_map_of_mem h
      · rw [hsame, heq]
    · rw [eraseP_cons_of_neg (by simpa using heq), mem_cons, mem_cons, ih hrest]
      refine ⟨?_, fun h => h.1.imp_right fun hmem => ⟨hmem, h.2⟩⟩
      rintro (rfl | h)
      · exact ⟨Or.inl rfl, heq⟩
      · exact ⟨Or.inr h.1, h.2⟩

/-- At most so many holders, nobody waiting while a slot is free, and a queue in the order of service. -/
structure Semaphore (P : Type*) [LinearOrder P] (limit : ℕ) where
  holders : Finset ℕ
  queue : List (Waiter P)
  bounded : holders.card ≤ limit
  busy : queue ≠ [] → holders.card = limit
  ordered : queue.Pairwise Waiter.ahead
  distinct : (queue.map Waiter.arrival).Nodup
  apart : ∀ waiter ∈ queue, waiter.arrival ∉ holders

namespace Semaphore

variable {limit : ℕ}

def empty (P : Type*) [LinearOrder P] (limit : ℕ) : Semaphore P limit where
  holders := ∅
  queue := []
  bounded := Nat.zero_le limit
  busy := fun h => absurd rfl h
  ordered := List.Pairwise.nil
  distinct := nodup_nil
  apart := fun _ h => absurd h not_mem_nil

variable (semaphore : Semaphore P limit)

theorem queue_eq_nil (hfree : semaphore.holders.card < limit) : semaphore.queue = [] := by
  by_contra hqueue
  exact absurd (semaphore.busy hqueue) hfree.ne

/-- A slot for a newcomer while one is free. -/
def enter (arrival : ℕ) (hfree : semaphore.holders.card < limit) : Semaphore P limit where
  holders := insert arrival semaphore.holders
  queue := []
  bounded := (Finset.card_insert_le arrival semaphore.holders).trans hfree
  busy := fun h => absurd rfl h
  ordered := List.Pairwise.nil
  distinct := nodup_nil
  apart := fun _ h => absurd h not_mem_nil

/-- A newcomer in the queue, behind everyone who is served before it. -/
def wait (waiter : Waiter P) (hfull : semaphore.holders.card = limit)
    (hlast : ∀ other ∈ semaphore.queue, other.arrival < waiter.arrival)
    (hnew : waiter.arrival ∉ semaphore.holders) : Semaphore P limit where
  holders := semaphore.holders
  queue := insertBefore (fun other => other.priority < waiter.priority) waiter semaphore.queue
  bounded := semaphore.bounded
  busy := fun _ => hfull
  ordered := by
    refine pairwise_insertBefore semaphore.ordered (fun other hother hle => ?_) (fun other _ hlt => ?_)
      (fun a _ b _ hahead hlt => ?_)
    · rcases (not_lt.mp (of_decide_eq_false hle)).lt_or_eq with hlt | heq
      · exact Or.inl hlt
      · exact Or.inr ⟨heq, hlast other hother⟩
    · exact Or.inl (of_decide_eq_true hlt)
    · exact decide_eq_true (hahead.priority_le.trans_lt (of_decide_eq_true hlt))
  distinct := by
    rw [((insertBefore_perm _ waiter semaphore.queue).map Waiter.arrival).nodup_iff, map_cons]
    refine nodup_cons.mpr ⟨fun hmem => ?_, semaphore.distinct⟩
    obtain ⟨other, hother, heq⟩ := mem_map.mp hmem
    exact (hlast other hother).ne heq
  apart := by
    intro other hother
    rcases mem_cons.mp ((insertBefore_perm _ waiter semaphore.queue).mem_iff.mp hother) with rfl | hother
    · exact hnew
    · exact semaphore.apart other hother

/-- Someone leaves the queue. -/
def withdraw (arrival : ℕ) : Semaphore P limit where
  holders := semaphore.holders
  queue := semaphore.queue.eraseP (·.arrival = arrival)
  bounded := semaphore.bounded
  busy := fun h => semaphore.busy fun hqueue => h (by rw [hqueue]; rfl)
  ordered := semaphore.ordered.sublist eraseP_sublist
  distinct := semaphore.distinct.sublist (eraseP_sublist.map Waiter.arrival)
  apart := fun waiter h => semaphore.apart waiter (mem_of_mem_eraseP h)

/-- A slot given back while nobody waits. -/
def leave (arrival : ℕ) : Semaphore P limit where
  holders := semaphore.holders.erase arrival
  queue := []
  bounded := Finset.card_erase_le.trans semaphore.bounded
  busy := fun h => absurd rfl h
  ordered := List.Pairwise.nil
  distinct := nodup_nil
  apart := fun _ h => absurd h not_mem_nil

theorem card_handOver {arrival : ℕ} (hholds : arrival ∈ semaphore.holders) {waiter : Waiter P}
    (hwaits : waiter ∈ semaphore.queue) :
    (insert waiter.arrival (semaphore.holders.erase arrival)).card = semaphore.holders.card := by
  have hnew : waiter.arrival ∉ semaphore.holders.erase arrival := fun h =>
    semaphore.apart waiter hwaits (Finset.mem_of_mem_erase h)
  rw [Finset.card_insert_of_notMem hnew, Finset.card_erase_add_one hholds]

/-- A slot handed over to the first in the queue. -/
def handOver (arrival : ℕ) (first : Waiter P) (queue : List (Waiter P)) (hqueue : semaphore.queue = first :: queue)
    (hholds : arrival ∈ semaphore.holders) : Semaphore P limit where
  holders := insert first.arrival (semaphore.holders.erase arrival)
  queue := queue
  bounded := by
    rw [semaphore.card_handOver hholds (hqueue ▸ mem_cons_self)]
    exact semaphore.bounded
  busy := fun _ => by
    rw [semaphore.card_handOver hholds (hqueue ▸ mem_cons_self)]
    exact semaphore.busy (hqueue ▸ cons_ne_nil first queue)
  ordered := (hqueue ▸ semaphore.ordered : (first :: queue).Pairwise Waiter.ahead).tail
  distinct := by
    have h := semaphore.distinct
    rw [hqueue, map_cons] at h
    exact h.of_cons
  apart := by
    have h := semaphore.distinct
    rw [hqueue, map_cons] at h
    intro other hother hmem
    rcases Finset.mem_insert.mp hmem with heq | hmem
    · exact (nodup_cons.mp h).1 (heq ▸ mem_map_of_mem hother)
    · exact semaphore.apart other (hqueue ▸ mem_cons_of_mem first hother) (Finset.mem_of_mem_erase hmem)

theorem first_ahead {first : Waiter P} {queue : List (Waiter P)} (hqueue : semaphore.queue = first :: queue)
    {other : Waiter P} (hother : other ∈ semaphore.queue) : other = first ∨ first.ahead other := by
  have h := semaphore.ordered
  rw [hqueue] at h hother
  rcases mem_cons.mp hother with heq | hother
  · exact Or.inl heq
  · exact Or.inr ((pairwise_cons.mp h).1 other hother)

theorem mem_withdraw {arrival : ℕ} {waiter : Waiter P} :
    waiter ∈ (semaphore.withdraw arrival).queue ↔ waiter ∈ semaphore.queue ∧ waiter.arrival ≠ arrival :=
  mem_eraseP_arrival semaphore.distinct

end Semaphore

end PiRp

import Mathlib.Data.List.Perm.Basic

/-! The stream of events between a producer and its consumers. A producer pushes events up to one that completes the
stream, or ends it; each iterator takes the next event, waits for one, or learns that there are no more. -/

namespace PiRp

open List

/-- `delivered` holds what the iterators have been given, in order: an event, or nothing at the end. -/
structure EventStream (T R κ : Type) where
  queue : List T
  waiting : List κ
  done : Bool
  finalResult : Option R
  delivered : List (κ × Option T)

namespace EventStream

variable {T R κ : Type}

def initial : EventStream T R κ where
  queue := []
  waiting := []
  done := false
  finalResult := none
  delivered := []

section Calls

variable (isComplete : T → Bool) (extractResult : T → R) (stream : EventStream T R κ)

/-- The stream takes no more events; a promise that is resolved stays as it is. -/
def complete (event : T) : EventStream T R κ :=
  if isComplete event then
    { stream with done := true, finalResult := stream.finalResult.or (some (extractResult event)) }
  else stream

/-- The event goes to the first iterator that waits, or to the queue. -/
def deliver (event : T) : EventStream T R κ :=
  match stream.waiting with
  | waiter :: waiting => { stream with waiting, delivered := stream.delivered ++ [(waiter, some event)] }
  | [] => { stream with queue := stream.queue ++ [event] }

def push (event : T) : EventStream T R κ :=
  if stream.done then stream else (stream.complete isComplete extractResult event).deliver event

def finish (result : Option R) : EventStream T R κ :=
  { stream with
    done := true
    finalResult := stream.finalResult.or result
    waiting := []
    delivered := stream.delivered ++ stream.waiting.map fun waiter => (waiter, none) }

/-- An iterator goes on. -/
def next (consumer : κ) : EventStream T R κ :=
  match stream.queue with
  | event :: queue => { stream with queue, delivered := stream.delivered ++ [(consumer, some event)] }
  | [] =>
    if stream.done then { stream with delivered := stream.delivered ++ [(consumer, none)] }
    else { stream with waiting := stream.waiting ++ [consumer] }

end Calls

/-- The calls of the producer and of the iterators. -/
inductive Call (T R κ : Type) where
  | push (event : T)
  | finish (result : Option R)
  | next (consumer : κ)

variable (isComplete : T → Bool) (extractResult : T → R)

def step (stream : EventStream T R κ) : Call T R κ → EventStream T R κ
  | .push event => stream.push isComplete extractResult event
  | .finish result => stream.finish result
  | .next consumer => stream.next consumer

def run (calls : List (Call T R κ)) : EventStream T R κ := calls.foldl (step isComplete extractResult) initial

/-! ### What a stream is for -/

/-- The events up to the one that completes the stream, or up to its end. -/
def published : List (Call T R κ) → List T
  | [] => []
  | .push event :: calls => if isComplete event then [event] else event :: published calls
  | .finish _ :: _ => []
  | .next _ :: calls => published calls

/-- The result that is given first when the stream is ended. -/
def endResult : List (Call T R κ) → Option R
  | [] => none
  | .finish result :: calls => result.or (endResult calls)
  | .push _ :: calls | .next _ :: calls => endResult calls

/-- The result of the event that completes the stream, or the first one that it is ended with. -/
def outcome : List (Call T R κ) → Option R
  | [] => none
  | .push event :: calls => if isComplete event then some (extractResult event) else outcome calls
  | .finish result :: calls => result.or (endResult calls)
  | .next _ :: calls => outcome calls

/-- The iterators that went on, each as often as it did. -/
def asked : List (Call T R κ) → List κ
  | [] => []
  | .next consumer :: calls => consumer :: asked calls
  | .push _ :: calls | .finish _ :: calls => asked calls

/-- The iterators that were answered, and those that wait. -/
def heard (stream : EventStream T R κ) : List κ := stream.delivered.map Prod.fst ++ stream.waiting

/-- The events that have been given to iterators. -/
def events (stream : EventStream T R κ) : List T := stream.delivered.filterMap Prod.snd

/-- Iterators wait for an empty queue only, and are told of the end behind the last event. -/
structure Sound (stream : EventStream T R κ) : Prop where
  idle : stream.waiting ≠ [] → stream.queue = []
  ended : ∀ consumer, (consumer, none) ∈ stream.delivered → stream.done = true ∧ stream.queue = []

/-- What the calls since then have published, who has gone on, whether the stream is done, and the result they gave it. -/
structure Gains (stream after : EventStream T R κ) (more : List T) (consumers : List κ) (done : Bool)
    (result : Option R) : Prop where
  sound : after.Sound
  heard : after.heard ~ stream.heard ++ consumers
  events : after.events ++ after.queue = stream.events ++ stream.queue ++ more
  done : after.done = done
  result : after.finalResult = stream.finalResult.or result

variable {stream : EventStream T R κ}

theorem Sound.initial : (initial : EventStream T R κ).Sound := ⟨fun _ => rfl, by rintro _ ⟨⟩⟩

section

variable (hsound : stream.Sound)

include hsound

theorem Sound.push (hopen : stream.done = false) (event : T) :
    stream.Gains (stream.push isComplete extractResult event) [event] [] (isComplete event)
      (if isComplete event then some (extractResult event) else none) := by
  have hnone : ∀ consumer, (consumer, none) ∉ stream.delivered := by
    intro consumer hend
    cases hopen.symm.trans (hsound.ended consumer hend).1
  have hpush : stream.push isComplete extractResult event = deliver { stream with
      done := isComplete event
      finalResult := stream.finalResult.or (if isComplete event then some (extractResult event) else none) } event := by
    rw [EventStream.push, hopen, if_neg Bool.false_ne_true, complete]
    split_ifs with hcomplete
    · rw [hcomplete]
    · rw [Bool.eq_false_iff.mpr hcomplete, ← hopen, Option.or_none]
  rw [hpush]
  obtain ⟨queue, waiting, done, finalResult, delivered⟩ := stream
  cases waiting with
  | nil =>
    refine ⟨⟨fun hne => absurd rfl hne, fun consumer hend => ?_⟩, by simp [deliver, heard], (append_assoc ..).symm, rfl, rfl⟩
    exact absurd hend (hnone consumer)
  | cons waiter waiting =>
    obtain rfl : queue = [] := hsound.idle (cons_ne_nil _ _)
    refine ⟨⟨fun _ => rfl, fun consumer hend => ?_⟩, by simp [deliver, heard], by simp [deliver, events], rfl, rfl⟩
    rcases mem_append.mp hend with hold | hnew
    · exact absurd hold (hnone consumer)
    · cases mem_singleton.mp hnew

theorem Sound.finish (result : Option R) :
    stream.Gains (stream.finish result) [] [] true result := by
  refine ⟨⟨fun hne => absurd rfl hne, fun consumer hend => ⟨rfl, ?_⟩⟩, ?_, ?_, rfl, rfl⟩
  · rcases mem_append.mp hend with hold | hnew
    · exact (hsound.ended consumer hold).2
    · obtain ⟨waiter, hwait, -⟩ := mem_map.mp hnew
      exact hsound.idle (ne_nil_of_mem hwait)
  · simp [EventStream.finish, heard, Function.comp_def]
  · simp [EventStream.finish, events]

theorem Sound.next (consumer : κ) :
    stream.Gains (stream.next consumer) [] [consumer] stream.done none := by
  obtain ⟨queue, waiting, done, finalResult, delivered⟩ := stream
  cases queue with
  | cons event queue =>
    obtain rfl : waiting = [] := by
      by_contra hne
      exact absurd (hsound.idle hne) (cons_ne_nil _ _)
    refine ⟨⟨fun hne => absurd rfl hne, fun other hend => ?_⟩, by simp [EventStream.next, heard], ?_, rfl,
      Option.or_none.symm⟩
    · rcases mem_append.mp hend with hold | hnew
      · exact absurd (hsound.ended other hold).2 (cons_ne_nil _ _)
      · cases mem_singleton.mp hnew
    · simp [EventStream.next, events]
  | nil =>
    cases done with
    | true =>
      refine ⟨⟨fun _ => rfl, fun _ _ => ⟨rfl, rfl⟩⟩, ?_, by simp [EventStream.next, events], rfl, Option.or_none.symm⟩
      simpa [EventStream.next, heard, perm_append_left_iff] using (perm_append_singleton consumer waiting).symm
    | false =>
      exact ⟨⟨fun _ => rfl, hsound.ended⟩, by simp [EventStream.next, heard], (append_nil _).symm, rfl, Option.or_none.symm⟩

theorem foldl_spec (calls : List (Call T R κ)) : ∃ done,
    stream.Gains (calls.foldl (step isComplete extractResult) stream)
      (if stream.done then [] else published isComplete calls) (asked calls) done
      (if stream.done then endResult calls else outcome isComplete extractResult calls) := by
  induction calls generalizing stream with
  | nil => exact ⟨_, hsound, by simp [asked], by simp [published], rfl, by simp [endResult, outcome]⟩
  | cons call calls ih =>
    have hstep {after : EventStream T R κ} {more : List T} {consumers : List κ} {done : Bool}
        {result : Option R} (hgains : stream.Gains after more consumers done result) : ∃ last,
          stream.Gains (calls.foldl (step isComplete extractResult) after)
            (more ++ if done then [] else published isComplete calls) (consumers ++ asked calls) last
            (result.or (if done then endResult calls else outcome isComplete extractResult calls)) := by
      obtain ⟨last, hrun⟩ := ih hgains.sound
      have hresult := hrun.result
      refine ⟨last, hrun.sound, ?_, ?_, hrun.done, ?_⟩
      · rw [← append_assoc]
        exact hrun.heard.trans (hgains.heard.append_right _)
      · rw [hrun.events, hgains.events, hgains.done, append_assoc]
      · rw [hresult, hgains.result, hgains.done, Option.or_assoc]
    cases call with
    | push event =>
      cases hdone : stream.done with
      | true =>
        have hpush : stream.push isComplete extractResult event = stream := by rw [EventStream.push, hdone, if_pos rfl]
        rw [foldl_cons, step, hpush]
        simpa [hdone, endResult, asked] using ih hsound
      | false =>
        have hlast := hstep (hsound.push isComplete extractResult hdone event)
        cases hcomplete : isComplete event <;> simpa [step, published, outcome, asked, hcomplete] using hlast
    | finish result =>
      have hlast := hstep (hsound.finish result)
      cases hdone : stream.done <;> simpa [step, published, outcome, endResult, asked, hdone] using hlast
    | next consumer =>
      have hlast := hstep (hsound.next consumer)
      cases hdone : stream.done <;> simpa [step, published, outcome, endResult, asked, hdone] using hlast

end

/-- Each event up to the one that completes the stream goes to one iterator, in the order in which it was pushed,
and no iterator learns of the end before. -/
theorem stream_delivers (calls : List (Call T R κ)) :
    (run isComplete extractResult calls).events ++ (run isComplete extractResult calls).queue =
        published isComplete calls ∧
      (∀ consumer, (consumer, none) ∈ (run isComplete extractResult calls).delivered →
        (run isComplete extractResult calls).events = published isComplete calls) ∧
      (run isComplete extractResult calls).finalResult = outcome isComplete extractResult calls := by
  obtain ⟨_, hsound, _, hevents, _, hresult⟩ := foldl_spec isComplete extractResult Sound.initial calls
  refine ⟨hevents, fun consumer hend => ?_, hresult⟩
  have hqueue := (hsound.ended consumer hend).2
  rw [← append_nil (events _), ← hqueue]
  exact hevents

/-- The stream was ended. -/
def Ended (stream : EventStream T R κ) : Prop := stream.done = true ∧ stream.waiting = []

theorem Ended.step (hended : stream.Ended) (call : Call T R κ) : (step isComplete extractResult stream call).Ended := by
  obtain ⟨queue, waiting, done, finalResult, delivered⟩ := stream
  obtain ⟨rfl, rfl⟩ := hended
  cases call with
  | next consumer => cases queue <;> exact ⟨rfl, rfl⟩
  | _ => exact ⟨rfl, rfl⟩

/-- Each time an iterator goes on it is answered once or waits, and nobody waits when the stream was ended. -/
theorem iterators_answered (calls : List (Call T R κ)) :
    (run isComplete extractResult calls).heard ~ asked calls ∧
      ((∃ result, .finish result ∈ calls) → (run isComplete extractResult calls).waiting = []) := by
  obtain ⟨_, _, hheard, _⟩ := foldl_spec isComplete extractResult Sound.initial calls
  refine ⟨hheard, fun ⟨result, hmem⟩ => ?_⟩
  obtain ⟨before, after, rfl⟩ := append_of_mem hmem
  rw [run, foldl_append, foldl_cons]
  suffices hended : Ended _ from hended.2
  exact foldlRecOn after _ ⟨rfl, rfl⟩ fun _ hended call _ => hended.step isComplete extractResult call

end EventStream

end PiRp

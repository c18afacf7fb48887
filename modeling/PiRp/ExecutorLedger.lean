import PiRp.ExecutorFrames
import PiRp.JsMapCount

/-! The commands of an executor bridge. The counters say how many commands are pending, and a command that is
settled was pending until then, so that none is settled twice. -/

namespace PiRp.Executor

open List Option JsMap Bridge

variable {options : Options} {bridge : Bridge} {transport : Nat}

/-! ### Counting pending commands -/

/-- The pending commands with the mark. -/
def pendingCount (pending : JsMap CommandId Bool) (reserved : Bool) : Nat :=
  pending.count fun _ mark => mark = reserved

theorem pendingCount_set {pending : JsMap CommandId Bool} {id : CommandId} (hnew : pending.get? id = none)
    (reserved mark : Bool) : pendingCount (pending.set id reserved) mark =
      if reserved = mark then pendingCount pending mark + 1 else pendingCount pending mark := by
  rw [pendingCount, count_set_of_none hnew]
  simp only [decide_eq_true_eq]
  split_ifs
  · rfl
  · rfl

theorem pendingCount_delete {pending : JsMap CommandId Bool} {id : CommandId} {reserved : Bool}
    (hget : pending.get? id = some reserved) (mark : Bool) : pendingCount pending mark =
      pendingCount (pending.delete id) mark + if reserved = mark then 1 else 0 := by
  rw [pendingCount, count_eq_delete hget]
  simp only [decide_eq_true_eq]
  rfl

/-! ### The ledger -/

/-- What is known of the commands that have been issued. -/
structure Ledger (bridge : Bridge) : Prop where
  ordinary : bridge.core.ordinaryPending = pendingCount bridge.core.pending false
  abort : pendingCount bridge.core.pending true = if bridge.core.abortPending then 1 else 0
  issued : ∀ id reserved, bridge.core.pending.get? id = some reserved → bridge.issued.get? id = some reserved
  settled : ∀ id ∈ bridge.settlements.map Prod.fst,
    bridge.issued.has id = true ∧ bridge.core.pending.get? id = none
  once : (bridge.settlements.map Prod.fst).Nodup

theorem ledger_initial : Ledger .initial := ⟨rfl, rfl, nofun, nofun, nodup_nil⟩

theorem Ledger.others (hledg : Ledger bridge) {next : Bridge} (hpend : next.core.pending = bridge.core.pending)
    (hord : next.core.ordinaryPending = bridge.core.ordinaryPending)
    (habort : next.core.abortPending = bridge.core.abortPending) (hiss : next.issued = bridge.issued)
    (hset : next.settlements = bridge.settlements) : Ledger next where
  ordinary := by
    rw [hord, hpend]
    exact hledg.ordinary
  abort := by
    rw [habort, hpend]
    exact hledg.abort
  issued := by
    rw [hiss, hpend]
    exact hledg.issued
  settled := by
    rw [hiss, hpend, hset]
    exact hledg.settled
  once := by
    rw [hset]
    exact hledg.once

theorem foldl_settle_settlements (ids : List CommandId) (result : Except Failure Transcript.SessionSnapshot)
    (bridge : Bridge) : (ids.foldl (fun bridge id => bridge.settle id result) bridge).settlements.map Prod.fst =
      ids.reverse ++ bridge.settlements.map Prod.fst := by
  induction ids generalizing bridge with
  | nil => rfl
  | cons id ids ih =>
    rw [foldl_cons, ih, reverse_cons, append_assoc]
    rfl

theorem settlements_clearTimer (timer : Option Timer) :
    (bridge.clearTimer timer).settlements = bridge.settlements := by
  cases timer <;> rfl

theorem issued_fail (bridge : Bridge) (error : Failure) : (bridge.failGeneration error).issued = bridge.issued := by
  obtain ⟨_, _, _, heq⟩ := bridge.failGeneration_eq error
  rw [heq]

theorem core_fail (bridge : Bridge) (error : Failure) :
    (bridge.failGeneration error).core = Bridge.Core.failed bridge.core := by
  obtain ⟨_, _, _, heq⟩ := bridge.failGeneration_eq error
  rw [heq]

theorem settlements_fail (bridge : Bridge) (error : Failure) :
    (bridge.failGeneration error).settlements.map Prod.fst =
      bridge.core.pending.keys.reverse ++ bridge.settlements.map Prod.fst := by
  have hsettle := foldl_settle_settlements bridge.core.pending.keys (.error error)
    { (bridge.clearTimer bridge.helloTimer).clearTimer bridge.bootstrapTimer with
      helloTimer := none, bootstrapTimer := none }
  rw [settlements_clearTimer, settlements_clearTimer] at hsettle
  rw [← hsettle, failGeneration]
  cases bridge.core.writer with
  | none => rfl
  | some transport => rfl

theorem Ledger.fail (hledg : Ledger bridge) (error : Failure) : Ledger (bridge.failGeneration error) := by
  have hget : ∀ id ∈ bridge.core.pending.keys, ∃ reserved, bridge.core.pending.get? id = some reserved :=
    fun id hid => isSome_iff_exists.mp (JsMap.has_iff.mpr hid)
  refine ⟨?_, ?_, ?_, ?_, ?_⟩
  · rw [core_fail]
    rfl
  · rw [core_fail]
    rfl
  · rw [core_fail]
    exact nofun
  · intro id hid
    rw [core_fail, issued_fail]
    refine ⟨?_, rfl⟩
    rw [settlements_fail, mem_append, mem_reverse] at hid
    rcases hid with hpend | hsett
    · obtain ⟨reserved, hresd⟩ := hget id hpend
      exact has_of_get? (hledg.issued id reserved hresd)
    · exact (hledg.settled id hsett).1
  · rw [settlements_fail]
    refine nodup_append'.mpr ⟨nodup_reverse.mpr bridge.core.pending.nodup, hledg.once, ?_⟩
    intro id hpend hsett
    obtain ⟨reserved, hresd⟩ := hget id (mem_reverse.mp hpend)
    exact some_ne_none reserved (hresd.symm.trans (hledg.settled id hsett).2)

theorem Ledger.settle (hledg : Ledger bridge) {id : CommandId} {reserved : Bool}
    (hget : bridge.core.pending.get? id = some reserved) (result : Except Failure Transcript.SessionSnapshot) :
    Ledger ((bridge.takePending id reserved).settle id result) := by
  have hord := pendingCount_delete hget false
  have habort := pendingCount_delete hget true
  have hleft : ∀ other, (bridge.core.pending.delete id).get? other =
      if other = id then none else bridge.core.pending.get? other :=
    get?_delete bridge.core.pending id
  refine ⟨?_, ?_, ?_, ?_, ?_⟩
  · show (if reserved then bridge.core.ordinaryPending else bridge.core.ordinaryPending - 1) =
      pendingCount (bridge.core.pending.delete id) false
    rw [hledg.ordinary, hord]
    cases reserved with
    | true => rfl
    | false =>
      rw [if_neg Bool.false_ne_true, if_pos rfl]
      omega
  · show pendingCount (bridge.core.pending.delete id) true =
      if (if reserved then false else bridge.core.abortPending) then 1 else 0
    rw [hledg.abort] at habort
    cases reserved with
    | true =>
      rw [if_pos rfl] at habort
      show _ = 0
      split_ifs at habort
      omega
    | false => exact habort.symm
  · intro other mark hmark
    have hmark := (hleft other).symm.trans hmark
    split_ifs at hmark
    exact hledg.issued other mark hmark
  · intro other hother
    show bridge.issued.has other = true ∧ (bridge.core.pending.delete id).get? other = none
    rw [hleft other]
    rcases mem_cons.mp hother with rfl | hsett
    · exact ⟨has_of_get? (hledg.issued other reserved hget), if_pos rfl⟩
    · obtain ⟨hiss, hnone⟩ := hledg.settled other hsett
      rw [hnone]
      exact ⟨hiss, ite_self none⟩
  · refine nodup_cons.mpr ⟨fun hsett => ?_, hledg.once⟩
    exact some_ne_none reserved (hget.symm.trans (hledg.settled id hsett).2)

theorem Ledger.issue (hledg : Ledger bridge) (hfiled : Filed options bridge) (generation : Nat) {reserved : Bool}
    (hfree : reserved = true → bridge.core.abortPending = false) :
    Ledger (bridge.addPending ⟨generation, bridge.nextCommand⟩ reserved) := by
  have hunis : bridge.issued.get? ⟨generation, bridge.nextCommand⟩ = none := by
    by_contra hsome
    obtain ⟨mark, hget⟩ := ne_none_iff_exists'.mp hsome
    exact Nat.lt_irrefl _ (hfiled.fresh _ mark hget)
  have hnew : bridge.core.pending.get? ⟨generation, bridge.nextCommand⟩ = none := by
    by_contra hsome
    obtain ⟨mark, hget⟩ := ne_none_iff_exists'.mp hsome
    exact some_ne_none mark ((hledg.issued _ mark hget).symm.trans hunis)
  have hpend := get?_set bridge.core.pending ⟨generation, bridge.nextCommand⟩ reserved
  have hiss := get?_set bridge.issued ⟨generation, bridge.nextCommand⟩ reserved
  have hcount := pendingCount_set hnew reserved
  refine ⟨?_, ?_, ?_, ?_, hledg.once⟩
  · show (if reserved then bridge.core.ordinaryPending else bridge.core.ordinaryPending + 1) =
      pendingCount (bridge.core.pending.set _ reserved) false
    rw [hcount, hledg.ordinary]
    cases reserved with
    | true => rfl
    | false => rfl
  · show pendingCount (bridge.core.pending.set _ reserved) true =
      if (if reserved then true else bridge.core.abortPending) then 1 else 0
    rw [hcount, hledg.abort]
    cases reserved with
    | true =>
      rw [hfree rfl]
      rfl
    | false => rfl
  · intro other mark hmark
    have hmark := (hpend other).symm.trans hmark
    refine (hiss other).trans ?_
    split_ifs at hmark ⊢
    · exact hmark
    · exact hledg.issued other mark hmark
  · intro other hother
    obtain ⟨hold, hnone⟩ := hledg.settled other hother
    have hother : other ≠ ⟨generation, bridge.nextCommand⟩ := by
      rintro rfl
      rw [has, hunis] at hold
      exact Bool.false_ne_true hold
    exact ⟨JsMap.has_set.mpr (.inr hold), (hpend other).trans ((if_neg hother).trans hnone)⟩

/-! ### Steps -/

theorem Ledger.send (hledg : Ledger bridge) (item : Outbound) : Ledger (sendOn options bridge transport item) := by
  obtain ⟨writers, reactions, heq⟩ := sendOn_eq options bridge transport item
  rw [heq]
  exact hledg.others rfl rfl rfl rfl rfl

theorem Ledger.clearTimer (hledg : Ledger bridge) (timer : Option Timer) : Ledger (bridge.clearTimer timer) := by
  cases timer with
  | none => exact hledg
  | some timer => exact hledg.others rfl rfl rfl rfl rfl

section LedgerSteps

variable [Encoding]

section

variable (hledg : Ledger bridge)

include hledg

theorem Ledger.sendControl (message : HostToExecutor) (purpose : Purpose) :
    Ledger (bridge.sendControl options transport message purpose) := by
  obtain ⟨writers, reactions, heq⟩ := sendControl_eq options bridge transport message purpose
  rw [heq]
  exact hledg.others rfl rfl rfl rfl rfl

/-- A command that is taken is settled with the mark it is pending with. -/
theorem Ledger.moves {greets : Prop} {ids : CommandId → Bool → Prop} {next : Bridge}
    (hmoves : Moves options transport greets ids bridge next)
    (hids : ∀ id reserved mark, ids id reserved → bridge.core.pending.get? id = some mark → mark = reserved) :
    Ledger next := by
  induction hmoves with
  | kept => exact hledg
  | stopped timer => exact hledg.others rfl rfl rfl rfl rfl
  | disposed => exact hledg.others rfl rfl rfl rfl rfl
  | taken hget hid result =>
    obtain rfl := hids _ _ _ hid hget
    exact hledg.settle hget result
  | greeted hgreet hcur hnew generationId =>
    apply Ledger.sendControl
    exact hledg.others rfl rfl rfl (issued_clearTimer _) (settlements_clearTimer _)
  | failed hnext error ih => exact ih.fail error
  | answered hnext message hpur ih => exact ih.sendControl message _
  | changed hnext hcore ih => exact ih.others hcore.pending hcore.ordinaryPending hcore.abortPending rfl rfl
  | cleared hnext ih => exact (ih.clearTimer _).others rfl rfl rfl rfl rfl

end

variable [JsonText.NumberText]

theorem Ledger.messages (hledg : Ledger bridge) (messages : List ExecutorToHost) :
    Ledger (messages.foldl (receiveMessage options transport) bridge) := by
  induction messages generalizing bridge with
  | nil => exact hledg
  | cons message messages ih =>
    refine ih (hledg.moves (moves_message options transport _ message) fun id reserved mark hid hget => ?_)
    exact some.inj (hget.symm.trans hid.2)

omit [JsonText.NumberText] in
theorem Ledger.command (hledg : Ledger bridge) (hfiled : Filed options bridge) (command : RuntimeCommand) :
    Ledger (bridge.command options command) := by
  unfold Bridge.command
  split
  · next hall _ _ =>
    unfold issueCommand
    dsimp only
    split
    · exact hledg.others rfl rfl rfl rfl rfl
    · apply Ledger.send
      apply hledg.issue hfiled
      intro hresd
      unfold commandError at hall
      split_ifs at hall with hlost hbusy
      rw [hresd, Bool.true_and, Bool.not_eq_true] at hbusy
      exact hbusy
  · exact hledg

theorem Ledger.step (hledg : Ledger bridge) (hfiled : Filed options bridge) (event : Event) :
    Ledger (step options bridge event) := by
  cases event with
  | attachTransport =>
    show Ledger bridge.attachTransport
    unfold Bridge.attachTransport
    split_ifs
    · exact hledg
    · exact (hledg.fail _).others rfl rfl rfl rfl rfl
    · exact hledg.others rfl rfl rfl rfl rfl
  | data transport oversized messages malformed =>
    obtain ⟨_, rfl | ⟨-, rfl⟩, hmoves⟩ := moves_data options transport bridge oversized messages malformed
    · exact hledg.moves hmoves nofun
    · exact (hledg.messages messages).moves hmoves nofun
  | close transport => exact hledg.moves (moves_end options transport bridge trivial) nofun
  | error transport error => exact hledg.moves (moves_end options transport bridge trivial) nofun
  | timeout timer => exact hledg.moves (moves_end options 0 bridge trivial) nofun
  | settled transport error =>
    cases error with
    | none => exact hledg.others rfl rfl rfl rfl rfl
    | some error => exact hledg.others rfl rfl rfl rfl rfl
  | reaction index =>
    show Ledger (bridge.onReaction index)
    unfold onReaction
    split
    · exact hledg
    · next reaction hreac =>
      have hrest : Ledger { bridge with reactions := bridge.reactions.eraseIdx index } :=
        hledg.others rfl rfl rfl rfl rfl
      refine hrest.moves (moves_outcome options 0 _ _) fun id reserved mark hid hget => ?_
      have hiss := (hfiled.due reaction (mem_of_getElem? hreac) id reserved hid.1).2
      exact some.inj ((hledg.issued id mark hget).symm.trans hiss)
  | command command => exact hledg.command hfiled command
  | dispose => exact hledg.moves (moves_end options 0 bridge trivial) nofun

end LedgerSteps

end PiRp.Executor

import PiRp.EventRun
import PiRp.ServerSnapshots

/-! Convergence of the server snapshots. Every ready client has, or is about to get, a snapshot with the
revision of the publisher; and once the last change is announced, whatever has that revision was read after
the change. The second fails when a broadcast is skipped because no connection is ready, as the revision then
stays what it was before the change. -/

namespace PiRp.Server

open List JsMap

open Client (ServerSnapshot ClientState)

/-- The lists the call has read are these. -/
def SnapshotCall.Agrees (call : SnapshotCall) (sessions models : List JsStr) : Prop :=
  (∀ read ∈ call.sessions, read = sessions) ∧ ∀ read ∈ call.models, read = models

instance (call : SnapshotCall) (sessions models : List JsStr) : Decidable (call.Agrees sessions models) :=
  inferInstanceAs (Decidable (_ ∧ _))

def HandshakeTask.call : HandshakeTask → Option SnapshotCall
  | .reading call | .rereading call => some call
  | .greeting _ | .updating => none

/-- The task is before the connection is ready. -/
def HandshakeTask.early : HandshakeTask → Bool
  | .reading _ | .greeting _ => true
  | .rereading _ | .updating => false

namespace Connection

/-- What has been read for the connection and is not overtaken. -/
def views (connection : Connection) : List SnapshotCall :=
  connection.inbox.map SnapshotCall.ofSnapshot ++ connection.client.snapshot.toList.map SnapshotCall.ofSnapshot ++
    (connection.handshake.bind HandshakeTask.call).toList

def Live (connection : Connection) : Prop := connection.stage ≠ .closing ∧ connection.closed = false

instance (connection : Connection) : Decidable connection.Live := inferInstanceAs (Decidable (_ ∧ _))

end Connection

/-- No broadcast is skipped, as the last of the queue and with every change announced, while the handshake of a
connection has read a list that has changed under the revision that stays. -/
def Event.Timely (state : ServerState) : Event → Prop
  | .performBroadcast => state.queued = 1 → state.announced = true → state.running = none →
      state.readyConnections = [] → ∀ entry ∈ state.connections.entries, entry.2.Live →
        ∀ view ∈ entry.2.views, view.revision = state.revision → view.Agrees state.sessions state.models
  | _ => True

instance (state : ServerState) : DecidablePred (Event.Timely state) := fun event =>
  match event with
  | .performBroadcast => inferInstanceAs (Decidable (_ → _ → _ → _ → _))
  | .changeSessions _ | .changeModels _ | .broadcast | .answerBroadcast | .resumeBroadcast | .accept | .hello _
  | .answer _ | .finishHandshake _ | .rejectHandshake _ | .failProtocol _ | .close _ | .disconnect _
  | .deliver _ => isTrue trivial

/-- No handshake, broadcast or message is in flight, and every change has been followed by a broadcast. -/
structure ServerState.Quiescent (state : ServerState) : Prop where
  announced : state.announced = true
  queued : state.queued = 0
  running : state.running = none
  settled : ∀ id connection, state.connections.get? id = some connection →
    connection.handshake = none ∧ connection.inbox = []

/-! ### The invariant -/

/-- What has the revision of the publisher agrees with the lists, once the last change is announced. -/
def ServerState.Current (state : ServerState) (call : SnapshotCall) : Prop :=
  call.revision ≤ state.revision ∧ (state.announced = true → state.queued = 0 → call.revision = state.revision →
    call.Agrees state.sessions state.models)

/-- Before it is ready, a connection is sent the hello and nothing else. -/
def Connection.Opening (connection : Connection) : Prop :=
  match connection.handshake with
  | some (.greeting snapshot) =>
    connection.inbox = [snapshot] ∧ connection.client.snapshot = none ∨
      connection.inbox = [] ∧ connection.client.snapshot = some snapshot
  | _ => connection.inbox = [] ∧ connection.client.snapshot = none

/-- The client has a snapshot of the revision, or one is on the way or being read. -/
def Connection.Covered (connection : Connection) (revision : Nat) : Prop :=
  ∃ view ∈ connection.views, view.revision = revision

/-- A connection in a state; `targeted` when the running broadcast has yet to send to it. -/
structure Connection.Sound (connection : Connection) (state : ServerState) (targeted : Prop) : Prop where
  current : connection.Live → ∀ view ∈ connection.views, state.Current view
  task : connection.Live → ∀ task ∈ connection.handshake,
    connection.stage = if task.early then .handshaking else .ready
  opening : connection.Live → connection.stage ≠ .ready → connection.Opening
  covered : connection.Live → connection.stage = .ready → targeted ∨ connection.Covered state.revision
  targeted : targeted → connection.Live → connection.stage = .ready

def ServerState.targets (state : ServerState) : List Nat :=
  match state.running with
  | none => []
  | some running => running.targets

structure ServerState.Sound (state : ServerState) : Prop where
  ids : ∀ id, state.next ≤ id → state.connections.get? id = none ∧ id ∉ state.targets
  running : ∀ running ∈ state.running, running.call.revision = state.revision ∧ state.Current running.call
  connections : ∀ id connection, state.connections.get? id = some connection →
    connection.Sound state (id ∈ state.targets)

variable {state next : ServerState} {connection : Connection} {snapshot : ServerSnapshot} {targeted : Prop}

namespace SnapshotCall

variable {call : SnapshotCall}

theorem ofSnapshot_of_snapshot? (hread : call.snapshot? = some snapshot) : ofSnapshot snapshot = call := by
  obtain ⟨revision, sessions, models⟩ := call
  cases sessions with
  | none => exact absurd hread nofun
  | some sessions =>
    cases models with
    | none => exact absurd hread nofun
    | some models =>
      obtain rfl := Option.some.inj hread
      rfl

theorem agrees_start (revision : Nat) (sessions models : List JsStr) : (start revision).Agrees sessions models :=
  ⟨nofun, nofun⟩

theorem Agrees.answer {sessions models : List JsStr} (hagr : call.Agrees sessions models) :
    (call.answer sessions models).Agrees sessions models := by
  obtain ⟨hses, hmodels⟩ := hagr
  unfold SnapshotCall.answer
  split
  · refine ⟨?_, hmodels⟩
    rintro read ⟨⟩
    rfl
  · refine ⟨hses, ?_⟩
    rintro read ⟨⟩
    rfl
  · exact ⟨hses, hmodels⟩

theorem Agrees.answerModelsFirst {sessions models : List JsStr} (hagr : call.Agrees sessions models) :
    (call.answerModelsFirst sessions models).Agrees sessions models := by
  obtain ⟨hses, hmodels⟩ := hagr
  unfold SnapshotCall.answerModelsFirst
  split
  · refine ⟨hses, ?_⟩
    rintro read ⟨⟩
    rfl
  · refine ⟨?_, hmodels⟩
    rintro read ⟨⟩
    rfl
  · exact ⟨hses, hmodels⟩

@[simp] theorem revision_answer (call : SnapshotCall) (sessions models : List JsStr) :
    (call.answer sessions models).revision = call.revision := by
  unfold answer
  split
  · rfl
  · rfl
  · rfl

@[simp] theorem revision_answerModelsFirst (call : SnapshotCall) (sessions models : List JsStr) :
    (call.answerModelsFirst sessions models).revision = call.revision := by
  unfold answerModelsFirst
  split
  · rfl
  · rfl
  · rfl

end SnapshotCall

namespace ServerState.Current

variable {call : SnapshotCall}

variable (hcur : state.Current call)

include hcur

theorem answer : state.Current (call.answer state.sessions state.models) := by
  refine ⟨?_, fun hann hque hrev => ?_⟩
  · rw [SnapshotCall.revision_answer]
    exact hcur.1
  · rw [SnapshotCall.revision_answer] at hrev
    exact (hcur.2 hann hque hrev).answer

theorem answerModelsFirst :
    state.Current (call.answerModelsFirst state.sessions state.models) := by
  refine ⟨?_, fun hann hque hrev => ?_⟩
  · rw [SnapshotCall.revision_answerModelsFirst]
    exact hcur.1
  · rw [SnapshotCall.revision_answerModelsFirst] at hrev
    exact (hcur.2 hann hque hrev).answerModelsFirst

omit hcur in
theorem start (state : ServerState) : state.Current (.start state.revision) :=
  ⟨le_refl _, fun _ _ _ => SnapshotCall.agrees_start _ _ _⟩

theorem of_pending (hrev : next.revision = state.revision)
    (hpend : next.announced = true → next.queued ≠ 0) : next.Current call := by
  refine ⟨?_, fun hann hque => absurd hque (hpend hann)⟩
  rw [hrev]
  exact hcur.1

end ServerState.Current

/-! ### One connection -/

theorem applyServerSnapshot_cases (client : ClientState) (snapshot : ServerSnapshot) :
    (client.applyServerSnapshot snapshot).snapshot = some snapshot ∧
        (∀ held ∈ client.snapshot, held.revision ≤ snapshot.revision) ∨
      (client.applyServerSnapshot snapshot).snapshot = client.snapshot ∧
        ∃ held ∈ client.snapshot, snapshot.revision < held.revision := by
  unfold ClientState.applyServerSnapshot
  cases hheld : client.snapshot with
  | none => exact .inl ⟨rfl, nofun⟩
  | some held =>
    dsimp only
    split_ifs with hold
    · exact .inr ⟨hheld, held, rfl, hold⟩
    · refine .inl ⟨rfl, ?_⟩
      rintro _ ⟨⟩
      exact Nat.le_of_not_lt hold

namespace Connection

theorem mem_views {view : SnapshotCall} : view ∈ connection.views ↔
    (∃ snapshot ∈ connection.inbox, .ofSnapshot snapshot = view) ∨
      (∃ snapshot, connection.client.snapshot = some snapshot ∧ .ofSnapshot snapshot = view) ∨
      ∃ task, connection.handshake = some task ∧ task.call = some view := by
  unfold views
  rw [mem_append, mem_append, mem_map, or_assoc]
  refine or_congr_right (or_congr ?_ ?_)
  · rw [mem_map]
    exact exists_congr fun snapshot => and_congr_left fun _ => Option.mem_toList
  · rw [Option.mem_toList, Option.bind_eq_some_iff]

theorem inbox_view (hmem : snapshot ∈ connection.inbox) : .ofSnapshot snapshot ∈ connection.views :=
  mem_views.mpr (.inl ⟨snapshot, hmem, rfl⟩)

theorem client_view (hclient : connection.client.snapshot = some snapshot) :
    .ofSnapshot snapshot ∈ connection.views :=
  mem_views.mpr (.inr (.inl ⟨snapshot, hclient, rfl⟩))

namespace Sound

theorem of_not_live (hdead : ¬connection.Live) : connection.Sound state targeted where
  current hlive := absurd hlive hdead
  task hlive := absurd hlive hdead
  opening hlive := absurd hlive hdead
  covered hlive := absurd hlive hdead
  targeted _ hlive := absurd hlive hdead

theorem close (connection : Connection) : connection.close.Sound state targeted :=
  of_not_live fun hlive => Bool.false_ne_true hlive.2.symm

theorem failProtocol (connection : Connection) : connection.failProtocol.Sound state targeted :=
  of_not_live fun hlive => hlive.1 rfl

theorem rejectHandshake (connection : Connection) : connection.rejectHandshake.Sound state targeted :=
  of_not_live fun hlive => hlive.1 rfl

theorem accepted (state : ServerState) : accepted.Sound state False where
  current _ _ hview := absurd hview not_mem_nil
  task _ := nofun
  opening _ _ := ⟨rfl, rfl⟩
  covered _ := nofun
  targeted := nofun

section

variable (hsound : connection.Sound state targeted)

include hsound

theorem of_state (hrev : next.revision = state.revision)
    (hcur : connection.Live → ∀ view ∈ connection.views, next.Current view) : connection.Sound next targeted where
  current := hcur
  task := hsound.task
  opening := hsound.opening
  covered := by
    rw [hrev]
    exact hsound.covered
  targeted := hsound.targeted

omit hsound in
theorem of_live (hsound : connection.Live → connection.Sound state targeted) : connection.Sound state targeted := by
  by_cases hlive : connection.Live
  · exact hsound hlive
  · exact of_not_live hlive

theorem withTask (hlive : connection.Live) {stage : ConnectionStage}
    {task : Option HandshakeTask} (hviews : ∀ found ∈ task, ∀ call ∈ found.call, state.Current call)
    (htask : ∀ found ∈ task, stage = if found.early then .handshaking else .ready)
    (hopening : stage ≠ .ready → { connection with stage, handshake := task }.Opening)
    (hcov : stage = .ready → targeted ∨ { connection with stage, handshake := task }.Covered state.revision)
    (htarg : connection.stage = .ready → stage = .ready) :
    ({ connection with stage, handshake := task } : Connection).Sound state targeted where
  current _ view hview := by
    rcases mem_views.mp hview with hinbox | hclient | ⟨found, hfound, hcall⟩
    · exact hsound.current hlive view (mem_views.mpr (.inl hinbox))
    · exact hsound.current hlive view (mem_views.mpr (.inr (.inl hclient)))
    · exact hviews found hfound view hcall
  task _ := htask
  opening _ := hopening
  covered _ := hcov
  targeted ht _ := htarg (hsound.targeted ht hlive)

theorem handshake_eq_none (hlive : connection.Live)
    (hstage : connection.stage = .awaitingHello) : connection.handshake = none := by
  refine Option.eq_none_iff_forall_not_mem.mpr fun task htask => ?_
  have hfits := hsound.task hlive task htask
  rw [hstage] at hfits
  split_ifs at hfits

theorem dispatchHello : (connection.dispatchHello state.revision).Sound state targeted := by
  unfold Connection.dispatchHello
  split_ifs with hstage
  · refine of_live fun hnow => ?_
    have hlive : connection.Live := ⟨by rw [hstage]; exact nofun, hnow.2⟩
    have hopening := hsound.opening hlive (by rw [hstage]; exact nofun)
    unfold Opening at hopening
    rw [hsound.handshake_eq_none hlive hstage] at hopening
    apply hsound.withTask hlive
    · rintro _ ⟨⟩ _ ⟨⟩
      exact .start state
    · rintro _ ⟨⟩
      rfl
    · exact fun _ => hopening
    · exact nofun
    · rw [hstage]
      exact nofun
  · exact hsound

theorem answer : (connection.answer state.sessions state.models).Sound state targeted := by
  unfold Connection.answer
  split
  · next call hshake =>
    refine of_live fun hlive => ?_
    have hstage := hsound.task hlive _ hshake
    apply hsound.withTask hlive
    · rintro _ ⟨⟩ _ ⟨⟩
      exact (hsound.current hlive call (mem_views.mpr (.inr (.inr ⟨_, hshake, rfl⟩)))).answer
    · rintro _ ⟨⟩
      exact hstage
    · intro hready
      have hopening := hsound.opening hlive hready
      unfold Opening at hopening
      rw [hshake] at hopening
      exact hopening
    · intro hready
      exact absurd (hready.symm.trans hstage) nofun
    · exact id
  · next call hshake =>
    refine of_live fun hlive => ?_
    have hstage := hsound.task hlive _ hshake
    apply hsound.withTask hlive
    · rintro _ ⟨⟩ _ ⟨⟩
      exact (hsound.current hlive call (mem_views.mpr (.inr (.inr ⟨_, hshake, rfl⟩)))).answer
    · rintro _ ⟨⟩
      exact hstage
    · exact fun hready => absurd hstage hready
    · intro hready
      refine (hsound.covered hlive hready).imp_right ?_
      rintro ⟨view, hview, hrev⟩
      rcases mem_views.mp hview with hinbox | hclient | ⟨found, hfound, hcall⟩
      · exact ⟨view, mem_views.mpr (.inl hinbox), hrev⟩
      · exact ⟨view, mem_views.mpr (.inr (.inl hclient)), hrev⟩
      · obtain rfl := Option.some.inj (hshake.symm.trans hfound)
        obtain rfl := Option.some.inj hcall
        refine ⟨_, mem_views.mpr (.inr (.inr ⟨_, rfl, rfl⟩)), ?_⟩
        rw [SnapshotCall.revision_answer, hrev]
    · exact id
  · exact hsound

theorem deliver : connection.deliver.Sound state targeted := by
  unfold Connection.deliver
  split
  · exact hsound
  · next snapshot inbox hinbox =>
    refine of_live fun hlive => ?_
    have hmem : snapshot ∈ connection.inbox := by
      rw [hinbox]
      exact mem_cons_self
    have hbef := hsound.current hlive
    have htaken := applyServerSnapshot_cases connection.client snapshot
    refine ⟨fun _ view hview => hbef view ?_, hsound.task, fun _ hready => ?_, fun _ hready => ?_,
      hsound.targeted⟩
    · rcases mem_views.mp hview with ⟨found, hfound, hview⟩ | ⟨found, hfound, hview⟩ | htask
      · refine mem_views.mpr (.inl ⟨found, ?_, hview⟩)
        rw [hinbox]
        exact mem_cons_of_mem _ hfound
      · rcases htaken with ⟨htaken, _⟩ | ⟨hkept, _⟩
        · rw [← hview, ← Option.some.inj (htaken.symm.trans hfound)]
          exact inbox_view hmem
        · rw [← hview]
          exact client_view (hkept.symm.trans hfound)
      · exact mem_views.mpr (.inr (.inr htask))
    · have hopening := hsound.opening hlive hready
      unfold Opening at hopening ⊢
      rw [hinbox] at hopening
      dsimp only
      split at hopening
      · next greeted hshake =>
        rcases hopening with ⟨hone, hclient⟩ | ⟨hnil, _⟩
        · rw [List.cons.injEq] at hone
          refine .inr ⟨hone.2, ?_⟩
          rw [← hone.1]
          rcases htaken with ⟨htaken, _⟩ | ⟨_, held, hheld, _⟩
          · exact htaken
          · exact absurd (hclient.symm.trans hheld) nofun
        · exact absurd hnil (cons_ne_nil _ _)
      · exact absurd hopening.1 (cons_ne_nil _ _)
    · refine (hsound.covered hlive hready).imp_right ?_
      rintro ⟨view, hview, hrev⟩
      have htop := (hbef _ (inbox_view hmem)).1
      rcases mem_views.mp hview with ⟨found, hfound, rfl⟩ | ⟨found, hfound, rfl⟩ | htask
      · rw [hinbox] at hfound
        rcases mem_cons.mp hfound with rfl | hrest
        · rcases htaken with ⟨htaken, _⟩ | ⟨_, held, hheld, hnewer⟩
          · exact ⟨_, client_view htaken, hrev⟩
          · have hbound := (hbef _ (client_view hheld)).1
            exact absurd (Nat.lt_of_lt_of_le hnewer hbound) (Nat.not_lt.mpr hrev.ge)
        · exact ⟨_, inbox_view hrest, hrev⟩
      · rcases htaken with ⟨htaken, hnewer⟩ | ⟨hkept, _⟩
        · exact ⟨_, client_view htaken, Nat.le_antisymm htop (hrev ▸ hnewer found hfound)⟩
        · exact ⟨_, client_view (hkept.trans hfound), hrev⟩
      · exact ⟨view, mem_views.mpr (.inr (.inr htask)), hrev⟩

theorem sendMessage (hready : connection.Live → connection.stage = .ready)
    (hcur : connection.Live → state.Current (.ofSnapshot snapshot)) {still : Prop}
    (hcovers : targeted → ¬still → snapshot.revision = state.revision) (hstill : still → targeted) :
    (connection.sendMessage snapshot).Sound state still := by
  unfold Connection.sendMessage
  split_ifs with hclos
  · exact of_not_live fun hlive => Bool.false_ne_true (hlive.2.symm.trans hclos)
  · refine of_live fun hlive => ?_
    refine ⟨fun _ view hview => ?_, hsound.task, fun _ hnot => absurd (hready hlive) hnot, fun _ _ => ?_,
      fun ht => hsound.targeted (hstill ht)⟩
    · rcases mem_views.mp hview with ⟨found, hfound, rfl⟩ | hrest
      · rcases mem_append.mp hfound with hfound | hnew
        · exact hsound.current hlive _ (inbox_view hfound)
        · rw [mem_singleton.mp hnew]
          exact hcur hlive
      · exact hsound.current hlive view (mem_views.mpr (.inr hrest))
    · have hsent : .ofSnapshot snapshot ∈
          ({ connection with inbox := connection.inbox ++ [snapshot] } : Connection).views :=
        inbox_view (mem_append_right _ (mem_singleton_self snapshot))
      rcases hsound.covered hlive (hready hlive) with ht | ⟨view, hview, hrev⟩
      · by_cases hs : still
        · exact .inl hs
        · exact .inr ⟨_, hsent, hcovers ht hs⟩
      · refine .inr ⟨view, ?_, hrev⟩
        rcases mem_views.mp hview with ⟨found, hfound, rfl⟩ | hrest
        · exact inbox_view (mem_append_left _ hfound)
        · exact mem_views.mpr (.inr hrest)

end

@[simp] theorem stage_sendMessage (connection : Connection) (snapshot : ServerSnapshot) :
    (connection.sendMessage snapshot).stage = connection.stage := by
  unfold Connection.sendMessage
  split_ifs
  · rfl
  · rfl

@[simp] theorem closed_sendMessage (connection : Connection) (snapshot : ServerSnapshot) :
    (connection.sendMessage snapshot).closed = connection.closed := by
  unfold Connection.sendMessage
  split_ifs
  · rfl
  · rfl

variable (hsound : connection.Sound state targeted)

include hsound

section

variable (hlive : connection.Live)

include hlive

theorem greet
    (hstage : connection.stage = .handshaking) (hcur : state.Current (.ofSnapshot snapshot))
    (hempty : connection.inbox = [] ∧ connection.client.snapshot = none) :
    ({ connection.sendMessage snapshot with handshake := some (.greeting snapshot) } : Connection).Sound
      state targeted := by
  have hsend : connection.sendMessage snapshot = { connection with inbox := [snapshot] } := by
    rw [Connection.sendMessage, hlive.2, if_neg Bool.false_ne_true, hempty.1]
    rfl
  rw [hsend]
  refine ⟨fun _ view hview => ?_, ?_, fun _ _ => .inl ⟨rfl, hempty.2⟩, fun _ hready => ?_, hsound.targeted⟩
  · rcases mem_views.mp hview with ⟨found, hfound, rfl⟩ | ⟨found, hfound, _⟩ | ⟨found, hfound, hcall⟩
    · rw [mem_singleton.mp hfound]
      exact hcur
    · exact absurd (hempty.2.symm.trans hfound) nofun
    · obtain rfl := Option.some.inj hfound
      exact absurd hcall nofun
  · rintro _ _ ⟨⟩
    exact hstage
  · exact absurd (hstage.symm.trans hready) nofun

theorem becomeReady
    (hshake : connection.handshake = some (.greeting snapshot)) : ({ connection with
      stage := .ready
      handshake := if snapshot.revision = state.revision then none
        else some (.rereading (.start state.revision)) } : Connection).Sound state targeted := by
  have hstage := hsound.task hlive _ hshake
  have hopening := hsound.opening hlive (by rw [hstage]; exact nofun)
  unfold Opening at hopening
  rw [hshake] at hopening
  apply hsound.withTask hlive
  · intro found hfound call hcall
    split_ifs at hfound
    · exact absurd hfound nofun
    · obtain rfl := Option.some.inj hfound
      obtain rfl := Option.some.inj hcall
      exact .start state
  · intro found hfound
    split_ifs at hfound
    · exact absurd hfound nofun
    · obtain rfl := Option.some.inj hfound
      rfl
  · exact fun hnot => absurd rfl hnot
  · refine fun _ => .inr ?_
    split_ifs with hrev
    · rcases hopening with ⟨hinbox, _⟩ | ⟨_, hclient⟩
      · exact ⟨.ofSnapshot snapshot, inbox_view (hinbox ▸ mem_singleton_self snapshot), hrev⟩
      · exact ⟨.ofSnapshot snapshot, client_view hclient, hrev⟩
    · exact ⟨.start state.revision, mem_views.mpr (.inr (.inr ⟨_, rfl, rfl⟩)), rfl⟩
  · exact fun _ => rfl

theorem update {call : SnapshotCall}
    (hshake : connection.handshake = some (.rereading call)) (hread : call.snapshot? = some snapshot) :
    ({ connection.sendMessage snapshot with handshake := some .updating } : Connection).Sound state targeted := by
  have hstage := hsound.task hlive _ hshake
  have hcall := SnapshotCall.ofSnapshot_of_snapshot? hread
  have hcur : state.Current (.ofSnapshot snapshot) := by
    rw [hcall]
    exact hsound.current hlive call (mem_views.mpr (.inr (.inr ⟨_, hshake, rfl⟩)))
  have hsent := hsound.sendMessage (fun _ => hstage) (fun _ => hcur) (fun ht hnot => absurd ht hnot) id
  have hsendMessage : connection.sendMessage snapshot =
      { connection with inbox := connection.inbox ++ [snapshot] } := by
    rw [Connection.sendMessage, hlive.2, if_neg Bool.false_ne_true]
  rw [hsendMessage] at hsent ⊢
  apply hsent.withTask hlive
  · rintro _ ⟨⟩ _ ⟨⟩
  · rintro _ ⟨⟩
    exact hstage
  · exact fun hnot => absurd hstage hnot
  · intro hready
    refine (hsound.covered hlive hready).imp_right ?_
    rintro ⟨view, hview, hrev⟩
    rcases mem_views.mp hview with ⟨found, hfound, rfl⟩ | hclient | ⟨found, hfound, hfoundCall⟩
    · exact ⟨_, inbox_view (mem_append_left _ hfound), hrev⟩
    · exact ⟨view, mem_views.mpr (.inr (.inl hclient)), hrev⟩
    · obtain rfl := Option.some.inj (hshake.symm.trans hfound)
      obtain rfl := Option.some.inj hfoundCall
      refine ⟨_, inbox_view (mem_append_right _ (mem_singleton_self snapshot)), ?_⟩
      rw [hcall]
      exact hrev
  · exact id

end

theorem finishHandshake : (connection.finishHandshake state.revision).Sound state targeted := by
  unfold Connection.finishHandshake
  split
  · exact hsound
  · next call hshake =>
    split
    · exact hsound
    · next snapshot hread =>
      split_ifs with hopen
      · have hlive : connection.Live := ⟨by rw [hopen.1]; exact nofun, hopen.2⟩
        have hopening := hsound.opening hlive (by rw [hopen.1]; exact nofun)
        unfold Opening at hopening
        rw [hshake] at hopening
        refine hsound.greet hlive hopen.1 ?_ hopening
        rw [SnapshotCall.ofSnapshot_of_snapshot? hread]
        exact hsound.current hlive call (mem_views.mpr (.inr (.inr ⟨_, hshake, rfl⟩)))
      · exact of_live fun hlive => absurd ⟨hsound.task hlive _ hshake, hlive.2⟩ hopen
  · next snapshot hshake =>
    by_cases hstage : connection.stage = .handshaking
    · rw [if_pos hstage]
      refine of_live fun hnow => ?_
      have hlive : connection.Live := ⟨by rw [hstage]; exact nofun, hnow.2⟩
      exact hsound.becomeReady hlive hshake
    · rw [if_neg hstage]
      exact of_live fun hlive => absurd (hsound.task hlive _ hshake) hstage
  · next call hshake =>
    split
    · exact hsound
    · next snapshot hread =>
      refine of_live fun hnow => ?_
      have hlive : connection.Live :=
        ⟨stage_sendMessage connection snapshot ▸ hnow.1, closed_sendMessage connection snapshot ▸ hnow.2⟩
      exact hsound.update hlive hshake hread
  · next hshake =>
    refine of_live fun hlive => ?_
    have hstage := hsound.task hlive _ hshake
    apply hsound.withTask hlive
    · exact nofun
    · exact nofun
    · exact fun hnot => absurd hstage hnot
    · intro hready
      refine (hsound.covered hlive hready).imp_right ?_
      rintro ⟨view, hview, hrev⟩
      rcases mem_views.mp hview with hinbox | hclient | ⟨found, hfound, hcall⟩
      · exact ⟨view, mem_views.mpr (.inl hinbox), hrev⟩
      · exact ⟨view, mem_views.mpr (.inr (.inl hclient)), hrev⟩
      · obtain rfl := Option.some.inj (hshake.symm.trans hfound)
        exact absurd hcall nofun
    · exact id

end Sound

end Connection

/-! ### The server -/

namespace ServerState.Sound

theorem initial (sessions models : List JsStr) : (ServerState.initial sessions models).Sound where
  ids _ _ := ⟨rfl, not_mem_nil⟩
  running := nofun
  connections := nofun

variable (hsound : state.Sound)

include hsound

theorem of_pending {sessions models : List JsStr} {announced : Bool} {queued : Nat}
    (hpend : announced = true → queued ≠ 0) :
    ({ state with sessions, models, announced, queued } : ServerState).Sound where
  ids := hsound.ids
  running running hrun :=
    ⟨(hsound.running running hrun).1, (hsound.running running hrun).2.of_pending rfl hpend⟩
  connections id connection hget :=
    (hsound.connections id connection hget).of_state rfl fun hlive view hview =>
      ((hsound.connections id connection hget).current hlive view hview).of_pending rfl hpend

theorem update (id : Nat) {change : Connection → Connection}
    (hchg : ∀ connection, connection.Sound state (id ∈ state.targets) →
      (change connection).Sound state (id ∈ state.targets)) : (state.update id change).Sound where
  ids other hother := by
    refine ⟨?_, (hsound.ids other hother).2⟩
    show (state.connections.modify id change).get? other = none
    rw [get?_modify]
    split_ifs with hid
    · rw [← hid, (hsound.ids other hother).1]
      rfl
    · exact (hsound.ids other hother).1
  running := hsound.running
  connections other connection hget := by
    have hmod : (state.connections.modify id change).get? other = some connection := hget
    rw [get?_modify] at hmod
    split_ifs at hmod with hid
    · subst hid
      obtain ⟨before, hbef, rfl⟩ := Option.map_eq_some_iff.mp hmod
      have hchan := hchg before (hsound.connections other before hbef)
      exact hchan.of_state rfl hchan.current
    · have hsame := hsound.connections other connection hmod
      exact hsame.of_state rfl hsame.current

theorem disconnect (id : Nat) : (state.disconnect id).Sound where
  ids other hother := by
    refine ⟨?_, (hsound.ids other hother).2⟩
    show (state.connections.delete id).get? other = none
    rw [get?_delete]
    split_ifs
    · rfl
    · exact (hsound.ids other hother).1
  running := hsound.running
  connections other connection hget := by
    have hdel : (state.connections.delete id).get? other = some connection := hget
    rw [get?_delete] at hdel
    split_ifs at hdel
    have hsame := hsound.connections other connection hdel
    exact hsame.of_state rfl hsame.current

theorem accept : state.accept.Sound where
  ids other hother := by
    have hlater : state.next ≤ other := Nat.le_of_succ_le hother
    refine ⟨?_, (hsound.ids other hlater).2⟩
    show (state.connections.set state.next .accepted).get? other = none
    rw [get?_set, if_neg (Nat.ne_of_gt hother)]
    exact (hsound.ids other hlater).1
  running := hsound.running
  connections other connection hget := by
    have hset : (state.connections.set state.next .accepted).get? other = some connection := hget
    rw [get?_set] at hset
    split_ifs at hset with hid
    · obtain rfl := Option.some.inj hset
      have hnew : (other ∈ state.accept.targets) = False :=
        eq_false (hsound.ids other hid.ge).2
      rw [hnew]
      exact .accepted state.accept
    · have hsame := hsound.connections other connection hset
      exact hsame.of_state rfl hsame.current

theorem answerBroadcast : state.answerBroadcast.Sound := by
  unfold ServerState.answerBroadcast
  split
  · exact hsound
  · next running hrun =>
    obtain ⟨hrev, hcur⟩ := hsound.running running hrun
    have htar : ({ state with
        running := some { running with
          call := running.call.answerModelsFirst state.sessions state.models } } : ServerState).targets =
        state.targets := by
      unfold targets
      rw [hrun]
    refine ⟨?_, ?_, ?_⟩
    · rw [htar]
      exact hsound.ids
    · rintro _ ⟨⟩
      exact ⟨(SnapshotCall.revision_answerModelsFirst _ _ _).trans hrev, hcur.answerModelsFirst⟩
    · rw [htar]
      intro id connection hget
      have hsame := hsound.connections id connection hget
      exact hsame.of_state rfl hsame.current

omit hsound in
theorem mem_readyConnections {id : Nat} : id ∈ state.readyConnections ↔
    ∃ connection, state.connections.get? id = some connection ∧ connection.stage = .ready := by
  unfold readyConnections
  rw [← has_iff, has, get?_filter, Option.isSome_filter, Option.any_eq_true]
  simp only [decide_eq_true_eq]

theorem performBroadcast (htim : Event.performBroadcast.Timely state) : state.performBroadcast.Sound := by
  unfold ServerState.performBroadcast
  split_ifs with hidle hready
  · exact hsound
  · obtain ⟨hque, hrun⟩ := not_or.mp hidle
    rw [Bool.not_eq_true, Option.isSome_eq_false_iff, Option.isNone_iff_eq_none] at hrun
    refine ⟨hsound.ids, ?_, fun id connection hget => ?_⟩
    · intro running hmem
      exact absurd (hrun.symm.trans hmem) nofun
    · have hconn := hsound.connections id connection hget
      refine hconn.of_state rfl fun hlive view hview => ?_
      refine ⟨(hconn.current hlive view hview).1, fun hann hzero hrev => ?_⟩
      have hone : state.queued = 1 := by
        have hzero : state.queued - 1 = 0 := hzero
        omega
      exact htim hone hann hrun hready (id, connection) (JsMap.get?_eq_some.mp hget) hlive view hview
        hrev
  · obtain ⟨hque, hrun⟩ := not_or.mp hidle
    refine ⟨fun id hid => ⟨(hsound.ids id hid).1, fun htgt => ?_⟩, ?_, fun id connection hget => ?_⟩
    · obtain ⟨connection, hget, _⟩ := mem_readyConnections.mp htgt
      exact absurd ((hsound.ids id hid).1.symm.trans hget) nofun
    · rintro _ ⟨⟩
      exact ⟨rfl, .start _⟩
    · have hconn := hsound.connections id connection hget
      refine ⟨fun hlive view hview => ?_, hconn.task, hconn.opening, fun _ hstage => ?_,
        fun htgt _ => ?_⟩
      · have hbound := (hconn.current hlive view hview).1
        exact ⟨Nat.le_succ_of_le hbound, fun _ _ hrev => absurd (hrev ▸ hbound) (Nat.not_succ_le_self _)⟩
      · exact .inl (mem_readyConnections.mpr ⟨connection, hget, hstage⟩)
      · obtain ⟨other, hother, hstage⟩ := mem_readyConnections.mp htgt
        rw [Option.some.inj (hget.symm.trans hother)]
        exact hstage

theorem resumeBroadcast : state.resumeBroadcast.Sound := by
  unfold ServerState.resumeBroadcast
  split
  · exact hsound
  · next running hrun =>
    obtain ⟨hrev, hcur⟩ := hsound.running running hrun
    have htar : state.targets = running.targets := by
      unfold targets
      rw [hrun]
    split
    · exact hsound
    · next hempty =>
      refine ⟨fun id hid => ⟨(hsound.ids id hid).1, not_mem_nil⟩, nofun, fun id connection hget => ?_⟩
      have hsame := hsound.connections id connection hget
      rw [htar, hempty] at hsame
      exact hsame.of_state rfl hsame.current
    · next snapshot first targets hread hfirst =>
      have hcall := SnapshotCall.ofSnapshot_of_snapshot? hread
      refine ⟨fun id hid => ⟨?_, fun htgt => ?_⟩, ?_, fun id connection hget => ?_⟩
      · show (state.connections.modify first _).get? id = none
        rw [get?_modify]
        split_ifs with hid'
        · rw [← hid', (hsound.ids id hid).1]
          rfl
        · exact (hsound.ids id hid).1
      · refine (hsound.ids id hid).2 ?_
        rw [htar, hfirst]
        exact mem_cons_of_mem _ htgt
      · rintro _ ⟨⟩
        exact ⟨hrev, hcur⟩
      · have hmod : (state.connections.modify first
            fun connection => connection.sendMessage snapshot).get? id = some connection := hget
        rw [get?_modify] at hmod
        split_ifs at hmod with hid
        · subst hid
          obtain ⟨before, hbef, rfl⟩ := Option.map_eq_some_iff.mp hmod
          have hbef := hsound.connections id before hbef
          rw [htar, hfirst] at hbef
          have hsent := hbef.sendMessage (hbef.targeted mem_cons_self)
            (fun _ => hcall ▸ hcur) (fun _ _ => (congrArg SnapshotCall.revision hcall).trans hrev)
            (mem_cons_of_mem id)
          exact hsent.of_state rfl hsent.current
        · have hsame := hsound.connections id connection hmod
          rw [htar, hfirst, mem_cons, or_iff_right hid] at hsame
          exact hsame.of_state rfl hsame.current

theorem step {event : Event} (htim : event.Timely state) : (step state event).Sound := by
  cases event with
  | changeSessions sessions => exact hsound.of_pending nofun
  | changeModels models => exact hsound.of_pending nofun
  | broadcast => exact hsound.of_pending fun _ => Nat.succ_ne_zero _
  | performBroadcast => exact hsound.performBroadcast htim
  | answerBroadcast => exact hsound.answerBroadcast
  | resumeBroadcast => exact hsound.resumeBroadcast
  | accept => exact hsound.accept
  | hello id => exact hsound.update id fun _ hconn => hconn.dispatchHello
  | answer id => exact hsound.update id fun _ hconn => hconn.answer
  | finishHandshake id => exact hsound.update id fun _ hconn => hconn.finishHandshake
  | rejectHandshake id => exact hsound.update id fun connection _ => .rejectHandshake connection
  | failProtocol id => exact hsound.update id fun connection _ => .failProtocol connection
  | close id => exact hsound.update id fun connection _ => .close connection
  | disconnect id => exact hsound.disconnect id
  | deliver id => exact hsound.update id fun _ hconn => hconn.deliver

end ServerState.Sound

theorem converged (hsound : state.Sound) (hquies : state.Quiescent) {id : Nat}
    (hget : state.connections.get? id = some connection) (hready : connection.stage = .ready)
    (hopen : connection.closed = false) : ∃ snapshot, connection.client.snapshot = some snapshot ∧
      snapshot.sessions = state.sessions ∧ snapshot.models = state.models := by
  have hconn := hsound.connections id connection hget
  have hlive : connection.Live := ⟨by rw [hready]; exact nofun, hopen⟩
  obtain ⟨hshake, hinbox⟩ := hquies.settled id connection hget
  have htar : id ∉ state.targets := by
    unfold ServerState.targets
    rw [hquies.running]
    exact not_mem_nil
  obtain ⟨view, hview, hrev⟩ := (hconn.covered hlive hready).resolve_left htar
  obtain ⟨_, hcur⟩ := hconn.current hlive view hview
  obtain ⟨hses, hmodels⟩ := hcur hquies.announced hquies.queued hrev
  rcases Connection.mem_views.mp hview with ⟨found, hfound, _⟩ | ⟨found, hfound, rfl⟩ | ⟨task, htask, _⟩
  · rw [hinbox] at hfound
    exact absurd hfound not_mem_nil
  · exact ⟨found, hfound, hses _ rfl, hmodels _ rfl⟩
  · exact absurd (hshake.symm.trans htask) nofun

/-! ### Accepted revisions -/

/-- The client has a snapshot that is not older. -/
def Connection.Advances (before after : Connection) : Prop :=
  ∀ held ∈ before.client.snapshot, ∃ snapshot ∈ after.client.snapshot, held.revision ≤ snapshot.revision

namespace Connection.Advances

variable {before after later : Connection}

theorem of_eq (hclient : after.client = before.client) : before.Advances after := by
  intro held hheld
  rw [hclient]
  exact ⟨held, hheld, le_refl _⟩

theorem trans (hfirst : before.Advances after) (hsnd : after.Advances later) : before.Advances later := by
  intro held hheld
  obtain ⟨snapshot, hsnap, hle⟩ := hfirst held hheld
  obtain ⟨last, hlast, hle'⟩ := hsnd snapshot hsnap
  exact ⟨last, hlast, hle.trans hle'⟩

variable (connection)

theorem sendMessage (snapshot : ServerSnapshot) : connection.Advances (connection.sendMessage snapshot) := by
  apply of_eq
  unfold Connection.sendMessage
  split_ifs
  · rfl
  · rfl

theorem dispatchHello (revision : Nat) : connection.Advances (connection.dispatchHello revision) := by
  apply of_eq
  unfold Connection.dispatchHello
  split_ifs
  · rfl
  · rfl

theorem answer (sessions models : List JsStr) : connection.Advances (connection.answer sessions models) := by
  apply of_eq
  unfold Connection.answer
  split
  · rfl
  · rfl
  · rfl

theorem finishHandshake (revision : Nat) : connection.Advances (connection.finishHandshake revision) := by
  unfold Connection.finishHandshake
  split
  · exact of_eq rfl
  · split
    · exact of_eq rfl
    · split_ifs
      · exact (sendMessage connection _).trans (of_eq rfl)
      · exact of_eq rfl
  · split
    · exact of_eq rfl
    · exact of_eq rfl
  · split
    · exact of_eq rfl
    · exact (sendMessage connection _).trans (of_eq rfl)
  · exact of_eq rfl

theorem deliver : connection.Advances connection.deliver := by
  unfold Connection.deliver
  split
  · exact of_eq rfl
  · next snapshot inbox hinbox =>
    intro held hheld
    rcases applyServerSnapshot_cases connection.client snapshot with ⟨htaken, hnewer⟩ | ⟨hkept, _⟩
    · exact ⟨snapshot, htaken, hnewer held hheld⟩
    · exact ⟨held, hkept.trans hheld, le_refl _⟩

end Connection.Advances

/-- A connection after a step was there before it, or is the next one. -/
def ServerState.Follows (state next : ServerState) : Prop :=
  state.next ≤ next.next ∧ ∀ id after, next.connections.get? id = some after →
    (∃ before, state.connections.get? id = some before ∧ before.Advances after) ∨
      state.next ≤ id ∧ id < next.next

namespace ServerState.Follows

theorem of_connections (hcon : next.connections = state.connections) (hnext : next.next = state.next) :
    state.Follows next := by
  refine ⟨hnext.ge, fun id after hget => .inl ⟨after, ?_, .of_eq rfl⟩⟩
  rw [← hcon]
  exact hget

variable (state)

theorem update (id : Nat) {change : Connection → Connection}
    (hchg : ∀ connection : Connection, connection.Advances (change connection)) :
    state.Follows (state.update id change) := by
  refine ⟨le_refl _, fun other after hget => .inl ?_⟩
  have hmod : (state.connections.modify id change).get? other = some after := hget
  rw [get?_modify] at hmod
  split_ifs at hmod with hid
  · obtain ⟨before, hbef, rfl⟩ := Option.map_eq_some_iff.mp hmod
    exact ⟨before, hid ▸ hbef, hchg before⟩
  · exact ⟨after, hmod, .of_eq rfl⟩

theorem accept : state.Follows state.accept := by
  refine ⟨Nat.le_succ _, fun id after hget => ?_⟩
  have hset : (state.connections.set state.next .accepted).get? id = some after := hget
  rw [get?_set] at hset
  split_ifs at hset with hid
  · exact .inr ⟨hid.ge, Nat.lt_succ_of_le hid.le⟩
  · exact .inl ⟨after, hset, .of_eq rfl⟩

theorem disconnect (id : Nat) : state.Follows (state.disconnect id) := by
  refine ⟨le_refl _, fun other after hget => .inl ?_⟩
  have hdel : (state.connections.delete id).get? other = some after := hget
  rw [get?_delete] at hdel
  split_ifs at hdel
  exact ⟨after, hdel, .of_eq rfl⟩

theorem performBroadcast : state.Follows state.performBroadcast := by
  unfold ServerState.performBroadcast
  split_ifs
  · exact of_connections rfl rfl
  · exact of_connections rfl rfl
  · exact of_connections rfl rfl

theorem answerBroadcast : state.Follows state.answerBroadcast := by
  unfold ServerState.answerBroadcast
  split
  · exact of_connections rfl rfl
  · exact of_connections rfl rfl

theorem resumeBroadcast : state.Follows state.resumeBroadcast := by
  unfold ServerState.resumeBroadcast
  split
  · exact of_connections rfl rfl
  · split
    · exact of_connections rfl rfl
    · exact of_connections rfl rfl
    · exact update state _ fun connection => .sendMessage connection _

theorem step (event : Event) : state.Follows (step state event) := by
  cases event with
  | changeSessions sessions => exact of_connections rfl rfl
  | changeModels models => exact of_connections rfl rfl
  | broadcast => exact of_connections rfl rfl
  | performBroadcast => exact performBroadcast state
  | answerBroadcast => exact answerBroadcast state
  | resumeBroadcast => exact resumeBroadcast state
  | accept => exact accept state
  | hello id => exact update state id fun connection => .dispatchHello connection _
  | answer id => exact update state id fun connection => .answer connection _ _
  | finishHandshake id => exact update state id fun connection => .finishHandshake connection _
  | rejectHandshake id => exact update state id fun _ => .of_eq rfl
  | failProtocol id => exact update state id fun _ => .of_eq rfl
  | close id => exact update state id fun _ => .of_eq rfl
  | disconnect id => exact disconnect state id
  | deliver id => exact update state id .deliver

variable {state} in
theorem trans {last : ServerState} (hfirst : state.Follows next) (hsnd : next.Follows last) : state.Follows last := by
  refine ⟨hfirst.1.trans hsnd.1, fun id after hget => ?_⟩
  rcases hsnd.2 id after hget with ⟨between, hbet, hlater⟩ | ⟨hold, hnew⟩
  · rcases hfirst.2 id between hbet with ⟨before, hbef, hadv⟩ | ⟨hold, hnew⟩
    · exact .inl ⟨before, hbef, hadv.trans hlater⟩
    · exact .inr ⟨hold, Nat.lt_of_lt_of_le hnew hsnd.1⟩
  · exact .inr ⟨hfirst.1.trans hold, hnew⟩

theorem foldl (events : List Event) : state.Follows (events.foldl Server.step state) :=
  foldl_invariant (fun _ event hfol => hfol.trans (step _ event)) events (of_connections rfl rfl)

end ServerState.Follows

/-! ### Runs -/

section Runs

variable {sessions models : List JsStr}

theorem next_le_of_run (events : List Event) {id : Nat}
    (hget : (run sessions models events).connections.get? id = some connection) :
    id < (run sessions models events).next := by
  rcases (ServerState.Follows.foldl (.initial sessions models) events).2 id connection hget with
    ⟨_, hnone, _⟩ | ⟨_, hid⟩
  · exact absurd hnone nofun
  · exact hid

end Runs

section Sample

/-- A broadcast is skipped while the only connection waits for the models in its handshake. -/
def skippedEvents : List Event :=
  [.accept, .hello 0, .answer 0, .changeSessions [js "s"], .broadcast, .performBroadcast, .answer 0,
    .finishHandshake 0, .finishHandshake 0, .deliver 0]

/-- The same change when the connection is ready. -/
def announcedEvents : List Event :=
  [.accept, .hello 0, .answer 0, .answer 0, .finishHandshake 0, .finishHandshake 0, .changeSessions [js "s"],
    .broadcast, .performBroadcast, .deliver 0, .answerBroadcast, .answerBroadcast, .resumeBroadcast,
    .resumeBroadcast, .deliver 0]

end Sample

end PiRp.Server

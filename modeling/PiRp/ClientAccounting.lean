import PiRp.Client

/-! The leases of a client over a whole run. The counts are right as long as nothing that an invalidation
has overtaken still ends: no acquisition whose reservation is gone becomes a lease, and neither its failure
nor the answer to the detach command of a lease that is gone takes the count of another lease. -/

namespace PiRp.Client

open List

namespace PiClient

variable {client : PiClient} {token : Nat} {lease : Lease}

/-! ### What leaves the leases alone -/

section

variable (client)

@[simp] theorem leases_request (command : Command) : (client.request command).leases = client.leases := by
  unfold request
  dsimp only
  split_ifs
  · rfl
  · rfl
  · rfl
  · rfl

@[simp] theorem next_request (command : Command) : (client.request command).next = client.next + 1 := by
  unfold request
  dsimp only
  split_ifs
  · rfl
  · rfl
  · rfl
  · rfl

theorem rejectPendingRequests_eq (error : ClientError) : ∃ results,
    client.rejectPendingRequests error = { client with results, pendingRequests := .empty } := by
  have hfold : ∀ ids : List Nat, ∃ results,
      ids.foldl (fun client id => reject client id error) client = { client with results } := by
    intro ids
    induction ids generalizing client with
    | nil => exact ⟨_, rfl⟩
    | cons id ids ih => exact ih (client.reject id error)
  obtain ⟨results, heq⟩ := hfold client.pendingRequests.keys
  rw [rejectPendingRequests, heq]
  exact ⟨results, rfl⟩

@[simp] theorem leases_rejectPendingRequests (error : ClientError) :
    (client.rejectPendingRequests error).leases = client.leases := by
  obtain ⟨_, heq⟩ := client.rejectPendingRequests_eq error
  rw [heq]

@[simp] theorem next_rejectPendingRequests (error : ClientError) :
    (client.rejectPendingRequests error).next = client.next := by
  obtain ⟨_, heq⟩ := client.rejectPendingRequests_eq error
  rw [heq]

variable (sessionId : JsStr)

include sessionId

theorem leases_attachSession :
    (client.attachSession sessionId).leases = client.leases := leases_request _ _

theorem next_attachSession : client.next ≤ (client.attachSession sessionId).next := by
  show client.next ≤ (PiClient.request _ _).next
  rw [next_request]
  exact Nat.le_succ _

theorem leases_reconcile :
    (client.reconcile sessionId).leases = client.leases := leases_request _ _

theorem next_reconcile : client.next ≤ (client.reconcile sessionId).next := by
  show client.next ≤ (PiClient.request _ _).next
  rw [next_request]
  exact Nat.le_succ _

end

/-! ### Sound steps -/

/-- The leases are sound, and tokens are new. -/
def Sound (client : PiClient) : Prop := client.leases.Sound client.next

section

variable (hsound : client.Sound)

include hsound

theorem Sound.of_eq {next : PiClient} (hleas : next.leases = client.leases)
    (hnext : client.next ≤ next.next) : next.Sound := by
  rw [Sound, hleas]
  exact Leases.Sound.mono hsound hnext

theorem Sound.request (command : Command) : (client.request command).Sound :=
  hsound.of_eq (leases_request _ _) (by rw [next_request]; exact Nat.le_succ _)

theorem Sound.disconnect (error : ClientError) : (client.disconnect error).Sound := by
  unfold PiClient.disconnect
  split_ifs
  · exact hsound
  · rw [Sound, leases_rejectPendingRequests, next_rejectPendingRequests]
    exact Leases.Sound.invalidateAll hsound

theorem Sound.dispose : client.dispose.Sound := by
  unfold PiClient.dispose
  split_ifs
  · exact hsound
  · dsimp only
    apply Leases.Sound.invalidateAll
    apply Sound.disconnect
    rw [Sound, leases_rejectPendingRequests, next_rejectPendingRequests]
    exact hsound

theorem Sound.receive (message : ServerMessage) : (client.receive message).Sound := by
  unfold PiClient.receive
  split_ifs
  · exact hsound
  · split
    · exact Leases.Sound.invalidate hsound _
    · exact hsound
    · split
      · exact hsound.disconnect _
      · dsimp only
        split
        · exact hsound
        · split_ifs
          · apply Sound.disconnect
            exact hsound
          · exact hsound

section

variable (hget : client.leases.tokens.get? token = some lease)

include hget

variable (hheld : lease.stage.held = true)

include hheld

theorem Sound.await (wait : Wait) : (client.await token lease wait).Sound :=
  Leases.Sound.stage hsound hget (.inl hheld.symm)

theorem Sound.createSessionLease (hcur : client.leases.isStale lease = false) :
    (client.createSessionLease token lease).Sound :=
  Leases.Sound.create hsound hget hheld hcur

theorem Sound.ensureAttached
    {reconciled : Bool} (hcur : client.leases.isStale lease = false ∨
      (reconciled || !client.state.isSessionAttached lease.sessionId) = true) :
    (client.ensureAttached token lease reconciled).Sound := by
  unfold PiClient.ensureAttached
  split_ifs with hdet
  · split
    · exact hsound.await hget hheld _
    · apply Sound.await
      · exact hsound.of_eq (leases_attachSession _ _) (next_attachSession _ _)
      · rw [leases_attachSession, hget]
      · exact hheld
  · exact hsound.createSessionLease hget hheld (hcur.resolve_right hdet)

theorem Sound.ensureClean (hcur : client.leases.isStale lease = false ∨
      (client.sessionCleanupRequired.has lease.sessionId || !client.state.isSessionAttached lease.sessionId) = true) :
    (client.ensureClean token lease).Sound := by
  unfold PiClient.ensureClean
  split_ifs with hclean
  · split
    · exact hsound.await hget hheld _
    · apply Sound.await
      · exact hsound.of_eq (leases_reconcile _ _) (next_reconcile _ _)
      · rw [leases_reconcile, hget]
      · exact hheld
  · refine hsound.ensureAttached hget hheld (hcur.imp_right fun hother => ?_)
    rw [(Bool.not_eq_true _).mp hclean] at hother
    exact hother

end

theorem Sound.acquireSession (sessionId : JsStr) (mode : LeaseMode) :
    (client.acquireSession sessionId mode).Sound := by
  unfold PiClient.acquireSession
  split_ifs
  · exact hsound
  · split
    · exact hsound
    · next leases hresv =>
      obtain ⟨hexcl, hshar, rfl⟩ := Leases.reserve_eq_some hresv
      have hresd : { client.tick with
          leases := client.leases.withToken client.next sessionId mode }.Sound :=
        Leases.Sound.withToken hsound hexcl hshar
      have hget : (client.leases.withToken client.next sessionId mode).tokens.get? client.next =
          some ⟨sessionId, mode, client.leases.generationOf sessionId, .reserved⟩ :=
        (JsMap.get?_set _ _ _ _).trans (if_pos rfl)
      dsimp only
      split
      · exact hresd.await hget rfl _
      · exact hresd.ensureClean hget rfl (.inl (decide_eq_false (not_not.mpr rfl)))

end

theorem refresh_active (leases : Leases) (hact : lease.stage = .active) :
    (leases.refresh lease).stage = if leases.isStale lease then .invalidated else .active := by
  rw [Leases.refresh, hact]
  dsimp only
  split_ifs
  · rfl
  · exact hact

theorem counted_self {leases : Leases} (hheld : lease.stage.held = true)
    (hcur : leases.isStale lease = false) : leases.counted lease.sessionId lease = true :=
  Leases.counted_iff.mpr ⟨rfl, hheld, hcur⟩

section

variable (hsound : client.Sound)

include hsound

theorem Sound.release (token : Nat) (relinquish : Bool) :
    (client.release token relinquish).Sound := by
  unfold PiClient.release
  split
  · exact hsound
  · next lease hget =>
    split
    · next hact =>
      have hheld : lease.stage.held = true := by rw [hact]; rfl
      dsimp only
      rw [refresh_active _ hact]
      cases hstale : client.leases.isStale lease with
      | true =>
        rw [if_pos rfl, if_neg (by rw [Bool.and_eq_true, decide_eq_true_eq]; exact nofun)]
        exact Leases.Sound.stage hsound hget (.inr hstale)
      | false =>
        rw [if_neg Bool.false_ne_true]
        split_ifs
        · have hreq : (client.request (.detach lease.sessionId)).Sound := hsound.request _
          refine Leases.Sound.stage hreq ?_ (.inl hheld.symm)
          rw [leases_request, hget]
        · exact Leases.Sound.drop hsound hget (counted_self hheld hstale) rfl
        · exact Leases.Sound.stage hsound hget (.inl hheld.symm)
    · exact hsound

theorem Sound.catchRelease (token : Nat) : (client.catchRelease token).Sound := by
  unfold PiClient.catchRelease
  split
  · exact hsound
  · next lease hget =>
    split
    · next relinquish hfailing =>
      have hheld : lease.stage.held = true := by rw [hfailing]; rfl
      split_ifs with hstale hrel
      · exact Leases.Sound.stage hsound hget (.inr hstale)
      · exact Leases.Sound.drop hsound hget (counted_self hheld ((Bool.not_eq_true _).mp hstale)) rfl
      · exact Leases.Sound.stage hsound hget (.inl hheld.symm)
    · exact hsound

theorem Sound.resumeCreation (promise : Nat) : (client.resumeCreation promise).Sound := by
  unfold PiClient.resumeCreation
  split
  · dsimp only
    split
    · next session _ =>
      split
      · exact hsound
      · next leases hresv =>
        obtain ⟨hexcl, hshar, rfl⟩ := Leases.reserve_eq_some hresv
        have hresd := Leases.Sound.withToken hsound hexcl hshar
        refine Leases.Sound.create hresd ?_ rfl (decide_eq_false (not_not.mpr rfl))
        exact (JsMap.get?_set _ _ _ _).trans (if_pos rfl)
    · exact hsound
  · exact hsound

theorem Sound.others (promise : Nat) :
    (client.resumeAttach promise).Sound ∧ (client.resumeReconciliation promise).Sound ∧
      (client.finishReconciliation promise).Sound := by
  refine ⟨?_, ?_, ?_⟩
  · unfold PiClient.resumeAttach
    split
    · exact hsound
    · exact hsound
  · unfold PiClient.resumeReconciliation
    split
    · exact hsound
    · exact hsound
  · unfold PiClient.finishReconciliation
    split
    · exact hsound
    · exact hsound

end

/-! ### What an invalidation has overtaken -/

/-- The acquisition ends now, with a lease. -/
def completes (client : PiClient) (lease : Lease) : Bool :=
  match lease.stage with
  | .acquiring wait =>
    match wait, client.awaited wait with
    | .detachment _, some _ =>
      !client.sessionCleanupRequired.has lease.sessionId && client.state.isSessionAttached lease.sessionId
    | .attachment _, some none => true
    | _, _ => false
  | _ => false

/-- The acquisition ends now, with an error. -/
def fails (client : PiClient) (lease : Lease) : Bool :=
  match lease.stage with
  | .acquiring wait =>
    match wait, client.awaited wait with
    | .reconciliation _, some (some _) | .attachment _, some (some _) => true
    | _, _ => false
  | _ => false

/-- The detach command of the lease has been answered. -/
def detached (client : PiClient) (lease : Lease) : Bool :=
  match lease.stage with
  | .releasing detachment _ =>
    match client.results.get? detachment with
    | some (.ok _) => true
    | _ => false
  | _ => false

end PiClient

/-- Nothing that an invalidation has overtaken ends now: no acquisition with a lease, and none with an error,
nor the answer to a detach command, while other leases count. -/
def Event.Timely (client : PiClient) : Event → Prop
  | .resumeAcquisition token => ∀ lease, client.leases.tokens.get? token = some lease →
      client.leases.isStale lease = true → client.completes lease = false ∧
        (client.fails lease = true → client.leases.countOf lease.sessionId = 0)
  | .resumeRelease token => ∀ lease, client.leases.tokens.get? token = some lease →
      client.leases.isStale lease = true → client.detached lease = true →
        client.leases.countOf lease.sessionId = 0
  | _ => True

namespace PiClient

variable {client : PiClient} {token : Nat} {lease : Lease}

theorem forgetAttachment_eq (client : PiClient) (sessionId : JsStr) (attachment : Nat) :
    ∃ sessionAttachments, client.forgetAttachment sessionId attachment = { client with sessionAttachments } := by
  unfold forgetAttachment
  split_ifs
  · exact ⟨_, rfl⟩
  · exact ⟨_, rfl⟩

theorem forgetDetachment_eq (client : PiClient) (sessionId : JsStr) (detachment : Nat) :
    ∃ sessionDetachments, client.forgetDetachment sessionId detachment = { client with sessionDetachments } := by
  unfold forgetDetachment
  split_ifs
  · exact ⟨_, rfl⟩
  · exact ⟨_, rfl⟩

section

variable (hget : client.leases.tokens.get? token = some lease)

include hget

theorem leases_of_completes (hcom : client.completes lease = true) :
    (client.resumeAcquisition token).leases = client.leases.createLease token lease := by
  unfold completes at hcom
  unfold resumeAcquisition
  rw [hget]
  dsimp only
  cases hstage : lease.stage with
  | acquiring wait =>
    rw [hstage] at hcom
    dsimp only at hcom ⊢
    split at hcom
    · next promise ended hawait =>
      rw [hawait]
      dsimp only
      rw [Bool.and_eq_true, Bool.not_eq_true'] at hcom
      rw [ensureClean, hcom.1, if_neg Bool.false_ne_true, ensureAttached, hcom.2, if_neg (by decide)]
      rfl
    · next promise hawait =>
      rw [hawait]
      obtain ⟨_, heq⟩ := client.forgetAttachment_eq lease.sessionId promise
      dsimp only
      rw [heq]
      rfl
    · exact absurd hcom Bool.false_ne_true
  | _ =>
    rw [hstage] at hcom
    exact absurd hcom Bool.false_ne_true

theorem leases_of_fails (hfails : client.fails lease = true) : (client.resumeAcquisition token).leases =
      (client.leases.release lease.sessionId token).setStage token lease .failed := by
  unfold fails at hfails
  unfold resumeAcquisition
  rw [hget]
  dsimp only
  cases hstage : lease.stage with
  | acquiring wait =>
    rw [hstage] at hfails
    dsimp only at hfails ⊢
    split at hfails
    · next promise error hawait =>
      rw [hawait]
      rfl
    · next promise error hawait =>
      rw [hawait]
      obtain ⟨_, heq⟩ := client.forgetAttachment_eq lease.sessionId promise
      dsimp only
      rw [heq]
      rfl
    · exact absurd hfails Bool.false_ne_true
  | _ =>
    rw [hstage] at hfails
    exact absurd hfails Bool.false_ne_true

theorem leases_of_detached (hdet : client.detached lease = true) : (client.resumeRelease token).leases =
      (client.leases.release lease.sessionId token).setStage token lease .released := by
  unfold detached at hdet
  unfold resumeRelease
  rw [hget]
  dsimp only
  cases hstage : lease.stage with
  | releasing detachment relinquish =>
    rw [hstage] at hdet
    dsimp only at hdet ⊢
    split at hdet
    · next result hres =>
      rw [hres]
      obtain ⟨_, heq⟩ := forgetDetachment_eq { client with
        leases := (client.leases.release lease.sessionId token).setStage token lease .released }
        lease.sessionId detachment
      dsimp only
      rw [heq]
    · exact absurd hdet Bool.false_ne_true
  | _ =>
    rw [hstage] at hdet
    exact absurd hdet Bool.false_ne_true

end

variable (hsound : client.Sound)

include hsound

theorem Sound.resumeAcquisition
    (htim : Event.Timely client (.resumeAcquisition token)) : (client.resumeAcquisition token).Sound := by
  cases hget : client.leases.tokens.get? token with
  | none =>
    rw [PiClient.resumeAcquisition, hget]
    exact hsound
  | some lease =>
    have htim := htim lease hget
    unfold PiClient.resumeAcquisition
    rw [hget]
    dsimp only
    split
    · next wait hstage =>
      have hheld : lease.stage.held = true := by rw [hstage]; rfl
      -- An error ends the acquisition, in whatever it waits for.
      have hfail : client.fails lease = true →
          ((client.leases.release lease.sessionId token).setStage token lease .failed).Sound client.next := by
        intro hfails
        cases hstale : client.leases.isStale lease with
        | true => exact Leases.Sound.dropStale hsound hget hstale ((htim hstale).2 hfails) rfl
        | false => exact Leases.Sound.drop hsound hget (counted_self hheld hstale) rfl
      split
      · exact hsound
      · next promise ended hawait =>
        apply hsound.ensureClean hget hheld
        have hcom : client.completes lease = (!client.sessionCleanupRequired.has lease.sessionId &&
            client.state.isSessionAttached lease.sessionId) := by
          rw [completes, hstage]
          dsimp only
          rw [hawait]
        rw [Bool.or_eq_true, Bool.not_eq_true']
        by_contra hneither
        rw [not_or, not_or, Bool.not_eq_false, Bool.not_eq_true, Bool.not_eq_false] at hneither
        have hstop := (htim hneither.1).1
        rw [hcom, hneither.2.1, hneither.2.2] at hstop
        exact Bool.false_ne_true hstop.symm
      · exact hsound.ensureAttached hget hheld (.inr rfl)
      · next promise error hawait =>
        refine hfail ?_
        rw [fails, hstage]
        dsimp only
        rw [hawait]
      · next promise hawait =>
        obtain ⟨_, heq⟩ := client.forgetAttachment_eq lease.sessionId promise
        rw [heq]
        refine Leases.Sound.create hsound hget hheld (Bool.eq_false_of_not_eq_true fun hstale => ?_)
        have hstop := (htim hstale).1
        rw [completes, hstage] at hstop
        dsimp only at hstop
        rw [hawait] at hstop
        exact Bool.false_ne_true hstop.symm
      · next promise error hawait =>
        obtain ⟨_, heq⟩ := client.forgetAttachment_eq lease.sessionId promise
        rw [heq]
        refine hfail ?_
        rw [fails, hstage]
        dsimp only
        rw [hawait]
    · exact hsound

theorem Sound.resumeRelease (htim : Event.Timely client (.resumeRelease token)) :
    (client.resumeRelease token).Sound := by
  cases hget : client.leases.tokens.get? token with
  | none =>
    rw [PiClient.resumeRelease, hget]
    exact hsound
  | some lease =>
    have htim := htim lease hget
    unfold PiClient.resumeRelease
    rw [hget]
    dsimp only
    split
    · next detachment relinquish hstage =>
      have hheld : lease.stage.held = true := by rw [hstage]; rfl
      split
      · exact hsound
      · next result hres =>
        obtain ⟨_, heq⟩ := forgetDetachment_eq { client with
          leases := (client.leases.release lease.sessionId token).setStage token lease .released }
          lease.sessionId detachment
        rw [heq]
        cases hstale : client.leases.isStale lease with
        | true =>
          refine Leases.Sound.dropStale hsound hget hstale (htim hstale ?_) rfl
          rw [detached, hstage]
          dsimp only
          rw [hres]
        | false => exact Leases.Sound.drop hsound hget (counted_self hheld hstale) rfl
      · obtain ⟨_, heq⟩ := forgetDetachment_eq { client with
          leases := client.leases.setStage token lease (.failing relinquish) } lease.sessionId detachment
        rw [heq]
        exact Leases.Sound.stage hsound hget (.inl hheld.symm)
    · exact hsound

theorem Sound.step {event : Event} (htim : event.Timely client) : (step client event).Sound := by
  have hleaseRequest : ∀ token command, (client.leaseRequest token command).Sound := by
    intro token command
    unfold leaseRequest
    split
    · exact hsound
    · split_ifs
      · exact hsound.request _
      · exact hsound
  cases event with
  | connect =>
    show client.connect.Sound
    unfold PiClient.connect
    split_ifs
    · exact hsound
    · exact hsound
  | handshake snapshot =>
    show (client.handshake snapshot).Sound
    unfold PiClient.handshake
    split_ifs
    · exact hsound
    · exact hsound
  | disconnect error => exact hsound.disconnect error
  | dispose => exact hsound.dispose
  | receive message => exact hsound.receive message
  | query query => exact hsound.request _
  | createSession => exact hsound.request .create
  | acquireSession sessionId mode => exact hsound.acquireSession sessionId mode
  | release token relinquish => exact hsound.release token relinquish
  | leaseQuery token command => exact hleaseRequest token _
  | leaseTree token => exact hleaseRequest token _
  | resumeCreation promise => exact hsound.resumeCreation promise
  | resumeAttach promise => exact (hsound.others promise).1
  | resumeReconciliation promise => exact (hsound.others promise).2.1
  | finishReconciliation promise => exact (hsound.others promise).2.2
  | resumeAcquisition token => exact hsound.resumeAcquisition htim
  | resumeRelease token => exact hsound.resumeRelease htim
  | catchRelease token => exact hsound.catchRelease token

theorem not_accounted_step {event : Event} (hlate : ¬ event.Timely client) :
    ¬ (Client.step client event).leases.Accounted := by
  have hacc := Leases.Sound.accounted hsound
  cases event with
  | resumeAcquisition token =>
    simp only [Event.Timely, not_forall] at hlate
    obtain ⟨lease, hget, hstale, hends⟩ := hlate
    show ¬ (client.resumeAcquisition token).leases.Accounted
    cases hcom : client.completes lease with
    | true =>
      rw [leases_of_completes hget hcom]
      exact hacc.create_stale hget hstale
    | false =>
      have hfails : ¬ (client.fails lease = true → client.leases.countOf lease.sessionId = 0) :=
        fun hzero => hends ⟨hcom, hzero⟩
      obtain ⟨hfails, hpos⟩ := Classical.not_imp.mp hfails
      rw [leases_of_fails hget hfails]
      exact hacc.drop_stale hget hstale (Nat.pos_of_ne_zero hpos)
  | resumeRelease token =>
    simp only [Event.Timely, not_forall] at hlate
    obtain ⟨lease, hget, hstale, hdet, hpos⟩ := hlate
    show ¬ (client.resumeRelease token).leases.Accounted
    rw [leases_of_detached hget hdet]
    exact hacc.drop_stale hget hstale (Nat.pos_of_ne_zero hpos)
  | _ => exact absurd trivial hlate

end PiClient

/-! ### Runs -/

section Runs

variable {encodes : Command → Bool} {events : List Event} {client : PiClient} {token other : Nat}
  {lease held : Lease}

/-- In no step of the run something ends that an invalidation has overtaken. -/
def TimelyRun (encodes : Command → Bool) (events : List Event) : Prop :=
  ∀ before event, before ++ [event] <+: events → event.Timely (run encodes before)

theorem run_append (events : List Event) (event : Event) :
    run encodes (events ++ [event]) = step (run encodes events) event := by
  rw [run, foldl_append]
  rfl

theorem TimelyRun.earlier (htim : TimelyRun encodes events) {before : List Event} (hbef : before <+: events) :
    TimelyRun encodes before :=
  fun earlier event hear => htim earlier event (hear.trans hbef)

theorem sound_run (htim : TimelyRun encodes events) : (run encodes events).Sound := by
  induction events using List.reverseRecOn with
  | nil => exact Leases.sound_initial
  | append_singleton events event ih =>
    rw [run_append]
    apply PiClient.Sound.step
    · exact ih (htim.earlier (prefix_append events [event]))
    · exact htim events event (prefix_refl _)

theorem timely_of_accounted (hacc : ∀ before, before <+: events → (run encodes before).leases.Accounted) :
    TimelyRun encodes events := by
  induction events using List.reverseRecOn with
  | nil => exact fun before event hbef => absurd (prefix_nil.mp hbef) (append_ne_nil_of_right_ne_nil _ nofun)
  | append_singleton events event ih =>
    have hear := ih fun before hbef => hacc before (hbef.trans (prefix_append events [event]))
    intro before last hbef
    rcases prefix_concat_iff.mp hbef with hwhole | hpart
    · obtain ⟨rfl, hlast⟩ := append_inj' hwhole rfl
      rw [singleton_inj.mp hlast]
      by_contra hlate
      have hwrong := PiClient.not_accounted_step (sound_run hear) hlate
      rw [← run_append] at hwrong
      exact hwrong (hacc _ (prefix_refl _))
    · exact hear before last hpart

/-- The state of the lease is active. -/
def Leases.Active (leases : Leases) (lease : Lease) : Prop := (leases.refresh lease).stage = .active

theorem Leases.Active.counted {leases : Leases} (hact : leases.Active lease) :
    leases.counted lease.sessionId lease = true := by
  unfold Leases.Active Leases.refresh at hact
  split at hact
  · next hstage =>
    split_ifs at hact with hstale
    exact PiClient.counted_self (by rw [hstage]; rfl) ((Bool.not_eq_true _).mp hstale)
  · next hstage =>
    split_ifs at hact
    exact absurd (hstage.symm.trans hact) nofun
  · next hstage =>
    split_ifs at hact
    exact absurd (hstage.symm.trans hact) nofun
  · next hother _ _ => exact absurd hact hother

theorem exclusive_alone (hsound : client.Sound) (hget : client.leases.tokens.get? token = some lease)
    (hact : client.leases.Active lease) (hmode : lease.mode = .exclusive)
    (hother : client.leases.tokens.get? other = some held) (hheld : client.leases.Active held)
    (hsess : held.sessionId = lease.sessionId) : other = token :=
  Leases.Sound.alone hsound lease.sessionId token lease hget hact.counted hmode other held hother
    (hsess ▸ hheld.counted)

theorem detach_last (hsound : client.Sound) (hget : client.leases.tokens.get? token = some lease)
    {relinquish : Bool} (hsent : (client.release token relinquish).sent ≠ client.sent)
    (hother : client.leases.tokens.get? other = some held)
    (hcoun : client.leases.counted lease.sessionId held = true) : other = token := by
  unfold PiClient.release at hsent
  rw [hget] at hsent
  dsimp only at hsent
  split at hsent
  · next hact =>
    rw [PiClient.refresh_active _ hact] at hsent
    cases hstale : client.leases.isStale lease with
    | true =>
      rw [hstale, if_pos rfl, if_neg (by rw [Bool.and_eq_true, decide_eq_true_eq]; exact nofun)] at hsent
      exact absurd rfl hsent
    | false =>
      rw [hstale, if_neg Bool.false_ne_true] at hsent
      split_ifs at hsent with hass hlast
      · have hself := PiClient.counted_self (by rw [hact]; rfl) hstale
        by_contra hdistinct
        rw [Leases.Sound.accounted hsound, Leases.held, JsMap.count_eq_delete hget, hself, if_pos rfl] at hlast
        have hzero : (client.leases.tokens.delete token).count
            (fun _ found => client.leases.counted lease.sessionId found) = 0 := by omega
        have hleft := JsMap.count_eq_zero.mp hzero other held
          (by rw [JsMap.get?_delete, if_neg hdistinct, hother])
        exact Bool.false_ne_true (hleft.symm.trans hcoun)
      · exact absurd rfl hsent
      · exact absurd rfl hsent
  · exact absurd rfl hsent

theorem timely_append {event : Event} :
    TimelyRun encodes (events ++ [event]) ↔ TimelyRun encodes events ∧ event.Timely (run encodes events) := by
  constructor
  · intro htim
    exact ⟨htim.earlier (prefix_append events [event]), htim events event (prefix_refl _)⟩
  · rintro ⟨htim, hevent⟩ before last hbef
    rcases prefix_concat_iff.mp hbef with hwhole | hpart
    · obtain ⟨rfl, hlast⟩ := append_inj' hwhole rfl
      rw [singleton_inj.mp hlast]
      exact hevent
    · exact htim before last hpart

theorem timely_of_forall (htim : ∀ event ∈ events, ∀ client, event.Timely client) : TimelyRun encodes events :=
  fun _ event hbef => htim event (hbef.subset (mem_append_right _ (mem_singleton_self event))) _

/-- The counts are right in every state of a run just when no step lets something end that an invalidation has
overtaken. Then an exclusive lease is active alone, and a lease that sends the detach command is the last. -/
theorem lease_accounting (events : List Event) :
    ((∀ before, before <+: events → (run encodes before).leases.Accounted) ↔ TimelyRun encodes events) ∧
    (TimelyRun encodes events →
      (∀ token lease other held, (run encodes events).leases.tokens.get? token = some lease →
        (run encodes events).leases.Active lease → lease.mode = .exclusive →
        (run encodes events).leases.tokens.get? other = some held → (run encodes events).leases.Active held →
        held.sessionId = lease.sessionId → other = token) ∧
      ∀ token relinquish lease other held, (run encodes events).leases.tokens.get? token = some lease →
        ((run encodes events).release token relinquish).sent ≠ (run encodes events).sent →
        (run encodes events).leases.tokens.get? other = some held →
        (run encodes events).leases.counted lease.sessionId held = true → other = token) := by
  refine ⟨⟨timely_of_accounted, fun htim before hbef => ?_⟩, fun htim => ⟨?_, ?_⟩⟩
  · exact Leases.Sound.accounted (sound_run (htim.earlier hbef))
  · intro token lease other held hget hact hmode hother hheld hsess
    exact exclusive_alone (sound_run htim) hget hact hmode hother hheld hsess
  · intro token relinquish lease other held hget hsent hother hcoun
    exact detach_last (sound_run htim) hget hsent hother hcoun

end Runs

section Sample

def sampleSession : SessionSnapshot := ⟨js "s", 1, true⟩

/-- A session is acquired. -/
def acquiredEvents : List Event :=
  [.connect, .handshake ⟨0, [], []⟩, .acquireSession (js "s") .exclusive,
    .receive (.response 1 (.ok (.attach sampleSession))), .resumeAttach 1, .resumeAcquisition 0]

/-- While the detach command of the lease is in flight, the session is removed and acquired again. Then the
command is answered, and a third acquisition follows. -/
def overtakenEvents : List Event :=
  acquiredEvents ++ [.release 0 false, .receive (.event (.sessionRemoved (js "s"))),
    .acquireSession (js "s") .exclusive, .receive (.response 2 (.ok (.detach (js "s")))), .resumeRelease 0,
    .resumeAcquisition 3, .receive (.response 4 (.ok (.attach sampleSession))), .resumeAttach 4,
    .resumeAcquisition 3, .acquireSession (js "s") .exclusive]

/-- Two exclusive leases of a session are active, and one is counted. -/
theorem lease_conflict :
    (run (fun _ => true) overtakenEvents).leases.tokens.get? 3 = some ⟨js "s", .exclusive, 1, .active⟩ ∧
    (run (fun _ => true) overtakenEvents).leases.tokens.get? 5 = some ⟨js "s", .exclusive, 1, .active⟩ ∧
    (run (fun _ => true) overtakenEvents).leases.generationOf (js "s") = 1 ∧
    (run (fun _ => true) overtakenEvents).leases.countOf (js "s") = 1 ∧
    (run (fun _ => true) overtakenEvents).leases.held (js "s") = 2 := by
  decide +kernel

theorem lease_accounting_sample :
    (run (fun _ => true) acquiredEvents).leases.tokens.get? 0 = some ⟨js "s", .exclusive, 0, .active⟩ ∧
      ∀ other held, (run (fun _ => true) acquiredEvents).leases.tokens.get? other = some held →
        (run (fun _ => true) acquiredEvents).leases.Active held → held.sessionId = js "s" → other = 0 := by
  have hget : (run (fun _ => true) acquiredEvents).leases.tokens.get? 0 =
      some ⟨js "s", .exclusive, 0, .active⟩ := by decide +kernel
  have hact : (run (fun _ => true) acquiredEvents).leases.Active ⟨js "s", .exclusive, 0, .active⟩ := by
    unfold Leases.Active
    decide +kernel
  have htim : TimelyRun (fun _ => true) acquiredEvents := by
    have hcur : (run (fun _ => true) (acquiredEvents.take 5)).leases.isStale
        ⟨js "s", .exclusive, 0, .acquiring (.attachment 1)⟩ = false := by decide +kernel
    have hwait : (run (fun _ => true) (acquiredEvents.take 5)).leases.tokens.get? 0 =
        some ⟨js "s", .exclusive, 0, .acquiring (.attachment 1)⟩ := by decide +kernel
    have hsplit : acquiredEvents = acquiredEvents.take 5 ++ [.resumeAcquisition 0] := rfl
    rw [hsplit, timely_append]
    refine ⟨timely_of_forall ?_, fun lease hlease hstale => ?_⟩
    · intro event hevent client
      simp only [acquiredEvents, List.take, mem_cons, not_mem_nil, or_false] at hevent
      rcases hevent with rfl | rfl | rfl | rfl | rfl
      all_goals trivial
    · obtain rfl := Option.some.inj (hwait.symm.trans hlease)
      exact absurd (hcur.symm.trans hstale) Bool.false_ne_true
  refine ⟨hget, fun other held hother hheld hsess => ?_⟩
  exact ((lease_accounting acquiredEvents).2 htim).1 0 _ other held hget hact rfl hother hheld hsess

end Sample

end PiRp.Client

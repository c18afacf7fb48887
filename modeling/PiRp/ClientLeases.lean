import PiRp.ClientState
import PiRp.JsMapCount

/-! The leases a client hands out for a session. A lease is reserved before its session is attached, and an
invalidation of the session starts a new generation of its leases. The counts are plain numbers: what they
stand for are the leases of the present generation that are reserved, active or being released. -/

namespace PiRp.Client

open JsMap

inductive LeaseMode where
  | shared
  | exclusive
  deriving DecidableEq

/-- What an acquisition waits for, with the number of the promise. -/
inductive Wait where
  | detachment (promise : Nat)
  | reconciliation (promise : Nat)
  | attachment (promise : Nat)
  deriving DecidableEq

/-- How far a lease has come. -/
inductive Stage where
  /-- The token is reserved. -/
  | reserved
  | acquiring (wait : Wait)
  /-- The session could not be acquired. -/
  | failed
  | active
  /-- The detach command is in flight. -/
  | releasing (detachment : Nat) (relinquish : Bool)
  /-- The detach command has failed, its handler has not run. -/
  | failing (relinquish : Bool)
  | released
  | invalidated
  deriving DecidableEq

/-- The stages that a count stands for. -/
def Stage.held : Stage → Bool
  | .reserved | .acquiring _ | .active | .releasing _ _ | .failing _ => true
  | .failed | .released | .invalidated => false

/-- A token with its lease. The code keeps the generation from the creation of the lease on; until then it
is the one the token was reserved in. -/
structure Lease where
  sessionId : JsStr
  mode : LeaseMode
  generation : Nat
  stage : Stage
  deriving DecidableEq

structure Leases where
  counts : JsMap JsStr Nat
  /-- The tokens of exclusive leases. -/
  exclusive : JsMap JsStr Nat
  generations : JsMap JsStr Nat
  tokens : JsMap Nat Lease

namespace Leases

def initial : Leases := ⟨.empty, .empty, .empty, .empty⟩

def countOf (leases : Leases) (sessionId : JsStr) : Nat := (leases.counts.get? sessionId).getD 0

def generationOf (leases : Leases) (sessionId : JsStr) : Nat := (leases.generations.get? sessionId).getD 0

/-- A token is reserved. -/
def withToken (leases : Leases) (token : Nat) (sessionId : JsStr) (mode : LeaseMode) : Leases :=
  { leases with
    counts := leases.counts.set sessionId (leases.countOf sessionId + 1)
    exclusive := if mode = .exclusive then leases.exclusive.set sessionId token else leases.exclusive
    tokens := leases.tokens.set token ⟨sessionId, mode, leases.generationOf sessionId, .reserved⟩ }

/-- `#reserveSessionLease`; without a result it throws a `PiSessionOwnershipError`. -/
def reserve (leases : Leases) (token : Nat) (sessionId : JsStr) (mode : LeaseMode) : Option Leases :=
  if mode = .exclusive ∧ 0 < leases.countOf sessionId then none
  else if mode = .shared ∧ leases.exclusive.has sessionId = true then none
  else some (leases.withToken token sessionId mode)

/-- `#releaseSessionLease`. -/
def release (leases : Leases) (sessionId : JsStr) (token : Nat) : Leases :=
  { leases with
    counts :=
      if leases.countOf sessionId ≤ 1 then leases.counts.delete sessionId
      else leases.counts.set sessionId (leases.countOf sessionId - 1)
    exclusive :=
      if leases.exclusive.get? sessionId = some token then leases.exclusive.delete sessionId
      else leases.exclusive }

/-- `#invalidateSessionLeases`. -/
def invalidate (leases : Leases) (sessionId : JsStr) : Leases :=
  { leases with
    counts := leases.counts.delete sessionId
    exclusive := leases.exclusive.delete sessionId
    generations := leases.generations.set sessionId (leases.generationOf sessionId + 1) }

/-- The loop of `#invalidateAllSessionLeases`. -/
def invalidateAll (leases : Leases) : Leases := leases.counts.keys.foldl invalidate leases

def setStage (leases : Leases) (token : Nat) (lease : Lease) (stage : Stage) : Leases :=
  { leases with tokens := leases.tokens.set token { lease with stage } }

/-- The start of `#createSessionLease`. -/
def createLease (leases : Leases) (token : Nat) (lease : Lease) : Leases :=
  let generation := leases.generationOf lease.sessionId
  { leases with
    generations := leases.generations.set lease.sessionId generation
    tokens := leases.tokens.set token { lease with generation, stage := .active } }

/-- An invalidation came after the lease, or after the reservation of its token. -/
def isStale (leases : Leases) (lease : Lease) : Bool :=
  lease.generation ≠ leases.generationOf lease.sessionId

/-- `refreshState`. -/
def refresh (leases : Leases) (lease : Lease) : Lease :=
  match lease.stage with
  | .active | .releasing _ _ | .failing _ =>
    if leases.isStale lease then { lease with stage := .invalidated } else lease
  | _ => lease

/-! ### What the counts stand for -/

/-- The lease is one of those the count of the session stands for. -/
def counted (leases : Leases) (sessionId : JsStr) (lease : Lease) : Bool :=
  lease.sessionId = sessionId && lease.stage.held && lease.generation = leases.generationOf sessionId

/-- How many leases of the session there are. -/
def held (leases : Leases) (sessionId : JsStr) : Nat :=
  leases.tokens.count fun _ lease => leases.counted sessionId lease

/-- Every count is the number of leases it stands for. -/
def Accounted (leases : Leases) : Prop := ∀ sessionId, leases.countOf sessionId = leases.held sessionId

/-- With the counts, the tokens of the exclusive leases are right. -/
structure Sound (leases : Leases) (next : Nat) : Prop where
  accounted : leases.Accounted
  fresh : ∀ token lease, leases.tokens.get? token = some lease → token < next
  bounded : ∀ token lease, leases.tokens.get? token = some lease →
    lease.generation ≤ leases.generationOf lease.sessionId
  exclusive : ∀ sessionId token, leases.exclusive.get? sessionId = some token ↔
    ∃ lease, leases.tokens.get? token = some lease ∧ leases.counted sessionId lease = true ∧
      lease.mode = .exclusive
  alone : ∀ sessionId token lease, leases.tokens.get? token = some lease →
    leases.counted sessionId lease = true → lease.mode = .exclusive →
    ∀ other held, leases.tokens.get? other = some held → leases.counted sessionId held = true → other = token

theorem sound_initial : initial.Sound 0 := ⟨fun _ => rfl, nofun, nofun, fun _ _ => ⟨nofun, nofun⟩, nofun⟩

variable {leases next : Leases} {limit token : Nat} {sessionId : JsStr} {lease changed : Lease}

theorem Sound.mono (hsound : leases.Sound limit) {more : Nat} (hle : limit ≤ more) : leases.Sound more :=
  { hsound with fresh := fun token lease hget => (hsound.fresh token lease hget).trans_le hle }

/-! ### The parts of an operation -/

theorem countOf_release (other : JsStr) : (leases.release sessionId token).countOf other =
    if other = sessionId then leases.countOf sessionId - 1 else leases.countOf other := by
  show ((if leases.countOf sessionId ≤ 1 then leases.counts.delete sessionId
    else leases.counts.set sessionId (leases.countOf sessionId - 1)).get? other).getD 0 = _
  by_cases hone : leases.countOf sessionId ≤ 1
  · rw [if_pos hone, get?_delete]
    split_ifs
    · exact (Nat.sub_eq_zero_of_le hone).symm
    · rfl
  · rw [if_neg hone, get?_set]
    split_ifs
    · rfl
    · rfl

theorem exclusive_release (other : JsStr) : (leases.release sessionId token).exclusive.get? other =
    if other = sessionId ∧ leases.exclusive.get? sessionId = some token then none
    else leases.exclusive.get? other := by
  unfold release
  by_cases htoken : leases.exclusive.get? sessionId = some token
  · simp only [htoken, if_true, and_true]
    exact get?_delete _ _ _
  · simp only [htoken, if_false, and_false]

theorem generationOf_createLease (other : JsStr) :
    (leases.createLease token lease).generationOf other = leases.generationOf other := by
  unfold createLease generationOf
  rw [get?_set]
  split_ifs with hother
  · rw [hother]
    rfl
  · rfl

theorem counted_congr (hgen : ∀ other, next.generationOf other = leases.generationOf other)
    (sessionId : JsStr) (lease : Lease) : next.counted sessionId lease = leases.counted sessionId lease := by
  rw [counted, counted, hgen]

theorem held_replace (hget : leases.tokens.get? token = some lease)
    (htok : next.tokens = leases.tokens.set token changed)
    (hgen : ∀ other, next.generationOf other = leases.generationOf other) (sessionId : JsStr) :
    next.held sessionId + (if leases.counted sessionId lease then 1 else 0) =
      leases.held sessionId + if leases.counted sessionId changed then 1 else 0 := by
  have hcoun : (fun (_ : Nat) other => next.counted sessionId other) =
      fun _ other => leases.counted sessionId other := by
    funext _ other
    exact counted_congr hgen sessionId other
  rw [held, htok, hcoun]
  exact count_set_of_some hget changed

theorem tokens_replace (htok : next.tokens = leases.tokens.set token changed) (other : Nat) :
    next.tokens.get? other = if other = token then some changed else leases.tokens.get? other := by
  rw [htok, get?_set]

/-! ### What keeps the counts right -/

theorem Sound.replace (hsound : leases.Sound limit) (hget : leases.tokens.get? token = some lease)
    (htok : next.tokens = leases.tokens.set token changed)
    (hgen : ∀ other, next.generationOf other = leases.generationOf other)
    (hcounts : ∀ other, next.countOf other = leases.countOf other)
    (hexcl : ∀ other, next.exclusive.get? other = leases.exclusive.get? other)
    (hsame : ∀ other, leases.counted other changed = leases.counted other lease)
    (hmode : changed.mode = lease.mode) (hboun : changed.generation ≤ leases.generationOf changed.sessionId) :
    next.Sound limit := by
  have hcoun := counted_congr hgen
  have hfound : ∀ other found, next.tokens.get? other = some found →
      ∃ before, leases.tokens.get? other = some before ∧ before.mode = found.mode ∧
        ∀ id, leases.counted id before = leases.counted id found := by
    intro other found hfound
    rw [tokens_replace htok] at hfound
    split_ifs at hfound with hother
    · obtain rfl := Option.some.inj hfound
      exact ⟨lease, hother ▸ hget, hmode.symm, fun id => (hsame id).symm⟩
    · exact ⟨found, hfound, rfl, fun _ => rfl⟩
  refine ⟨fun id => ?_, fun other found hother => ?_, fun other found hother => ?_, fun id other => ?_, ?_⟩
  · have hheld := held_replace hget htok hgen id
    rw [hsame] at hheld
    rw [hcounts, hsound.accounted]
    exact (Nat.add_right_cancel hheld).symm
  · obtain ⟨before, hbef, _⟩ := hfound other found hother
    exact hsound.fresh other before hbef
  · rw [tokens_replace htok] at hother
    rw [hgen]
    split_ifs at hother with htoken
    · obtain rfl := Option.some.inj hother
      exact hboun
    · exact hsound.bounded other found hother
  · rw [hexcl, hsound.exclusive]
    constructor
    · rintro ⟨before, hbef, hcount, hexcl⟩
      by_cases hother : other = token
      · obtain rfl : before = lease := Option.some.inj (hbef.symm.trans (hother ▸ hget))
        refine ⟨changed, ?_, ?_, hmode.trans hexcl⟩
        · rw [tokens_replace htok, if_pos hother]
        · rw [hcoun, hsame, hcount]
      · refine ⟨before, ?_, ?_, hexcl⟩
        · rw [tokens_replace htok, if_neg hother, hbef]
        · rw [hcoun, hcount]
    · rintro ⟨found, hother, hcount, hexcl⟩
      obtain ⟨before, hbef, hmodes, hcounts⟩ := hfound other found hother
      refine ⟨before, hbef, ?_, hmodes.trans hexcl⟩
      rw [hcounts, ← hcoun, hcount]
  · intro id first found hfirst hcount hexcl other held hother hheld
    obtain ⟨before, hbef, hmodes, hcounts⟩ := hfound first found hfirst
    obtain ⟨earlier, hear, _, hcountsEarlier⟩ := hfound other held hother
    refine hsound.alone id first before hbef ?_ (hmodes.trans hexcl) other earlier hear ?_
    · rw [hcounts, ← hcoun, hcount]
    · rw [hcountsEarlier, ← hcoun, hheld]

theorem counted_iff : leases.counted sessionId lease = true ↔
    lease.sessionId = sessionId ∧ lease.stage.held = true ∧ leases.isStale lease = false := by
  unfold counted isStale
  rw [Bool.and_eq_true, Bool.and_eq_true, decide_eq_true_eq, decide_eq_true_eq, decide_eq_false_iff_not,
    not_not, and_assoc]
  constructor
  · rintro ⟨rfl, hheld, hcur⟩
    exact ⟨rfl, hheld, hcur⟩
  · rintro ⟨rfl, hheld, hcur⟩
    exact ⟨rfl, hheld, hcur⟩

theorem counted_of_stale (hstale : leases.isStale lease = true) : leases.counted sessionId lease = false := by
  rw [← Bool.not_eq_true, counted_iff]
  exact fun hcoun => Bool.false_ne_true (hcoun.2.2.symm.trans hstale)

theorem counted_of_dropped (hdrop : lease.stage.held = false) : leases.counted sessionId lease = false := by
  rw [← Bool.not_eq_true, counted_iff]
  exact fun hcoun => Bool.false_ne_true (hdrop.symm.trans hcoun.2.1)

section

variable (hsound : leases.Sound limit)

include hsound

variable (hget : leases.tokens.get? token = some lease)

include hget

theorem Sound.drop (hcoun : leases.counted sessionId lease = true) {stage : Stage} (hdrop : stage.held = false) :
    ((leases.release sessionId token).setStage token lease stage).Sound limit := by
  have htok : ((leases.release sessionId token).setStage token lease stage).tokens =
      leases.tokens.set token { lease with stage } := rfl
  have hgen : ∀ other, ((leases.release sessionId token).setStage token lease stage).generationOf other =
      leases.generationOf other := fun _ => rfl
  have hcongr := counted_congr hgen
  have hnone : ∀ id, leases.counted id { lease with stage } = false := fun id => counted_of_dropped hdrop
  have hsess := (counted_iff.mp hcoun).1
  -- The leases that count afterwards are others, and counted before.
  have hoth : ∀ {id other found},
      ((leases.release sessionId token).setStage token lease stage).tokens.get? other = some found →
      ((leases.release sessionId token).setStage token lease stage).counted id found = true →
      other ≠ token ∧ leases.tokens.get? other = some found ∧ leases.counted id found = true := by
    intro id other found hother hcount
    rw [hcongr] at hcount
    rw [tokens_replace htok] at hother
    split_ifs at hother with htoken
    · rw [← Option.some.inj hother, hnone] at hcount
      exact absurd hcount Bool.false_ne_true
    · exact ⟨htoken, hother, hcount⟩
  refine ⟨fun id => ?_, fun other found hother => ?_, fun other found hother => ?_, fun id other => ?_, ?_⟩
  · have hheld := held_replace hget htok hgen id
    rw [hnone, if_neg Bool.false_ne_true, Nat.add_zero] at hheld
    have hcount := @countOf_release leases token sessionId id
    show (leases.release sessionId token).countOf id = _
    rw [hcount, hsound.accounted, hsound.accounted]
    split_ifs with hid
    · rw [hid, hcoun, if_pos rfl] at hheld
      rw [hid]
      omega
    · rw [if_neg] at hheld
      · exact hheld.symm
      · exact fun hother => hid ((counted_iff.mp hother).1.symm.trans hsess)
  · rw [tokens_replace htok] at hother
    split_ifs at hother with htoken
    · exact htoken ▸ hsound.fresh token lease hget
    · exact hsound.fresh other found hother
  · rw [tokens_replace htok] at hother
    split_ifs at hother with htoken
    · obtain rfl := Option.some.inj hother
      exact hsound.bounded token lease hget
    · exact hsound.bounded other found hother
  · have hexcl := @exclusive_release leases token sessionId id
    show (leases.release sessionId token).exclusive.get? id = some other ↔ _
    rw [hexcl]
    constructor
    · intro hgot
      split_ifs at hgot with hown
      obtain ⟨found, hfound, hcount, hmode⟩ := (hsound.exclusive id other).mp hgot
      have htoken : other ≠ token := by
        rintro rfl
        obtain rfl : found = lease := Option.some.inj (hfound.symm.trans hget)
        have hid : id = sessionId := (counted_iff.mp hcount).1.symm.trans hsess
        exact hown ⟨hid, hid ▸ hgot⟩
      refine ⟨found, ?_, ?_, hmode⟩
      · rw [tokens_replace htok, if_neg htoken, hfound]
      · rw [hcongr, hcount]
    · rintro ⟨found, hfound, hcount, hmode⟩
      obtain ⟨htoken, hbef, hcountBefore⟩ := hoth hfound hcount
      have hgot := (hsound.exclusive id other).mpr ⟨found, hbef, hcountBefore, hmode⟩
      rw [if_neg, hgot]
      rintro ⟨rfl, hown⟩
      exact htoken (Option.some.inj (hgot.symm.trans hown))
  · intro id first found hfirst hcount hmode other held hother hheld
    obtain ⟨_, hfirst, hcount⟩ := hoth hfirst hcount
    obtain ⟨_, hother, hheld⟩ := hoth hother hheld
    exact hsound.alone id first found hfirst hcount hmode other held hother hheld

theorem Sound.dropStale (hstale : leases.isStale lease = true) (hzero : leases.countOf sessionId = 0) {stage : Stage}
    (hdrop : stage.held = false) : ((leases.release sessionId token).setStage token lease stage).Sound limit := by
  refine hsound.replace hget rfl (fun _ => rfl) (fun id => ?_) (fun id => ?_) (fun id => ?_) rfl
    (hsound.bounded token lease hget)
  · have hcount := @countOf_release leases token sessionId id
    refine hcount.trans ?_
    split_ifs with hid
    · rw [hid, hzero]
    · rfl
  · have hexcl := @exclusive_release leases token sessionId id
    refine hexcl.trans ?_
    rw [if_neg]
    rintro ⟨rfl, hown⟩
    obtain ⟨found, hfound, hcount, _⟩ := (hsound.exclusive id token).mp hown
    obtain rfl : found = lease := Option.some.inj (hfound.symm.trans hget)
    exact Bool.false_ne_true ((counted_of_stale hstale).symm.trans hcount)
  · rw [counted_of_dropped hdrop, counted_of_stale hstale]

theorem Sound.stage {stage : Stage} (hheld : stage.held = lease.stage.held ∨ leases.isStale lease = true) :
    (leases.setStage token lease stage).Sound limit := by
  refine hsound.replace hget rfl (fun _ => rfl) (fun _ => rfl) (fun _ => rfl) (fun id => ?_) rfl
    (hsound.bounded token lease hget)
  rcases hheld with hheld | hstale
  · rw [counted, counted, hheld]
  · have hchg : leases.isStale { lease with stage } = true := hstale
    rw [counted_of_stale hstale, counted_of_stale hchg]

theorem Sound.create (hheld : lease.stage.held = true) (hcur : leases.isStale lease = false) :
    (leases.createLease token lease).Sound limit := by
  have hgener : lease.generation = leases.generationOf lease.sessionId := by
    rw [isStale, decide_eq_false_iff_not, not_not] at hcur
    exact hcur
  refine hsound.replace hget rfl generationOf_createLease (fun _ => rfl) (fun _ => rfl) (fun id => ?_) rfl
    (Nat.le_refl _)
  rw [counted, counted, hgener, hheld]
  rfl

end

theorem reserve_eq_some {mode : LeaseMode} (hresv : leases.reserve token sessionId mode = some next) :
    (mode = .exclusive → leases.countOf sessionId = 0) ∧
      (mode = .shared → leases.exclusive.get? sessionId = none) ∧ next = leases.withToken token sessionId mode := by
  unfold reserve at hresv
  split_ifs at hresv with hexcl hshar
  refine ⟨fun hmode => ?_, fun hmode => ?_, (Option.some.inj hresv).symm⟩
  · exact Nat.eq_zero_of_not_pos fun hpos => hexcl ⟨hmode, hpos⟩
  · exact JsMap.get?_eq_none.mpr ((Bool.not_eq_true _).mp fun hhas => hshar ⟨hmode, hhas⟩)

theorem Accounted.not_counted (hacc : leases.Accounted) (hzero : leases.countOf sessionId = 0)
    (hget : leases.tokens.get? token = some lease) : leases.counted sessionId lease ≠ true := by
  rw [hacc, held, count_eq_zero] at hzero
  rw [hzero token lease hget]
  exact Bool.false_ne_true

theorem Sound.withToken (hsound : leases.Sound limit) {mode : LeaseMode}
    (hexcl : mode = .exclusive → leases.countOf sessionId = 0)
    (hshar : mode = .shared → leases.exclusive.get? sessionId = none) :
    (leases.withToken limit sessionId mode).Sound (limit + 1) := by
  have hnew : leases.tokens.get? limit = none := by
    by_contra hsome
    obtain ⟨lease, hget⟩ := Option.ne_none_iff_exists'.mp hsome
    exact Nat.lt_irrefl _ (hsound.fresh limit lease hget)
  have htok : ∀ other, (leases.withToken limit sessionId mode).tokens.get? other =
      if other = limit then some ⟨sessionId, mode, leases.generationOf sessionId, .reserved⟩
      else leases.tokens.get? other := get?_set _ _ _
  have hcongr : ∀ id found, (leases.withToken limit sessionId mode).counted id found =
      leases.counted id found := counted_congr fun _ => rfl
  have hown : ∀ id, leases.counted id ⟨sessionId, mode, leases.generationOf sessionId, .reserved⟩ = true ↔
      id = sessionId := by
    intro id
    rw [counted_iff, isStale, decide_eq_false_iff_not, not_not]
    exact ⟨fun hcoun => hcoun.1.symm, fun hid => ⟨hid.symm, rfl, rfl⟩⟩
  have hgot : ∀ id, (leases.withToken limit sessionId mode).exclusive.get? id =
      if mode = .exclusive ∧ id = sessionId then some limit else leases.exclusive.get? id := by
    intro id
    show (if mode = .exclusive then leases.exclusive.set sessionId limit else leases.exclusive).get? id = _
    by_cases hmode : mode = .exclusive
    · rw [if_pos hmode, get?_set]
      simp only [hmode, true_and]
    · rw [if_neg hmode, if_neg fun hboth => hmode hboth.1]
  refine ⟨fun id => ?_, fun other found hother => ?_, fun other found hother => ?_, fun id other => ?_, ?_⟩
  · have hcount : (leases.withToken limit sessionId mode).countOf id =
        if id = sessionId then leases.countOf sessionId + 1 else leases.countOf id := by
      show ((leases.counts.set sessionId _).get? id).getD 0 = _
      rw [get?_set]
      split_ifs
      · rfl
      · rfl
    have hheld : (leases.withToken limit sessionId mode).held id =
        leases.held id + if leases.counted id ⟨sessionId, mode, leases.generationOf sessionId, .reserved⟩
          then 1 else 0 := count_set_of_none hnew _
    rw [hcount, hheld, ← hsound.accounted]
    split_ifs with hid hcoun hcoun
    · rw [hid]
    · exact absurd ((hown id).mpr hid) hcoun
    · exact absurd ((hown id).mp hcoun) hid
    · rfl
  · rw [htok] at hother
    split_ifs at hother with htoken
    · exact htoken ▸ Nat.lt_succ_self limit
    · exact (hsound.fresh other found hother).trans (Nat.lt_succ_self limit)
  · rw [htok] at hother
    split_ifs at hother with htoken
    · obtain rfl := Option.some.inj hother
      exact Nat.le_refl _
    · exact hsound.bounded other found hother
  · rw [hgot]
    constructor
    · intro hfound
      split_ifs at hfound with hmode
      · obtain rfl := Option.some.inj hfound
        refine ⟨_, (htok _).trans (if_pos rfl), ?_, hmode.1⟩
        rw [hcongr, hown]
        exact hmode.2
      · obtain ⟨found, hget, hcoun, hmode⟩ := (hsound.exclusive id other).mp hfound
        have hother : other ≠ limit := (hsound.fresh other found hget).ne
        exact ⟨found, (htok other).trans ((if_neg hother).trans hget), hcongr id found ▸ hcoun, hmode⟩
    · rintro ⟨found, hget, hcoun, hmode⟩
      rw [htok] at hget
      rw [hcongr] at hcoun
      split_ifs at hget with hother
      · obtain rfl := Option.some.inj hget
        rw [if_pos ⟨hmode, (hown id).mp hcoun⟩, hother]
      · rw [if_neg]
        · exact (hsound.exclusive id other).mpr ⟨found, hget, hcoun, hmode⟩
        · rintro ⟨hexclusiveMode, rfl⟩
          exact hsound.accounted.not_counted (hexcl hexclusiveMode) hget hcoun
  · intro id first found hfirst hcoun hmode other held hother hheld
    rw [htok] at hfirst hother
    rw [hcongr] at hcoun hheld
    split_ifs at hfirst hother with hone htwo htwo
    · exact htwo.trans hone.symm
    · obtain rfl := Option.some.inj hfirst
      obtain rfl := (hown id).mp hcoun
      exact absurd hheld (hsound.accounted.not_counted (hexcl hmode) hother)
    · obtain rfl := Option.some.inj hother
      obtain rfl := (hown id).mp hheld
      cases mode with
      | exclusive => exact absurd hcoun (hsound.accounted.not_counted (hexcl rfl) hfirst)
      | shared =>
        have hsome := (hsound.exclusive id first).mpr ⟨found, hfirst, hcoun, hmode⟩
        exact absurd ((hshar rfl).symm.trans hsome) (Option.some_ne_none first).symm
    · exact hsound.alone id first found hfirst hcoun hmode other held hother hheld

theorem generationOf_invalidate (other : JsStr) : (leases.invalidate sessionId).generationOf other =
    if other = sessionId then leases.generationOf sessionId + 1 else leases.generationOf other := by
  show ((leases.generations.set sessionId _).get? other).getD 0 = _
  rw [get?_set]
  split_ifs
  · rfl
  · rfl

theorem Sound.invalidate (hsound : leases.Sound limit) (sessionId : JsStr) :
    (leases.invalidate sessionId).Sound limit := by
  have hcoun : ∀ id token lease, leases.tokens.get? token = some lease →
      (leases.invalidate sessionId).counted id lease = if id = sessionId then false else leases.counted id lease := by
    intro id token lease hget
    rw [counted, generationOf_invalidate]
    split_ifs with hid
    · have hboun := hsound.bounded token lease hget
      refine Bool.eq_false_of_not_eq_true fun hcoun => ?_
      rw [Bool.and_eq_true, Bool.and_eq_true, decide_eq_true_eq, decide_eq_true_eq] at hcoun
      rw [hcoun.1.1, hid] at hboun
      omega
    · rfl
  have hheld : ∀ id, (leases.invalidate sessionId).held id = if id = sessionId then 0 else leases.held id := by
    intro id
    split_ifs with hid
    · refine JsMap.count_eq_zero.mpr fun token lease hget => ?_
      exact (hcoun id token lease hget).trans (if_pos hid)
    · refine count_congr fun token lease hget => ?_
      exact (hcoun id token lease hget).trans (if_neg hid)
  refine ⟨fun id => ?_, hsound.fresh, fun token lease hget => ?_, fun id token => ?_, ?_⟩
  · have hcount : (leases.invalidate sessionId).countOf id =
        if id = sessionId then 0 else leases.countOf id := by
      show ((leases.counts.delete sessionId).get? id).getD 0 = _
      rw [get?_delete]
      split_ifs
      · rfl
      · rfl
    rw [hcount, hheld, hsound.accounted]
  · rw [generationOf_invalidate]
    split_ifs with hid
    · have hboun := hsound.bounded token lease hget
      rw [hid] at hboun
      exact hboun.trans (Nat.le_succ _)
    · exact hsound.bounded token lease hget
  · have hexcl : (leases.invalidate sessionId).exclusive.get? id =
        if id = sessionId then none else leases.exclusive.get? id := get?_delete _ _ _
    rw [hexcl]
    constructor
    · intro hgot
      split_ifs at hgot with hid
      obtain ⟨lease, hget, hcount, hmode⟩ := (hsound.exclusive id token).mp hgot
      exact ⟨lease, hget, (hcoun id token lease hget).trans ((if_neg hid).trans hcount), hmode⟩
    · rintro ⟨lease, hget, hcount, hmode⟩
      have hcount := (hcoun id token lease hget).symm.trans hcount
      split_ifs at hcount with hid
      rw [if_neg hid]
      exact (hsound.exclusive id token).mpr ⟨lease, hget, hcount, hmode⟩
  · intro id first found hfirst hcount hmode other held hother hheldOther
    have hcount := (hcoun id first found hfirst).symm.trans hcount
    have hheldOther := (hcoun id other held hother).symm.trans hheldOther
    split_ifs at hcount hheldOther
    exact hsound.alone id first found hfirst hcount hmode other held hother hheldOther

theorem Sound.invalidateAll (hsound : leases.Sound limit) : leases.invalidateAll.Sound limit := by
  unfold Leases.invalidateAll
  induction leases.counts.keys generalizing leases with
  | nil => exact hsound
  | cons sessionId sessionIds ih => exact ih (hsound.invalidate sessionId)

/-! ### What makes them wrong -/

theorem Accounted.create_stale (hacc : leases.Accounted) (hget : leases.tokens.get? token = some lease)
    (hstale : leases.isStale lease = true) : ¬ (leases.createLease token lease).Accounted := by
  intro hnext
  have hheld := @held_replace leases (leases.createLease token lease) token lease _ hget rfl
    generationOf_createLease lease.sessionId
  have hcount : leases.countOf lease.sessionId = (leases.createLease token lease).held lease.sessionId :=
    hnext lease.sessionId
  rw [counted_of_stale hstale, if_neg Bool.false_ne_true, if_pos, ← hacc, ← hcount] at hheld
  · omega
  · rw [counted_iff, isStale, decide_eq_false_iff_not, not_not]
    exact ⟨rfl, rfl, rfl⟩

theorem Accounted.drop_stale (hacc : leases.Accounted) (hget : leases.tokens.get? token = some lease)
    (hstale : leases.isStale lease = true) (hpos : 0 < leases.countOf lease.sessionId) {stage : Stage} :
    ¬ ((leases.release lease.sessionId token).setStage token lease stage).Accounted := by
  intro hnext
  have hchg : leases.isStale { lease with stage } = true := hstale
  have hheld := @held_replace leases ((leases.release lease.sessionId token).setStage token lease stage) token
    lease _ hget rfl (fun _ => rfl) lease.sessionId
  have hcount : (leases.release lease.sessionId token).countOf lease.sessionId =
      ((leases.release lease.sessionId token).setStage token lease stage).held lease.sessionId :=
    hnext lease.sessionId
  rw [countOf_release, if_pos rfl] at hcount
  rw [counted_of_stale hstale, counted_of_stale hchg, ← hacc, ← hcount] at hheld
  omega

end Leases

end PiRp.Client

import PiRp.MemorySubtree
import PiRp.JsonDecimal

/-! What a relocation does to addresses. A batch is a sequence of stub insertions and of moves of single
members; the moves lead every moved node to its new uri and leave all other nodes alone. Old addresses
survive exactly when no new uri takes the place of another address. -/

namespace PiRp.Memory

open List JsonText

variable {tables result : Tables} {around : Surroundings}

/-! ### The condition of an address -/

theorem effectiveDisclosure_of_resolve {uri nodeId : JsStr} {row : NodeRow}
    (hresol : resolveId tables uri = some nodeId) (hrow : tables.nodes.get? nodeId = some row) :
    effectiveDisclosure tables uri = if row.uri = uri then row.disclosure
      else ((tables.aliases.get? uri).bind AliasRow.disclosure).or row.disclosure := by
  obtain ⟨found, hfound, hway⟩ := resolveId_eq_some.mp hresol
  rw [hrow] at hfound
  obtain rfl := Option.some.inj hfound
  by_cases huri : row.uri = uri
  · rw [if_pos huri, effectiveDisclosure, resolveEntry, NodeTable.byUri_eq_some.mpr ⟨hrow, huri⟩]
    dsimp only
    rw [nodeDisclosure, hrow, Option.bind_some]
  · rw [if_neg huri]
    obtain ⟨hnone, halias⟩ := hway.resolve_left huri
    obtain ⟨entry, hentry, rfl⟩ := Option.map_eq_some_iff.mp halias
    rw [effectiveDisclosure, resolveEntry, hnone, hentry, Option.bind_some]
    dsimp only [Option.map_some]
    rw [nodeDisclosure, hrow, Option.bind_some]
    cases entry.disclosure with
    | none => rfl
    | some disclosure => rfl

theorem Inserts.effectiveDisclosure_of_old {uri nodeId other : JsStr} {row : NodeRow}
    (hins : Inserts tables nodeId row result) (hnew : resolveId tables row.uri = none)
    (hother : resolveId tables uri = some other) :
    effectiveDisclosure result uri = effectiveDisclosure tables uri := by
  obtain ⟨present, hpres⟩ := get?_of_resolveId hother
  have hne : other ≠ nodeId := by
    rintro rfl
    rw [hins.fresh] at hpres
    exact nomatch hpres
  have hkept : result.nodes.get? other = some present := by rw [hins.nodes, if_neg hne, hpres]
  rw [effectiveDisclosure_of_resolve hother hpres,
    effectiveDisclosure_of_resolve (hins.resolveId_of_old hnew hother) hkept, hins.aliases]

/-! ### The moves of a batch -/

/-- The moves of single members that a plan asks for. -/
def Plan.steps (plan : Plan) : List (Plan × Member) :=
  if plan.changed then plan.members.map (plan, ·) else []

theorem ids_steps (plans : List Plan) : (plans.flatMap Plan.steps).map (fun step => step.2.nodeId) =
    movedIds (plans.filter Plan.changed) := by
  induction plans with
  | nil => rfl
  | cons plan rest ih =>
    rw [flatMap_cons, map_append, ih, Plan.steps]
    by_cases hchg : plan.changed = true
    · rw [if_pos hchg, filter_cons_of_pos hchg, map_map, movedIds, movedIds, flatMap_cons]
      rfl
    · rw [if_neg hchg, filter_cons_of_neg hchg, map_nil, nil_append]

theorem mem_steps {plans : List Plan} {step : Plan × Member} : step ∈ plans.flatMap Plan.steps ↔
    step.1 ∈ plans ∧ step.1.changed = true ∧ step.2 ∈ step.1.members := by
  rw [mem_flatMap]
  constructor
  · rintro ⟨plan, hplan, hstep⟩
    rw [Plan.steps] at hstep
    split_ifs at hstep with hchg
    · obtain ⟨member, hmemb, rfl⟩ := mem_map.mp hstep
      exact ⟨hplan, hchg, hmemb⟩
    · exact nomatch hstep
  · rintro ⟨hplan, hchg, hmemb⟩
    refine ⟨step.1, hplan, ?_⟩
    rw [Plan.steps, if_pos hchg]
    exact mem_map.mpr ⟨step.2, hmemb, rfl⟩

theorem movedIds_changed_sublist (plans : List Plan) :
    (movedIds (plans.filter Plan.changed)).Sublist (movedIds plans) := by
  induction plans with
  | nil => exact .slnil
  | cons plan rest ih =>
    rw [movedIds, movedIds, flatMap_cons] at *
    by_cases hchg : plan.changed = true
    · rw [filter_cons_of_pos hchg, flatMap_cons]
      exact (List.Sublist.refl _).append ih
    · rw [filter_cons_of_neg hchg]
      exact ih.trans (sublist_append_right _ _)

section Steps

variable [Tokenizer]

variable {plan : Plan} {parentId : Option JsStr} {row : NodeRow} {nodeId : JsStr}

theorem effectiveDisclosure_moveMember {member : Member}
    (hmove : moveMember around plan parentId tables member = .ok result)
    (hrow : tables.nodes.get? member.nodeId = some row) (huri : row.uri = member.node.uri)
    (hcond : plan.condition = none) {uri : JsStr} (hresol : resolveId tables uri = some nodeId) :
    effectiveDisclosure result uri = if uri = plan.newUri member ∨ uri = member.node.uri then row.disclosure
      else effectiveDisclosure tables uri := by
  obtain ⟨hnodes, haliases, _⟩ := moveMember_eq_ok hmove
  have hafter := resolveId_moveMember hmove hrow huri uri
  have hmoved : result.nodes.get? member.nodeId = some (movedRow around plan parentId member row) := by
    rw [hnodes, if_pos rfl, hrow, Option.map_some]
  have hprior : effectiveDisclosure tables member.node.uri = row.disclosure := by
    rw [effectiveDisclosure_of_resolve (resolveId_eq_some.mpr ⟨row, hrow, .inl huri⟩) hrow, if_pos huri]
  split_ifs at hafter ⊢ with hplace
  · rw [effectiveDisclosure_of_resolve hafter hmoved]
    by_cases hnew : plan.newUri member = uri
    · exact if_pos hnew
    · have hold := hplace.resolve_left (Ne.symm hnew)
      rw [movedRow_uri, if_neg hnew, haliases, if_pos hold, hcond, Option.getD_none, hprior,
        movedRow_disclosure, Option.bind_some, Option.or_self]
  · rw [not_or] at hplace
    rw [hresol] at hafter
    obtain ⟨present, hpres⟩ := get?_of_resolveId hresol
    by_cases hid : nodeId = member.nodeId
    · subst hid
      rw [hrow] at hpres
      obtain rfl := Option.some.inj hpres
      rw [effectiveDisclosure_of_resolve hafter hmoved, effectiveDisclosure_of_resolve hresol hrow,
        haliases, if_neg hplace.2, movedRow_uri, if_neg (Ne.symm hplace.1), huri,
        if_neg (Ne.symm hplace.2), movedRow_disclosure]
    · have hkept : result.nodes.get? nodeId = some present := by rw [hnodes, if_neg hid, hpres]
      rw [effectiveDisclosure_of_resolve hafter hkept, effectiveDisclosure_of_resolve hresol hpres,
        haliases, if_neg hplace.2]

/-! ### Induction over the writes -/

theorem stubAncestors_rule {Holds : Tables → Prop}
    (hstub : ∀ {tables result ancestor parentUri}, Holds tables → resolveUri tables ancestor = none →
      insertNodeAs tables around (stubInput ancestor parentUri) true (around.generateId ancestor) =
        .ok result → Holds result) {uris : List JsStr} {parentUri : Option JsStr}
    (hstubs : stubAncestors around uris tables parentUri = .ok result) (hholds : Holds tables) : Holds result := by
  induction uris generalizing tables parentUri with
  | nil => exact Except.ok.inj hstubs ▸ hholds
  | cons ancestor rest ih =>
    rw [stubAncestors] at hstubs
    cases hresol : resolveUri tables ancestor with
    | some node =>
      rw [hresol] at hstubs
      exact ih hstubs hholds
    | none =>
      rw [hresol] at hstubs
      obtain ⟨middle, hinsert, hstubs⟩ := bind_eq_ok.mp hstubs
      exact ih hstubs (hstub hholds hresol hinsert)

theorem ensureStubAncestors_rule {Holds : Tables → Prop}
    (hstub : ∀ {tables result ancestor parentUri}, Holds tables → resolveUri tables ancestor = none →
      insertNodeAs tables around (stubInput ancestor parentUri) true (around.generateId ancestor) =
        .ok result → Holds result) {uri : JsStr} {explicitParent : Option JsStr}
    (hstubs : ensureStubAncestors tables around uri explicitParent = .ok result)
    (hholds : Holds tables) : Holds result := by
  rw [ensureStubAncestors] at hstubs
  cases hpar : textual explicitParent with
  | some parent =>
    rw [hpar] at hstubs
    exact Except.ok.inj hstubs ▸ hholds
  | none =>
    rw [hpar] at hstubs
    exact stubAncestors_rule hstub hstubs hholds

theorem moveMembers_rule {plan : Plan} {parentId : Option JsStr}
    {Inv : List (Plan × Member) → List (Plan × Member) → Tables → Prop}
    (hmove : ∀ {done step pending tables result}, Inv done (step :: pending) tables →
      moveMember around step.1 parentId tables step.2 = .ok result → Inv (done ++ [step]) pending result)
    {members : List Member} {done pending : List (Plan × Member)}
    (hmoves : moveMembers around plan parentId members tables = .ok result)
    (hinv : Inv done (members.map (plan, ·) ++ pending) tables) :
    Inv (done ++ members.map (plan, ·)) pending result := by
  induction members generalizing tables done with
  | nil =>
    rw [map_nil, append_nil]
    exact Except.ok.inj hmoves ▸ hinv
  | cons member rest ih =>
    obtain ⟨middle, hfirst, hrest⟩ := bind_eq_ok.mp hmoves
    have hafter := ih hrest (hmove hinv hfirst)
    rwa [append_assoc, singleton_append] at hafter

variable [NumberText]

omit [Tokenizer] in
theorem remapAwakenUris_eq (tables : Tables) (fromUri toUri : JsStr) :
    ∃ kv, remapAwakenUris tables fromUri toUri = { tables with kv } := by
  rw [remapAwakenUris]
  split
  · split_ifs
    · exact ⟨tables.kv, rfl⟩
    · exact ⟨_, rfl⟩
  · exact ⟨tables.kv, rfl⟩

variable {plans : List Plan}

/-- What every stub insertion, every move of a member and every change of `memory_kv` keeps holds after
the batch. -/
theorem applyPlans_rule {Inv : List (Plan × Member) → List (Plan × Member) → Tables → Prop}
    (hstub : ∀ {done pending tables result ancestor parentUri}, Inv done pending tables →
      resolveUri tables ancestor = none →
      insertNodeAs tables around (stubInput ancestor parentUri) true (around.generateId ancestor) =
        .ok result → Inv done pending result)
    (hmove : ∀ {done step pending parentId tables result}, Inv done (step :: pending) tables →
      moveMember around step.1 parentId tables step.2 = .ok result → Inv (done ++ [step]) pending result)
    (hkv : ∀ {done pending tables kv}, Inv done pending tables → Inv done pending { tables with kv })
    {plans : List Plan} {done : List (Plan × Member)} (hplans : applyPlans around plans tables = .ok result)
    (hinv : Inv done (plans.flatMap Plan.steps) tables) : Inv (done ++ plans.flatMap Plan.steps) [] result := by
  induction plans generalizing tables done with
  | nil =>
    rw [flatMap_nil, append_nil]
    exact Except.ok.inj hplans ▸ hinv
  | cons plan rest ih =>
    obtain ⟨middle, hfirst, hrest⟩ := bind_eq_ok.mp hplans
    rw [flatMap_cons, ← append_assoc]
    refine ih hrest ?_
    rw [applyPlan] at hfirst
    rw [flatMap_cons] at hinv
    by_cases hchg : plan.changed = true
    · rw [if_pos hchg] at hfirst
      rw [Plan.steps, if_pos hchg] at hinv ⊢
      obtain ⟨stubbed, hstubs, hfirst⟩ := bind_eq_ok.mp hfirst
      obtain ⟨moved, hmoves, hfirst⟩ := bind_eq_ok.mp hfirst
      obtain ⟨kv, hremap⟩ := remapAwakenUris_eq moved plan.fromUri plan.toRoot
      obtain rfl := Except.ok.inj hfirst
      rw [hremap]
      exact hkv (moveMembers_rule hmove hmoves (ensureStubAncestors_rule hstub hstubs hinv))
    · rw [if_neg hchg] at hfirst
      rw [Plan.steps, if_neg hchg] at hinv ⊢
      rw [append_nil]
      exact Except.ok.inj hfirst ▸ hinv

variable {moves : List Move}

theorem relocateMany_eq_ok : relocateMany tables around moves = .ok result ↔
    ∃ plans, planMoves tables moves [] = .ok plans ∧ checkPlans tables plans = .ok () ∧
      applyPlans around plans tables = .ok result := by
  rw [relocateMany, bind_eq_ok]
  refine exists_congr fun plans => and_congr_right fun _ => ?_
  rw [bind_eq_ok]
  exact ⟨fun ⟨_, hcheck, happly⟩ => ⟨hcheck, happly⟩, fun ⟨hcheck, happly⟩ => ⟨(), hcheck, happly⟩⟩

/-! ### Where the nodes end -/

/-- A batch after the moves of `done`. -/
structure Progress (start : Tables) (done pending : List (Plan × Member)) (tables : Tables) : Prop where
  nodup : ((done ++ pending).map fun step => step.2.nodeId).Nodup
  waiting : ∀ step ∈ pending, tables.nodes.get? step.2.nodeId = some step.2.node
  moved : ∀ step ∈ done, ∃ row, tables.nodes.get? step.2.nodeId = some row ∧
    row.uri = step.1.newUri step.2 ∧ row.disclosure = step.2.node.disclosure
  outside : ∀ id row, id ∉ (done ++ pending).map (fun step => step.2.nodeId) →
    start.nodes.get? id = some row → tables.nodes.get? id = some row

variable {start : Tables} {done pending : List (Plan × Member)} {step : Plan × Member}

omit [Tokenizer] [NumberText] in
theorem Progress.insert (hprog : Progress start done pending tables)
    (hins : Inserts tables nodeId row result) : Progress start done pending result := by
  have hkept : ∀ {id found}, tables.nodes.get? id = some found → result.nodes.get? id = some found := by
    intro id found hfound
    rw [hins.nodes, if_neg, hfound]
    rintro rfl
    rw [hins.fresh] at hfound
    exact nomatch hfound
  refine ⟨hprog.nodup, fun step hstep => hkept (hprog.waiting step hstep), fun step hstep => ?_,
    fun id row hid hrow => hkept (hprog.outside id row hid hrow)⟩
  obtain ⟨row, hrow, hmoved⟩ := hprog.moved step hstep
  exact ⟨row, hkept hrow, hmoved⟩

omit [NumberText] in
theorem Progress.move (hprog : Progress start done (step :: pending) tables)
    (hmove : moveMember around step.1 parentId tables step.2 = .ok result) :
    Progress start (done ++ [step]) pending result := by
  obtain ⟨hnodes, _, _⟩ := moveMember_eq_ok hmove
  have hall : done ++ [step] ++ pending = done ++ step :: pending := by
    rw [append_assoc, singleton_append]
  have hids := hprog.nodup
  rw [map_append, map_cons, nodup_append', nodup_cons] at hids
  obtain ⟨_, ⟨hnot, _⟩, hdisj⟩ := hids
  have hother : ∀ {id found}, id ≠ step.2.nodeId → tables.nodes.get? id = some found →
      result.nodes.get? id = some found := by
    intro id found hne hfound
    rw [hnodes, if_neg hne, hfound]
  refine ⟨hall ▸ hprog.nodup, fun other hmem => ?_, fun other hmem => ?_, fun id row hid hrow => ?_⟩
  · refine hother (fun heq => ?_) (hprog.waiting other (mem_cons_of_mem _ hmem))
    exact hnot (heq ▸ mem_map_of_mem hmem)
  · rcases mem_append.mp hmem with hmem | hmem
    · obtain ⟨row, hrow, hmoved⟩ := hprog.moved other hmem
      refine ⟨row, hother (fun heq => ?_) hrow, hmoved⟩
      exact hdisj (mem_map_of_mem hmem) (heq ▸ mem_cons_self)
    · obtain rfl := mem_singleton.mp hmem
      refine ⟨movedRow around other.1 parentId other.2 other.2.node, ?_, rfl, rfl⟩
      rw [hnodes, if_pos rfl, hprog.waiting other mem_cons_self, Option.map_some]
  · rw [hall] at hid
    refine hother (fun heq => hid ?_) (hprog.outside id row hid hrow)
    rw [heq]
    exact mem_map_of_mem (mem_append_right _ mem_cons_self)

omit [Tokenizer] [NumberText] in
theorem progress_start (hplann : ∀ plan ∈ plans, Planned tables plan)
    (hnodup : (movedIds plans).Nodup) : Progress tables [] (plans.flatMap Plan.steps) tables := by
  refine ⟨?_, fun step hstep => ?_, fun step hstep => absurd hstep not_mem_nil,
    fun id row _ hrow => hrow⟩
  · rw [nil_append, ids_steps]
    exact hnodup.sublist (movedIds_changed_sublist plans)
  · obtain ⟨hplan, _, hmemb⟩ := mem_steps.mp hstep
    exact (hplann step.1 hplan).get? hmemb

theorem progress_relocateMany (hrel : relocateMany tables around moves = .ok result)
    (hplans : planMoves tables moves [] = .ok plans) : Progress tables (plans.flatMap Plan.steps) [] result := by
  obtain ⟨found, hfound, _, happly⟩ := relocateMany_eq_ok.mp hrel
  rw [hplans] at hfound
  obtain rfl := Except.ok.inj hfound
  obtain ⟨hplann, hnodup, _⟩ := planMoves_eq_ok hplans nofun nodup_nil
  exact applyPlans_rule (fun hinv _ hinsert => hinv.insert (inserts_of_insertNodeAs hinsert))
    (fun hinv hmove => hinv.move hmove) (fun hinv => ⟨hinv.1, hinv.2, hinv.3, hinv.4⟩) happly
    (progress_start hplann hnodup)

/-! ### What the old addresses lead to -/

/-- Every address of the start leads to its node under its condition. -/
def Kept (start tables : Tables) : Prop :=
  ∀ uri id, resolveId start uri = some id →
    resolveId tables uri = some id ∧ effectiveDisclosure tables uri = effectiveDisclosure start uri

omit [Tokenizer] [NumberText] in
theorem Kept.insert (hkept : Kept start tables)
    (hins : Inserts tables nodeId row result) (hnew : resolveId tables row.uri = none) : Kept start result := by
  intro uri id hresol
  obtain ⟨hbef, hdis⟩ := hkept uri id hresol
  exact ⟨hins.resolveId_of_old hnew hbef, (hins.effectiveDisclosure_of_old hnew hbef).trans hdis⟩

/-- A new uri that was an address before was one of the same member, under the member's own condition. -/
def Owned (start : Tables) (step : Plan × Member) : Prop :=
  ∀ id, resolveId start (step.1.newUri step.2) = some id →
    id = step.2.nodeId ∧ effectiveDisclosure start (step.1.newUri step.2) = step.2.node.disclosure

omit [NumberText] in
theorem Kept.move (hkept : Kept start tables) (hmove : moveMember around step.1 parentId tables step.2 = .ok result)
    (hrow : tables.nodes.get? step.2.nodeId = some step.2.node) (hcond : step.1.condition = none)
    (howned : Owned start step) : Kept start result := by
  intro uri id hresol
  obtain ⟨hbef, hdis⟩ := hkept uri id hresol
  rw [resolveId_moveMember hmove hrow rfl uri, effectiveDisclosure_moveMember hmove hrow rfl hcond hbef]
  split_ifs with hplace
  · rcases hplace with rfl | rfl
    · obtain ⟨rfl, hsame⟩ := howned id hresol
      exact ⟨rfl, hsame.symm⟩
    · have hown : resolveId tables step.2.node.uri = some step.2.nodeId :=
        resolveId_eq_some.mpr ⟨_, hrow, .inl rfl⟩
      refine ⟨hown ▸ hbef, ?_⟩
      rw [← hdis, effectiveDisclosure_of_resolve hown hrow, if_pos rfl]
  · exact ⟨hbef, hdis⟩

/-- What a batch is to keep of the addresses. -/
structure AddressingKept (before after : Tables) (plans : List Plan) : Prop where
  kept : Kept before after
  moved : ∀ plan ∈ plans, plan.changed = true → ∀ member ∈ plan.members,
    resolveId after (plan.newUri member) = some member.nodeId
  unique : (after.nodes.rows.values.map NodeRow.uri).Nodup
  outside : ∀ id row, id ∉ movedIds plans → before.nodes.get? id = some row →
    (after.nodes.get? id).map NodeRow.uri = some row.uri

/-- An accepted batch keeps the addresses, a rejected one changes nothing. -/
def RelocationKeepsAddressing (tables : Tables) (around : Surroundings) (moves : List Move) : Prop :=
  (∀ error, relocateMany tables around moves = .error error →
    perform tables (around, .relocateMany moves) = tables) ∧
  ∀ result plans, relocateMany tables around moves = .ok result →
    planMoves tables moves [] = .ok plans →
      AddressingKept tables (perform tables (around, .relocateMany moves)) plans

/-- The new uris of the moved nodes are no address of another node and none under another condition. -/
def TargetsOwned (tables : Tables) (plans : List Plan) : Prop :=
  ∀ plan ∈ plans, plan.changed = true → ∀ member ∈ plan.members, Owned tables (plan, member)

/-- The batch while it keeps the addresses. -/
structure Preserving (start : Tables) (plans : List Plan) (done pending : List (Plan × Member))
    (tables : Tables) : Prop where
  progress : Progress start done pending tables
  kept : Kept start tables
  steps : ∀ step ∈ pending, step ∈ plans.flatMap Plan.steps

theorem kept_relocateMany (hcon : ∀ move ∈ moves, move.condition = none)
    (hrel : relocateMany tables around moves = .ok result)
    (hplans : planMoves tables moves [] = .ok plans) (howned : TargetsOwned tables plans) : Kept tables result := by
  obtain ⟨found, hfound, _, happly⟩ := relocateMany_eq_ok.mp hrel
  rw [hplans] at hfound
  obtain rfl := Except.ok.inj hfound
  obtain ⟨hplann, hnodup, hsour⟩ := planMoves_eq_ok hplans nofun nodup_nil
  have hcond : ∀ plan ∈ plans, plan.condition = none := by
    intro plan hplan
    rcases hsour plan hplan with hplan | ⟨move, hmove, heq⟩
    · exact nomatch hplan
    · exact heq.trans (hcon move hmove)
  have hrun : Preserving tables plans ([] ++ plans.flatMap Plan.steps) [] result := by
    refine applyPlans_rule ?_ ?_ ?_ happly
      ⟨progress_start hplann hnodup, fun uri id hresol => ⟨hresol, rfl⟩, fun step hstep => hstep⟩
    · intro done pending state next ancestor parentUri hinv hfree hinsert
      have hins := inserts_of_insertNodeAs hinsert
      refine ⟨hinv.progress.insert hins, hinv.kept.insert hins ?_, hinv.steps⟩
      exact congrArg (Option.map Prod.fst) hfree
    · intro done step pending parentId state next hinv hmove
      obtain ⟨hplan, hchg, hmemb⟩ := mem_steps.mp (hinv.steps step mem_cons_self)
      refine ⟨hinv.progress.move hmove, ?_, fun other hother =>
        hinv.steps other (mem_cons_of_mem _ hother)⟩
      exact hinv.kept.move hmove (hinv.progress.waiting step mem_cons_self) (hcond _ hplan)
        (howned _ hplan hchg _ hmemb)
    · intro done pending state kv hinv
      have hprog := hinv.progress
      exact ⟨⟨hprog.1, hprog.2, hprog.3, hprog.4⟩, hinv.kept, hinv.steps⟩
  exact hrun.kept

omit [Tokenizer] [NumberText] in
theorem Progress.address (hprog : Progress start (plans.flatMap Plan.steps) [] tables) (hplan : plan ∈ plans)
    (hchg : plan.changed = true) {member : Member} (hmemb : member ∈ plan.members) :
    resolveId tables (plan.newUri member) = some member.nodeId ∧
      effectiveDisclosure tables (plan.newUri member) = member.node.disclosure := by
  obtain ⟨row, hrow, huri, hdis⟩ :=
    hprog.moved (plan, member) (mem_steps.mpr ⟨hplan, hchg, hmemb⟩)
  have hresol := resolveId_eq_some.mpr ⟨row, hrow, .inl huri⟩
  refine ⟨hresol, ?_⟩
  rw [effectiveDisclosure_of_resolve hresol hrow, if_pos huri, hdis]

/-- A relocation that leaves the conditions alone keeps every address exactly when each new uri is free
or already leads to the node that takes it, under that node's condition. -/
theorem relocation_keeps_addressing_iff (tables : Tables) (around : Surroundings) (moves : List Move)
    (hcon : ∀ move ∈ moves, move.condition = none) : RelocationKeepsAddressing tables around moves ↔
      ∀ result plans, relocateMany tables around moves = .ok result →
        planMoves tables moves [] = .ok plans → TargetsOwned tables plans := by
  have hper : ∀ result, relocateMany tables around moves = .ok result →
      perform tables (around, .relocateMany moves) = result := by
    intro result hres
    rw [perform, Operation.run, hres]
  constructor
  · rintro ⟨_, hacc⟩ result plans hrel hplans plan hplan hchg member hmemb id hresol
    have hkept := (hacc result plans hrel hplans).kept
    rw [hper result hrel] at hkept
    obtain ⟨hafter, hdis⟩ := hkept _ id hresol
    obtain ⟨hown, hcond⟩ :=
      (progress_relocateMany hrel hplans).address hplan hchg hmemb
    rw [hown] at hafter
    exact ⟨(Option.some.inj hafter).symm, hdis.symm.trans hcond⟩
  · intro howned
    refine ⟨fun error herror => ?_, fun result plans hrel hplans => ?_⟩
    · rw [perform, Operation.run, herror]
    · rw [hper result hrel]
      have hprog := progress_relocateMany hrel hplans
      refine ⟨kept_relocateMany hcon hrel hplans (howned result plans hrel hplans), ?_, result.nodes.uris_nodup, ?_⟩
      · exact fun plan hplan hchg member hmemb =>
          (hprog.address hplan hchg hmemb).1
      · intro id row hid hrow
        rw [hprog.outside id row ?_ hrow, Option.map_some]
        rw [append_nil, ids_steps]
        exact fun hmem => hid ((movedIds_changed_sublist plans).subset hmem)

end Steps

section Sample

local instance relocationTokenizer : Tokenizer := plainTokenizer

local instance relocationNumbers : NumberText := decimalNumbers

/-- A node with a child, and a second address for the child. -/
def aliasCalls : List Operation :=
  [samplePut "history://r" "one", samplePut "history://r/c" "two",
    .addAlias (js "history://u") (js "history://r/c") none]

def parentMove : List Move := [⟨js "history://r", js "history://u", none⟩]

/-- The parent may take the address of its child. -/
theorem relocation_takes_address : Reachable (sampleRun aliasCalls) ∧ (∀ move ∈ parentMove, move.condition = none) ∧
      ¬ RelocationKeepsAddressing (sampleRun aliasCalls) sampleAround parentMove := by
  refine ⟨reachable_sampleRun _ (by decide +kernel), by decide, fun ⟨_, hacc⟩ => ?_⟩
  have hrel : relocateMany (sampleRun aliasCalls) sampleAround parentMove =
      .ok (perform (sampleRun aliasCalls) (sampleAround, .relocateMany parentMove)) := by decide +kernel
  obtain ⟨plans, hplans, _⟩ := relocateMany_eq_ok.mp hrel
  have hkept := (hacc _ plans hrel hplans).kept (js "history://u") (js "history://r/c")
    (by decide +kernel)
  exact absurd hkept.1 (by decide +kernel)

def freeMove : List Move := [⟨js "history://r", js "history://v", none⟩]

def freePlans : List Plan := (planMoves (sampleRun aliasCalls) freeMove []).toOption.getD []

/-- A move to a free uri takes the child along and keeps its second address. -/
theorem relocation_keeps_addressing_sample : (relocateMany (sampleRun aliasCalls) sampleAround freeMove).isOk = true ∧
      RelocationKeepsAddressing (sampleRun aliasCalls) sampleAround freeMove := by
  refine ⟨by decide +kernel, (relocation_keeps_addressing_iff _ _ _ (by decide)).mpr ?_⟩
  intro result plans _ hplans plan hplan _ member hmemb id hresol
  have hfree : ∀ plan ∈ freePlans, ∀ member ∈ plan.members,
      resolveId (sampleRun aliasCalls) (plan.newUri member) = none := by decide +kernel
  have heq : freePlans = plans := by rw [freePlans, hplans]; rfl
  have hnone := hfree plan (heq ▸ hplan) member hmemb
  exact absurd (hnone.symm.trans hresol) nofun

end Sample

end PiRp.Memory

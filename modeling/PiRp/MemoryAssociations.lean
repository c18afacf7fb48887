import PiRp.MemoryForest
import PiRp.JsonDecimal

/-! Edges and the remaining methods of the memory store. An edge names its target by a uri. Reading an
edge forwards resolves that uri through aliases; reading backwards and deleting compare it with the uri
of the node. A relocation keeps both readings apart from the uris it takes and leaves, and a deletion
leaves no edge behind that reached the deleted nodes under their own uris. -/

namespace PiRp.Memory

open List ParentForest Option

/-! ### Edges -/

def addEdge (tables : Tables) (nodeId targetUri : JsStr) (kind : Option JsStr)
    (disclosure : Option (Option JsStr)) : Tables :=
  { tables with
    edges := tables.edges.set (nodeId, targetUri) ⟨kind,
      upsertDisclosure ((tables.edges.get? (nodeId, targetUri)).map EdgeRow.disclosure) disclosure⟩ }

inductive Direction where
  | outgoing
  | incoming
  deriving DecidableEq

structure Related where
  direction : Direction
  nodeId : JsStr
  targetUri : JsStr
  kind : Option JsStr
  disclosure : Option JsStr

def related (direction : Direction) (edge : (JsStr × JsStr) × EdgeRow) : Related :=
  ⟨direction, edge.1.1, edge.1.2, edge.2.kind, edge.2.disclosure⟩

/-- The edges of a node in both directions. -/
def listRelated (tables : Tables) (nodeId : JsStr) : List Related :=
  (tables.edges.entries.filter fun edge => edge.1.1 = nodeId).map (related .outgoing) ++
    match tables.nodes.get? nodeId with
    | none => []
    | some node => (tables.edges.entries.filter fun edge => edge.1.2 = node.uri).map (related .incoming)

/-! ### The other methods that write -/

def setAliasDisclosure (tables : Tables) (aliasUri : JsStr) (disclosure : Option JsStr) :
    Except JsStr Tables :=
  match tables.aliases.get? aliasUri with
  | none => .error (js "setAliasDisclosure: unknown alias uri " ++ aliasUri)
  | some entry => .ok (addAlias tables aliasUri entry.targetNodeId (some disclosure))

/-- A timestamp of access for each of the nodes. -/
def markAccessed (tables : Tables) (nodeIds : List JsStr) (moment : JsStr) : Tables :=
  { tables with
    nodes := nodeIds.foldl (fun nodes nodeId =>
      nodes.modify nodeId (fun row => { row with lastAccessedAt := some moment }) fun _ => rfl)
        tables.nodes }

section Actions

variable [Tokenizer]

def setEntryDisclosure (tables : Tables) (around : Surroundings) (uri : JsStr)
    (disclosure : Option JsStr) : Except JsStr Tables :=
  match resolveEntry tables uri with
  | none => .error (js "setEntryDisclosure: unknown uri " ++ uri)
  | some (.canonical nodeId) =>
    (updateNode tables around nodeId { disclosure := some disclosure } none).map Prod.fst
  | some (.alias _ _) => setAliasDisclosure tables uri disclosure

def ftsTokenizerKey : JsStr := js "fts_tokenizer"

/-- The tables of a new database. -/
def Tables.fresh : Tables :=
  { Tables.empty with
    kv := (JsMap.empty.set schemaVersionKey (js "4")).set ftsTokenizerKey (js "segmenter") }

inductive Action where
  | operation (operation : Operation)
  | addEdge (nodeId targetUri : JsStr) (kind : Option JsStr) (disclosure : Option (Option JsStr))
  | setEntryDisclosure (uri : JsStr) (disclosure : Option JsStr)
  | setAliasDisclosure (aliasUri : JsStr) (disclosure : Option JsStr)
  /-- `addGlossaryEntry` without its index. -/
  | addKeyword (keyword nodeId : JsStr)
  | archiveRevision (nodeId content : JsStr) (editorSource editorModel uri : Option JsStr)
      (snapshot : Option NodeRow) (anchor : Option RevisionAnchor)
  | setKv (key value : JsStr)
  | markAccessed (nodeIds : List JsStr) (moment : JsStr)
  | reindexNode (nodeId : JsStr)
  | reindexAll
  | seed

variable [JsonText.NumberText]

def Action.run (tables : Tables) (around : Surroundings) : Action → Except JsStr Tables
  | .operation call => call.run tables around
  | .addEdge nodeId targetUri kind disclosure => .ok (Memory.addEdge tables nodeId targetUri kind disclosure)
  | .setEntryDisclosure uri disclosure => Memory.setEntryDisclosure tables around uri disclosure
  | .setAliasDisclosure aliasUri disclosure => Memory.setAliasDisclosure tables aliasUri disclosure
  | .addKeyword keyword nodeId =>
    .ok { tables with glossary := replaceRow tables.glossary keyword nodeId }
  | .archiveRevision nodeId content editorSource editorModel uri snapshot anchor =>
    .ok (Memory.archiveRevision tables around nodeId content editorSource editorModel uri snapshot
      anchor).1
  | .setKv key value => .ok (Memory.setKv tables key value)
  | .markAccessed nodeIds moment => .ok (Memory.markAccessed tables nodeIds moment)
  | .reindexNode nodeId => .ok (Memory.reindexNode tables nodeId)
  | .reindexAll => .ok (Memory.reindexAll tables)
  | .seed => Memory.seed tables around

/-- The tables after an action; one that throws is rolled back. -/
def act (tables : Tables) (call : Surroundings × Action) : Tables :=
  match call.2.run tables call.1 with
  | .ok result => result
  | .error _ => tables

def actAll (tables : Tables) (calls : List (Surroundings × Action)) : Tables := calls.foldl act tables

/-- The tables a store can come to through its public methods. -/
def StoreReachable (tables : Tables) : Prop := ∃ calls, tables = actAll Tables.fresh calls

/-- The tables after actions on a fresh store, for examples. -/
def sampleActions (actions : List Action) : Tables :=
  actAll Tables.fresh ((Action.seed :: actions).map fun action => (sampleAround, action))

theorem storeReachable_sampleActions (actions : List Action) : StoreReachable (sampleActions actions) :=
  ⟨_, rfl⟩

end Actions

/-! ### Both readings of the edges -/

/-- Every edge leads to a node. -/
def EdgesLead (tables : Tables) : Prop :=
  ∀ key row, tables.edges.get? key = some row → ∃ target, resolveId tables key.2 = some target

/-- `target` is an outgoing neighbour of `source`. -/
def LeadsTo (tables : Tables) (source target : JsStr) (edge : EdgeRow) : Prop :=
  ∃ item ∈ listRelated tables source, item.direction = .outgoing ∧
    resolveId tables item.targetUri = some target ∧ EdgeRow.mk item.kind item.disclosure = edge

/-- `source` is listed as an incoming neighbour of `target`. -/
def ListedAt (tables : Tables) (source target : JsStr) (edge : EdgeRow) : Prop :=
  ∃ item ∈ listRelated tables target, item.direction = .incoming ∧
    item.nodeId = source ∧ EdgeRow.mk item.kind item.disclosure = edge

instance (tables : Tables) (source target : JsStr) (edge : EdgeRow) :
    Decidable (ListedAt tables source target edge) :=
  inferInstanceAs (Decidable (∃ item ∈ listRelated tables target, _ ∧ _ ∧ _))

/-- The nodes of before have the same neighbours after. -/
def AssociationsKept (before after : Tables) : Prop :=
  ∀ source target, before.nodes.get? source ≠ none → before.nodes.get? target ≠ none → ∀ edge,
    (LeadsTo after source target edge ↔ LeadsTo before source target edge) ∧
      (ListedAt after source target edge ↔ ListedAt before source target edge)

variable {tables result start : Tables} {around : Surroundings} {nodeId source target : JsStr}
  {edge : EdgeRow}

theorem leadsTo_iff : LeadsTo tables source target edge ↔
    ∃ uri, tables.edges.get? (source, uri) = some edge ∧ resolveId tables uri = some target := by
  unfold LeadsTo listRelated
  constructor
  · rintro ⟨item, hitem, hdir, hresol, rfl⟩
    rcases mem_append.mp hitem with hout | hin
    · obtain ⟨⟨⟨id, uri⟩, row⟩, hmem, rfl⟩ := mem_map.mp hout
      obtain ⟨hentry, hid⟩ := mem_filter.mp hmem
      obtain rfl : id = source := of_decide_eq_true hid
      exact ⟨uri, JsMap.get?_eq_some.mpr hentry, hresol⟩
    · split at hin
      · exact absurd hin not_mem_nil
      · obtain ⟨present, _, rfl⟩ := mem_map.mp hin
        cases hdir
  · rintro ⟨uri, hget, hresol⟩
    refine ⟨related .outgoing ((source, uri), edge), mem_append_left _ ?_, rfl, hresol, rfl⟩
    refine mem_map.mpr ⟨_, mem_filter.mpr ⟨JsMap.get?_eq_some.mp hget, ?_⟩, rfl⟩
    exact decide_eq_true rfl

theorem listedAt_iff : ListedAt tables source target edge ↔
    ∃ row, tables.nodes.get? target = some row ∧ tables.edges.get? (source, row.uri) = some edge := by
  unfold ListedAt listRelated
  constructor
  · rintro ⟨item, hitem, hdir, hsrc, rfl⟩
    rcases mem_append.mp hitem with hout | hin
    · obtain ⟨present, _, rfl⟩ := mem_map.mp hout
      exact nomatch hdir
    · split at hin
      · exact absurd hin not_mem_nil
      · rename_i row hrow
        obtain ⟨⟨⟨id, uri⟩, present⟩, hmem, rfl⟩ := mem_map.mp hin
        obtain ⟨hentry, huri⟩ := mem_filter.mp hmem
        obtain rfl : uri = row.uri := of_decide_eq_true huri
        obtain rfl : id = source := hsrc
        exact ⟨row, hrow, JsMap.get?_eq_some.mpr hentry⟩
  · rintro ⟨row, hrow, hget⟩
    refine ⟨related .incoming ((source, row.uri), edge), mem_append_right _ ?_, rfl, rfl, rfl⟩
    rw [hrow]
    refine mem_map.mpr ⟨_, mem_filter.mpr ⟨JsMap.get?_eq_some.mp hget, ?_⟩, rfl⟩
    exact decide_eq_true rfl

/-! ### Relocation -/

section Relocation

variable [Tokenizer]

theorem edges_insertNodeAs {input : NodeInput} {isStub : Bool}
    (hinsert : insertNodeAs tables around input isStub nodeId = .ok result) : result.edges = tables.edges := by
  obtain ⟨nodes, _, hres⟩ := bind_eq_ok.mp hinsert
  obtain rfl := Except.ok.inj hres
  obtain ⟨nodeFts, revisions, hrec⟩ := recordInsert_eq { tables with nodes } around input isStub nodeId
    (newRow tables around input isStub)
  rw [hrec]

@[simp] theorem edges_reindexNode : (reindexNode tables nodeId).edges = tables.edges := by
  obtain ⟨nodeFts, heq⟩ := reindexNode_eq tables nodeId
  rw [heq]

theorem edges_moveMember {plan : Plan} {parentId : Option JsStr} {member : Member}
    (hmove : moveMember around plan parentId tables member = .ok result) : result.edges = tables.edges := by
  obtain ⟨nodes, _, hres⟩ := bind_eq_ok.mp hmove
  obtain rfl := Except.ok.inj hres
  rw [edges_reindexNode]

/-- The new uri of a member is the target of no edge between other nodes, and the same edges name the
old and the new uri. -/
structure Member.Keeps (tables : Tables) (plan : Plan) (member : Member) : Prop where
  taken : ∀ entry ∈ tables.edges.entries, entry.1.2 = plan.newUri member →
    tables.nodes.get? entry.1.1 ≠ none → resolveId tables (plan.newUri member) = some member.nodeId
  named : ∀ entry ∈ tables.edges.entries,
    entry.1.2 = plan.newUri member ∨ entry.1.2 = member.node.uri → tables.nodes.get? entry.1.1 ≠ none →
      tables.edges.get? (entry.1.1, plan.newUri member) = tables.edges.get? (entry.1.1, member.node.uri)

/-- The batch keeps both readings of the edges. -/
def BatchKeeps (tables : Tables) (moves : List Move) : Prop :=
  ∀ plans, planMoves tables moves [] = .ok plans → ∀ plan ∈ plans, plan.changed = true →
    ∀ member ∈ plan.members, member.Keeps tables plan

/-- The batch while a uri keeps leading to its node. -/
structure Leading (start : Tables) (uri target : JsStr) (done pending : List (Plan × Member))
    (tables : Tables) : Prop where
  progress : Progress start done pending tables
  leads : resolveId tables uri = some target
  taken : ∀ step ∈ pending, step.1.newUri step.2 = uri → step.2.nodeId = target

variable [JsonText.NumberText] {moves : List Move} {plans : List Plan}

section

variable (hrel : relocateMany tables around moves = .ok result)

include hrel

theorem edges_relocateMany : result.edges = tables.edges := by
  obtain ⟨plans, _, _, happly⟩ := relocateMany_eq_ok.mp hrel
  refine @applyPlans_rule _ _ around _ _ (fun _ _ state => state.edges = tables.edges) ?_ ?_ ?_ plans []
    happly rfl
  · exact fun hedges _ hinsert => (edges_insertNodeAs hinsert).trans hedges
  · exact fun hedges hmove => (edges_moveMember hmove).trans hedges
  · exact fun hedges => hedges

theorem leads_relocateMany {uri : JsStr}
    (hplans : planMoves tables moves [] = .ok plans) (hleads : resolveId tables uri = some target)
    (htaken : ∀ step ∈ plans.flatMap Plan.steps, step.1.newUri step.2 = uri → step.2.nodeId = target) :
    resolveId result uri = some target := by
  obtain ⟨found, hfound, _, happly⟩ := relocateMany_eq_ok.mp hrel
  rw [hplans] at hfound
  obtain rfl := Except.ok.inj hfound
  obtain ⟨hplann, hnodup, _⟩ := planMoves_eq_ok hplans nofun nodup_nil
  have hrun : Leading tables uri target ([] ++ plans.flatMap Plan.steps) [] result := by
    apply applyPlans_rule ?_ ?_ ?_ happly ⟨progress_start hplann hnodup, hleads, htaken⟩
    · intro done pending state next ancestor parentUri hinv hfree hinsert
      have hinser := inserts_of_insertNodeAs hinsert
      exact ⟨hinv.progress.insert hinser,
        hinser.resolveId_of_old (congrArg (Option.map Prod.fst) hfree) hinv.leads, hinv.taken⟩
    · intro done step pending parentId state next hinv hmove
      have hrow := hinv.progress.waiting step mem_cons_self
      refine ⟨hinv.progress.move hmove, ?_, fun other hother =>
        hinv.taken other (mem_cons_of_mem _ hother)⟩
      rw [resolveId_moveMember hmove hrow rfl uri]
      split_ifs with hplace
      · rcases hplace with hnew | hold
        · exact congrArg some (hinv.taken step mem_cons_self hnew.symm)
        · -- The old uri was the member's own.
          rw [← hinv.leads, hold]
          exact (resolveId_eq_some.mpr ⟨_, hrow, .inl rfl⟩).symm
      · exact hinv.leads
    · intro done pending state kv hinv
      have hprog := hinv.progress
      exact ⟨⟨hprog.1, hprog.2, hprog.3, hprog.4⟩, hinv.leads, hinv.taken⟩
  exact hrun.leads

theorem leads_somewhere {uri : JsStr}
    (hleads : ∃ target, resolveId tables uri = some target) : ∃ target, resolveId result uri = some target := by
  obtain ⟨plans, hplans, _, happly⟩ := relocateMany_eq_ok.mp hrel
  obtain ⟨hplann, hnodup, _⟩ := planMoves_eq_ok hplans nofun nodup_nil
  have hrun := @applyPlans_rule _ _ around _ _ (fun done pending state =>
    Progress tables done pending state ∧ ∃ target, resolveId state uri = some target) ?_ ?_ ?_ plans []
      happly ⟨progress_start hplann hnodup, hleads⟩
  · exact hrun.2
  · rintro done pending state next ancestor parentUri ⟨hprog, target, htgt⟩ hfree hinsert
    have hinser := inserts_of_insertNodeAs hinsert
    exact ⟨hprog.insert hinser, target, hinser.resolveId_of_old (congrArg (Option.map Prod.fst) hfree) htgt⟩
  · rintro done step pending parentId state next ⟨hprog, target, htgt⟩ hmove
    refine ⟨hprog.move hmove, ?_⟩
    rw [resolveId_moveMember hmove (hprog.waiting step mem_cons_self) rfl uri]
    split_ifs
    · exact ⟨_, rfl⟩
    · exact ⟨target, htgt⟩
  · rintro done pending state kv ⟨hprog, hleads⟩
    exact ⟨⟨hprog.1, hprog.2, hprog.3, hprog.4⟩, hleads⟩

end

theorem edgesLead_relocateMany (hlead : EdgesLead tables)
    (hrel : relocateMany tables around moves = .ok result) : EdgesLead result := by
  intro key row hrow
  rw [edges_relocateMany hrel] at hrow
  exact leads_somewhere hrel (hlead key row hrow)

variable (hlead : EdgesLead tables) (hkeeps : BatchKeeps tables moves)
  (hrel : relocateMany tables around moves = .ok result)

include hlead hkeeps hrel

theorem resolveId_edge {key : JsStr × JsStr} (hedge : tables.edges.get? key = some edge)
    (hsrc : tables.nodes.get? key.1 ≠ none) :
    ∃ target, resolveId tables key.2 = some target ∧ resolveId result key.2 = some target := by
  obtain ⟨plans, hplans, _⟩ := relocateMany_eq_ok.mp hrel
  obtain ⟨target, htgt⟩ := hlead key edge hedge
  refine ⟨target, htgt, leads_relocateMany hrel hplans htgt fun step hstep huri => ?_⟩
  obtain ⟨hplan, hchg, hmemb⟩ := mem_steps.mp hstep
  have htaken := (hkeeps plans hplans _ hplan hchg _ hmemb).taken _
    (JsMap.get?_eq_some.mp hedge) huri.symm hsrc
  rw [huri, htgt] at htaken
  exact (Option.some.inj htaken).symm

omit hlead in
theorem get?_edges_relocateMany {row : NodeRow} (hrow : tables.nodes.get? target = some row)
    (hsrc : tables.nodes.get? source ≠ none) : ∃ moved, result.nodes.get? target = some moved ∧
      tables.edges.get? (source, moved.uri) = tables.edges.get? (source, row.uri) := by
  obtain ⟨plans, hplans, _⟩ := relocateMany_eq_ok.mp hrel
  have hprog := progress_relocateMany hrel hplans
  by_cases hmoved : target ∈ (plans.flatMap Plan.steps).map fun step => step.2.nodeId
  · obtain ⟨step, hstep, rfl⟩ := mem_map.mp hmoved
    obtain ⟨moved, hget, huri, _⟩ := hprog.moved step hstep
    obtain ⟨hplan, hchg, hmemb⟩ := mem_steps.mp hstep
    have hkept := hkeeps plans hplans _ hplan hchg _ hmemb
    obtain ⟨hplann, _, _⟩ := planMoves_eq_ok hplans nofun nodup_nil
    have hnode := (hplann _ hplan).get? hmemb
    rw [hrow] at hnode
    obtain rfl := Option.some.inj hnode
    refine ⟨moved, hget, ?_⟩
    rw [huri]
    cases hnew : tables.edges.get? (source, step.1.newUri step.2) with
    | some present =>
      rw [← hnew]
      exact hkept.named _ (JsMap.get?_eq_some.mp hnew) (.inl rfl) hsrc
    | none =>
      cases hold : tables.edges.get? (source, step.2.node.uri) with
      | none => rfl
      | some present =>
        rw [← hold, ← hnew]
        exact hkept.named _ (JsMap.get?_eq_some.mp hold) (.inr rfl) hsrc
  · exact ⟨row, hprog.outside target row (by rwa [append_nil]) hrow, rfl⟩

theorem associationsKept_relocateMany : AssociationsKept tables result := by
  intro source target hsrc htgt edge
  rw [leadsTo_iff, leadsTo_iff, listedAt_iff, listedAt_iff, edges_relocateMany hrel]
  constructor
  · refine exists_congr fun uri => and_congr_right fun hedge => ?_
    obtain ⟨found, hbef, hafter⟩ := resolveId_edge hlead hkeeps hrel hedge hsrc
    rw [show resolveId tables uri = some found from hbef, show resolveId result uri = some found from hafter]
  · obtain ⟨row, hrow⟩ := ne_none_iff_exists'.mp htgt
    obtain ⟨moved, hmoved, hsame⟩ := get?_edges_relocateMany hkeeps hrel hrow hsrc
    rw [hrow, hmoved]
    constructor
    · rintro ⟨found, hfound, hedge⟩
      obtain rfl := Option.some.inj hfound
      exact ⟨row, rfl, hsame ▸ hedge⟩
    · rintro ⟨found, hfound, hedge⟩
      obtain rfl := Option.some.inj hfound
      exact ⟨moved, rfl, hsame.trans hedge⟩

end Relocation

/-! ### Deletion -/

/-- Nodes inside the subtree of the top are gone with their edges and aliases. -/
structure Pruned (start : Tables) (top : JsStr) (tables : Tables) : Prop where
  rows : ∀ id row, tables.nodes.get? id = some row → start.nodes.get? id = some row
  inside : ∀ id row, start.nodes.get? id = some row → tables.nodes.get? id = none →
    Inside (link start) top id
  edges : ∀ key row, tables.edges.get? key = some row → start.edges.get? key = some row
  sources : ∀ key row, tables.edges.get? key = some row →
    ∀ node, start.nodes.get? key.1 = some node → tables.nodes.get? key.1 ≠ none
  targets : ∀ key row, tables.edges.get? key = some row →
    ∀ id node, start.nodes.get? id = some node → tables.nodes.get? id = none → node.uri ≠ key.2
  aliases : ∀ uri entry, start.aliases.get? uri = some entry →
    tables.nodes.get? entry.targetNodeId ≠ none → tables.aliases.get? uri = some entry

theorem pruned_start (tables : Tables) (top : JsStr) : Pruned tables top tables where
  rows _ _ hrow := hrow
  inside _ _ hrow hnone := nomatch hrow.symm.trans hnone
  edges _ _ hedge := hedge
  sources _ _ _ _ hnode hnone := nomatch hnode.symm.trans hnone
  targets _ _ _ _ _ hnode hnone := nomatch hnode.symm.trans hnone
  aliases _ _ halias _ := halias

variable {top : JsStr}

theorem Pruned.drop {node : NodeRow} (hprun : Pruned start top tables) (around : Surroundings)
    (hins : Inside (link start) top nodeId) (hnode : start.nodes.get? nodeId = some node) :
    Pruned start top (dropNode tables around nodeId node) := by
  obtain ⟨revisions, heq⟩ := dropNode_eq tables around nodeId node
  have hnodes : ∀ id, (dropNode tables around nodeId node).nodes.get? id =
      if id = nodeId then none else tables.nodes.get? id := by
    intro id
    rw [heq]
    exact NodeTable.get?_delete id
  have hedges : ∀ key row, (dropNode tables around nodeId node).edges.get? key = some row →
      tables.edges.get? key = some row ∧ key.1 ≠ nodeId ∧ key.2 ≠ node.uri := by
    intro key row hrow
    rw [heq] at hrow
    dsimp only at hrow
    rw [JsMap.get?_filter, filter_eq_some_iff] at hrow
    simpa using hrow
  refine ⟨fun id row hrow => ?_, fun id row hrow hnone => ?_, fun key row hrow => ?_,
    fun key row hrow source hsrc => ?_, fun key row hrow id present hpres hnone => ?_,
    fun uri entry hentry hkept => ?_⟩
  · rw [hnodes] at hrow
    split_ifs at hrow
    exact hprun.rows id row hrow
  · rw [hnodes] at hnone
    split_ifs at hnone with hid
    · exact hid ▸ hins
    · exact hprun.inside id row hrow hnone
  · exact hprun.edges key row (hedges key row hrow).1
  · obtain ⟨hbef, hne, _⟩ := hedges key row hrow
    rw [hnodes, if_neg hne]
    exact hprun.sources key row hbef source hsrc
  · obtain ⟨hbef, _, hne⟩ := hedges key row hrow
    rw [hnodes] at hnone
    split_ifs at hnone with hid
    · rw [hid, hnode] at hpres
      rw [← Option.some.inj hpres]
      exact hne.symm
    · exact hprun.targets key row hbef id present hpres hnone
  · rw [hnodes] at hkept
    split_ifs at hkept with hid
    · exact absurd rfl hkept
    · rw [heq]
      dsimp only
      rw [JsMap.get?_filter, hprun.aliases uri entry hentry hkept, filter_some, if_pos]
      exact decide_eq_true hid

theorem deleteAll_rule {Holds : Tables → Prop} {delete : Tables → JsStr → Except JsStr Tables}
    {children : List JsStr} (hdel : ∀ {state child after}, Holds state → child ∈ children →
      delete state child = .ok after → Holds after)
    (hall : deleteAll delete children tables = .ok result) (hholds : Holds tables) : Holds result := by
  induction children generalizing tables with
  | nil => exact Except.ok.inj hall ▸ hholds
  | cons child rest ih =>
    obtain ⟨next, hnext, hrest⟩ := bind_eq_ok.mp hall
    exact ih (fun hstate hmem => hdel hstate (mem_cons_of_mem _ hmem)) hrest
      (hdel hholds mem_cons_self hnext)

theorem deleteCascadeFrom_rule {Holds : Tables → Prop} {Reached : JsStr → Prop}
    (hchild : ∀ {state id child row}, Holds state → Reached id → state.nodes.get? child = some row →
      row.parentId = some id → Reached child)
    (hdrop : ∀ {before state id node}, Holds before → before.nodes.get? id = some node → Holds state →
      Reached id → Holds (dropNode state around id node))
    {depth : Nat} (hdel : deleteCascadeFrom around depth tables nodeId = .ok result)
    (hreac : Reached nodeId) (hholds : Holds tables) : Holds result := by
  induction depth generalizing tables nodeId result with
  | zero => exact nomatch hdel
  | succ depth ih =>
    rw [deleteCascadeFrom] at hdel
    cases hnode : tables.nodes.get? nodeId with
    | none =>
      rw [hnode] at hdel
      exact Except.ok.inj hdel ▸ hholds
    | some node =>
      rw [hnode] at hdel
      obtain ⟨middle, hall, hres⟩ := bind_eq_ok.mp hdel
      obtain rfl := Except.ok.inj hres
      have hchil : ∀ child ∈ (tables.nodes.children nodeId).map Prod.fst, Reached child := by
        intro child hmem
        obtain ⟨entry, hentry, rfl⟩ := mem_map.mp hmem
        obtain ⟨hrow, hpar⟩ := NodeTable.mem_children.mp hentry
        exact hchild hholds hreac hrow hpar
      refine hdrop hholds hnode (deleteAll_rule (fun hnext hmem hend => ?_) hall hholds) hreac
      exact ih hend (hchil _ hmem) hnext

theorem pruned_deleteCascadeFrom {depth : Nat} (hdel : deleteCascadeFrom around depth tables nodeId =
    .ok result) (hins : Inside (link start) top nodeId) (hprun : Pruned start top tables) :
    Pruned start top result := by
  refine deleteCascadeFrom_rule (fun hstate hid hrow hpar => ?_) (fun hbef hnode hstate hid => ?_)
    hdel hins hprun
  · refine .under ?_ hid
    rw [link, hstate.rows _ _ hrow, map_some, hpar]
  · exact hstate.drop around hid (hbef.rows _ _ hnode)

theorem Cut.absent {tops : List JsStr} (hcut : Cut start tables tops)
    (hpres : link start nodeId ≠ none) (habs : link tables nodeId = none) : Cut start tables (tops ++ [nodeId]) := by
  intro id
  refine ⟨?_, fun hnone => (hcut id).2 fun other hother => hnone other (mem_append_left _ hother)⟩
  rintro ⟨other, hother, hins⟩
  rcases mem_append.mp hother with hother | hother
  · exact (hcut id).1 ⟨other, hother, hins⟩
  · obtain rfl := mem_singleton.mp hother
    by_cases hear : ∃ upper ∈ tops, Inside (link start) upper other
    · obtain ⟨upper, hupper, habove⟩ := hear
      exact (hcut id).1 ⟨upper, hupper, habove.trans hins⟩
    · push Not at hear
      exact absurd ((hcut other).2 hear ▸ habs) hpres

theorem deleteCascadeFrom_absent {depth : Nat} (habs : link tables nodeId = none)
    (hdel : deleteCascadeFrom around depth tables nodeId = .ok result) : result = tables := by
  cases depth with
  | zero => exact nomatch hdel
  | succ depth =>
    rw [deleteCascadeFrom, map_eq_none_iff.mp habs] at hdel
    exact (Except.ok.inj hdel).symm

theorem cut_of_deleteCascadeFrom {depth : Nat} (hpres : link tables nodeId ≠ none)
    (hdel : deleteCascadeFrom around depth tables nodeId = .ok result) : Cut tables result [nodeId] := by
  induction depth generalizing tables nodeId result with
  | zero => cases hdel
  | succ depth ih =>
    obtain ⟨node, hnode⟩ := link_ne_none.mp hpres
    rw [deleteCascadeFrom, hnode] at hdel
    obtain ⟨middle, hall, hres⟩ := bind_eq_ok.mp hdel
    obtain rfl := Except.ok.inj hres
    have hloop : ∀ {rest tops : List JsStr} {state : Tables}, Cut tables state tops →
        (∀ child ∈ rest, link tables child ≠ none) →
        deleteAll (deleteCascadeFrom around depth) rest state = .ok middle →
          Cut tables middle (tops ++ rest) := by
      intro rest
      induction rest with
      | nil =>
        intro tops state hcut _ hend
        obtain rfl := Except.ok.inj hend
        rwa [append_nil]
      | cons child rest ihrest =>
        intro tops state hcut hchil hend
        obtain ⟨next, hnext, hend⟩ := bind_eq_ok.mp hend
        rw [← singleton_append, ← append_assoc]
        refine ihrest ?_ (fun other hother => hchil other (mem_cons_of_mem _ hother)) hend
        by_cases habs : link state child = none
        · obtain rfl := deleteCascadeFrom_absent habs hnext
          exact hcut.absent (hchil child mem_cons_self) habs
        · exact hcut.append (ih habs hnext)
    have hstart : Cut tables tables [] := fun id =>
      ⟨by rintro ⟨_, hmem, _⟩; exact absurd hmem not_mem_nil, fun _ => rfl⟩
    have hcut := hloop hstart (fun child hchild => by rw [mem_childIds.mp hchild]; rintro ⟨⟩) hall
    rw [nil_append] at hcut
    intro id
    rw [link_dropNode]
    constructor
    · rintro ⟨other, hother, hins⟩
      obtain rfl := mem_singleton.mp hother
      split_ifs with hid
      · rfl
      · obtain ⟨child, hchild, hbelow⟩ := hins.eq_or_child.resolve_left hid
        exact (hcut id).1 ⟨child, mem_childIds.mpr hchild, hbelow⟩
    · intro hnone
      have houts := hnone nodeId (mem_singleton_self _)
      have hid : id ≠ nodeId := fun heq => houts (heq ▸ .self)
      rw [if_neg hid]
      refine (hcut id).2 fun child hchild hbelow => houts ?_
      exact Inside.trans (.under (mem_childIds.mp hchild) .self) hbelow

/-- An edge that reaches the subtree through an alias comes from inside it. -/
def DeletionKeeps (tables : Tables) (nodeId : JsStr) : Prop :=
  ∀ entry ∈ tables.edges.entries, tables.nodes.byUri entry.1.2 = none → ∀ target,
    resolveId tables entry.1.2 = some target → Inside (link tables) nodeId target →
      Inside (link tables) nodeId entry.1.1

theorem edgesLead_deleteCascade (hlead : EdgesLead tables) (hkeeps : DeletionKeeps tables nodeId)
    (hdel : deleteCascade tables around nodeId = .ok result) : EdgesLead result := by
  by_cases hpres : link tables nodeId = none
  · rwa [deleteCascadeFrom_absent hpres hdel]
  have hprun := pruned_deleteCascadeFrom hdel .self (pruned_start tables nodeId)
  have hcut := cut_of_deleteCascadeFrom hpres hdel
  intro key row hrow
  have hedge := hprun.edges key row hrow
  obtain ⟨target, htgt⟩ := hlead key row hedge
  obtain ⟨node, hnode, hway⟩ := resolveId_eq_some.mp htgt
  cases hkept : result.nodes.get? target with
  | some present =>
    have hsame := hprun.rows _ _ hkept
    rw [hnode] at hsame
    obtain rfl := Option.some.inj hsame
    refine ⟨target, resolveId_eq_some.mpr ⟨node, hkept, hway.imp_right ?_⟩⟩
    rintro ⟨hfree, halias⟩
    obtain ⟨entry, hentry, rfl⟩ := map_eq_some_iff.mp halias
    refine ⟨NodeTable.byUri_eq_none.mpr fun id other hother =>
      NodeTable.byUri_eq_none.mp hfree id other (hprun.rows id other hother), ?_⟩
    rw [hprun.aliases _ _ hentry (by rw [hkept]; rintro ⟨⟩), map_some]
  | none =>
    rcases hway with huri | ⟨hfree, _⟩
    · exact absurd huri (hprun.targets key row hrow target node hnode hkept)
    · -- The source went with the target.
      exfalso
      have hins := hkeeps _ (JsMap.get?_eq_some.mp hedge) hfree target htgt
        (hprun.inside target node hnode hkept)
      have hgone := (hcut key.1).1 ⟨nodeId, mem_singleton_self _, hins⟩
      cases hsrc : tables.nodes.get? key.1 with
      | some source =>
        exact hprun.sources key row hrow source hsrc (map_eq_none_iff.mp hgone)
      | none =>
        rcases inside_iff.mp hins with heq | ⟨parent, hpar, _⟩
        · exact hpres (by rw [← heq, link, hsrc, map_none])
        · rw [link, hsrc] at hpar
          cases hpar

/-! ### Runs of relocations and deletions -/

inductive Shift where
  | relocateMany (moves : List Move)
  | deleteCascade (nodeId : JsStr)

def Shift.operation : Shift → Operation
  | .relocateMany moves => .relocateMany moves
  | .deleteCascade nodeId => .deleteCascade nodeId

section Runs

variable [Tokenizer] [JsonText.NumberText]

/-- What the step must leave of the associations. -/
def Shift.Keeps (before after : Tables) : Shift → Prop
  | .relocateMany _ => AssociationsKept before after
  | .deleteCascade _ => True

/-- Each relocation keeps both readings of the edges, and no state has an edge that leads nowhere. -/
def Survives : Tables → List (Surroundings × Shift) → Prop
  | tables, [] => EdgesLead tables
  | tables, (around, shift) :: rest =>
    EdgesLead tables ∧ shift.Keeps tables (perform tables (around, shift.operation)) ∧
      Survives (perform tables (around, shift.operation)) rest

omit [Tokenizer] [JsonText.NumberText] in
/-- The step does not reach the gap between the two readings. -/
def Shift.Safe (tables : Tables) : Shift → Prop
  | .relocateMany moves => BatchKeeps tables moves
  | .deleteCascade nodeId => DeletionKeeps tables nodeId

def SafeRun : Tables → List (Surroundings × Shift) → Prop
  | _, [] => True
  | tables, (around, shift) :: rest =>
    shift.Safe tables ∧ SafeRun (perform tables (around, shift.operation)) rest

theorem shift_step {shift : Shift} (hlead : EdgesLead tables) (hsafe : shift.Safe tables)
    (around : Surroundings) : shift.Keeps tables (perform tables (around, shift.operation)) ∧
      EdgesLead (perform tables (around, shift.operation)) := by
  unfold perform
  cases hrun : shift.operation.run tables around with
  | error error =>
    refine ⟨?_, hlead⟩
    cases shift with
    | relocateMany moves => exact fun _ _ _ _ _ => ⟨Iff.rfl, Iff.rfl⟩
    | deleteCascade nodeId => trivial
  | ok result =>
    cases shift with
    | relocateMany moves =>
      exact ⟨associationsKept_relocateMany hlead hsafe hrun, edgesLead_relocateMany hlead hrun⟩
    | deleteCascade nodeId => exact ⟨trivial, edgesLead_deleteCascade hlead hsafe hrun⟩

/-- Associations survive every run of relocations and deletions whose steps stay clear of the gap. -/
theorem associations_survive {shifts : List (Surroundings × Shift)} (hlead : EdgesLead tables)
    (hsafe : SafeRun tables shifts) : Survives tables shifts := by
  induction shifts generalizing tables with
  | nil => exact hlead
  | cons call rest ih =>
    obtain ⟨around, shift⟩ := call
    obtain ⟨hfirst, hrest⟩ := hsafe
    obtain ⟨hkeeps, hafter⟩ := shift_step hlead hfirst around
    exact ⟨hlead, hkeeps, ih hafter hrest⟩

end Runs

section Sample

local instance associationTokenizer : Tokenizer := plainTokenizer

local instance associationNumbers : JsonText.NumberText := JsonText.decimalNumbers

instance (tables : Tables) : Decidable (EdgesLead tables) :=
  decidable_of_iff (∀ entry ∈ tables.edges.entries, (resolveId tables entry.1.2).isSome) (by
    simp only [EdgesLead, isSome_iff_exists]
    exact ⟨fun hall key row hrow => hall _ (JsMap.get?_eq_some.mp hrow),
      fun hall entry hentry => hall entry.1 entry.2 (JsMap.get?_eq_some.mpr hentry)⟩)

/-- Two nodes with an edge from the first to the second. -/
def friends : Tables :=
  sampleActions [.operation (samplePut "history://a" "one"), .operation (samplePut "history://b" "two"),
    .addEdge (js "history://a") (js "history://b") none none]

def renamed : Shift := .relocateMany [⟨js "history://b", js "history://c", none⟩]

/-- After a rename of its target an edge is listed at neither node, and the deletion of the target
leaves it dangling. -/
theorem association_lost : StoreReachable friends ∧ EdgesLead friends ∧
    ¬ AssociationsKept friends (perform friends (sampleAround, renamed.operation)) ∧
    ¬ EdgesLead (perform (perform friends (sampleAround, renamed.operation))
      (sampleAround, .deleteCascade (js "history://b"))) := by
  refine ⟨storeReachable_sampleActions _, by decide +kernel, fun hkept => ?_, by decide +kernel⟩
  have hbef : ListedAt friends (js "history://a") (js "history://b") ⟨none, none⟩ := by decide +kernel
  have hafter : ¬ ListedAt (perform friends (sampleAround, renamed.operation)) (js "history://a")
      (js "history://b") ⟨none, none⟩ := by decide +kernel
  exact hafter ((hkept _ _ (by decide +kernel) (by decide +kernel) _).2.mpr hbef)

/-- The source of an edge moves and its target goes. -/
def sampleMoves : List Move := [⟨js "history://a", js "history://d", none⟩]

def sampleShifts : List (Surroundings × Shift) :=
  [(sampleAround, .relocateMany sampleMoves), (sampleAround, .deleteCascade (js "history://b"))]

def samplePlans : List Plan := (planMoves friends sampleMoves []).toOption.getD []

theorem associations_survive_sample : Survives friends sampleShifts := by
  have hplann : ∀ plan ∈ samplePlans, ∀ member ∈ plan.members, ∀ entry ∈ friends.edges.entries,
      entry.1.2 ≠ plan.newUri member ∧ entry.1.2 ≠ member.node.uri := by decide +kernel
  have hdirect : ∀ entry ∈ (perform friends (sampleAround, .relocateMany sampleMoves)).edges.entries,
      (perform friends (sampleAround, .relocateMany sampleMoves)).nodes.byUri entry.1.2 ≠ none := by
    decide +kernel
  refine associations_survive (by decide +kernel) ⟨fun plans hplans plan hplan _ member hmemb => ?_,
    fun entry hentry hfree => absurd hfree (hdirect entry hentry), trivial⟩
  have heq : samplePlans = plans := by rw [samplePlans, hplans]; rfl
  have hclear := hplann plan (heq ▸ hplan) member hmemb
  exact ⟨fun entry hentry huri _ => absurd huri (hclear entry hentry).1, fun entry hentry huri _ =>
    absurd huri (not_or.mpr (hclear entry hentry))⟩

end Sample

end PiRp.Memory

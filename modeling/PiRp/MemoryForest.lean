import PiRp.MemoryRelocation

/-! The parent links of the memory tree stay a forest along every run, as long as no move puts a subtree
below one of its own addresses and no deleted node comes back below an alias of itself. In a forest the
recursive walks end. -/

namespace PiRp.Memory

open List ParentForest NodeTable

variable {tables result : Tables} {around : Surroundings} {nodeId : JsStr}

/-! ### What the statements do to the links -/

theorem link_of_get? (hget : ∀ id, result.nodes.get? id = tables.nodes.get? id) : link result = link tables := by
  funext id
  rw [link, link, hget]

theorem link_ne_none {id : JsStr} : link tables id ≠ none ↔ ∃ row, tables.nodes.get? id = some row := by
  rw [link, Ne, Option.map_eq_none_iff, Option.eq_none_iff_forall_ne_some]
  push Not
  rfl

theorem link_modify {change : NodeRow → NodeRow} {hkeep : ∀ row, (change row).uri = row.uri}
    (hpar : ∀ row, (change row).parentId = row.parentId) :
    link { tables with nodes := tables.nodes.modify nodeId change hkeep } = link tables := by
  funext id
  rw [link, link, get?_modify]
  split_ifs with hid
  · rw [hid, Option.map_map]
    exact congrArg (fun read => (tables.nodes.get? nodeId).map read) (funext hpar)
  · rfl

theorem Inserts.link {row : NodeRow} (hinser : Inserts tables nodeId row result) (id : JsStr) :
    link result id = if id = nodeId then some row.parentId else link tables id := by
  rw [Memory.link, hinser.nodes]
  split_ifs with hid
  · rfl
  · rfl

section Statements

variable [Tokenizer]

@[simp] theorem link_reindexNode : link (reindexNode tables nodeId) = link tables :=
  link_of_get? fun id => by rw [nodes_reindexNode]

omit [Tokenizer] in
@[simp] theorem link_archiveRevision {content : JsStr} {editorSource editorModel uri : Option JsStr}
    {snapshot : Option NodeRow} {anchor : Option RevisionAnchor} :
    link (archiveRevision tables around nodeId content editorSource editorModel uri snapshot anchor).1 =
      link tables := by
  obtain ⟨revisions, heq⟩ := archiveRevision_eq tables around nodeId content editorSource editorModel uri
    snapshot anchor
  rw [heq]
  rfl

variable {patch : NodePatch}

omit [Tokenizer] in
@[simp] theorem link_applyPatchColumns : link (applyPatchColumns tables around nodeId patch) = link tables :=
  link_modify fun _ => rfl

theorem link_promoteStub : link (promoteStub tables around nodeId patch) = link tables := by
  rw [promoteStub, link_reindexNode]
  refine Eq.trans (link_modify ?_) link_applyPatchColumns
  exact fun _ => rfl

variable {provenance : Option RevisionAnchor}

theorem link_touchNode {node : NodeRow} :
    link (touchNode tables around nodeId node patch provenance).1 = link tables := by
  dsimp only [touchNode, archiveUpdate]
  split_ifs
  · rw [link_archiveRevision, link_reindexNode, link_applyPatchColumns]
  · rw [link_archiveRevision, link_applyPatchColumns]
  · rw [link_reindexNode, link_applyPatchColumns]
  · rw [link_applyPatchColumns]

theorem link_rewriteNode {node : NodeRow} :
    link (rewriteNode tables around nodeId node patch provenance).1 = link tables := by
  dsimp only [rewriteNode, archiveUpdate]
  rw [link_archiveRevision, link_reindexNode]
  refine Eq.trans (link_modify ?_) link_applyPatchColumns
  exact fun _ => rfl

theorem link_updateNode {version : Nat}
    (hupd : updateNode tables around nodeId patch provenance = .ok (result, version)) :
    link result = link tables := by
  rw [updateNode] at hupd
  cases hnode : tables.nodes.get? nodeId with
  | none =>
    rw [hnode] at hupd
    exact nomatch hupd
  | some node =>
    rw [hnode] at hupd
    have hpair := Except.ok.inj hupd
    have hresult := congrArg (fun pair => link pair.1) hpair.symm
    split_ifs at hresult
    · exact hresult.trans link_promoteStub
    · exact hresult.trans link_rewriteNode
    · exact hresult.trans link_touchNode

theorem link_of_map_updateNode (hupd : (updateNode tables around nodeId patch provenance).map Prod.fst = .ok result) :
    link result = link tables := by
  cases hpair : updateNode tables around nodeId patch provenance with
  | error error =>
    rw [hpair] at hupd
    exact nomatch hupd
  | ok pair =>
    rw [hpair] at hupd
    obtain rfl := Except.ok.inj hupd
    exact link_updateNode hpair

/-! ### Insertion -/

omit [Tokenizer] in
theorem parentOf_eq_some {parentUri : Option JsStr} {parent : JsStr}
    (hpar : parentOf tables parentUri = some parent) :
    ∃ uri, parentUri = some uri ∧ resolveId tables uri = some parent := by
  rw [parentOf, Option.map_eq_some_iff] at hpar
  obtain ⟨node, hnode, rfl⟩ := hpar
  obtain ⟨uri, huri, hnode⟩ := Option.bind_eq_some_iff.mp hnode
  obtain ⟨heq, _⟩ := Option.filter_eq_some_iff.mp huri
  exact ⟨uri, heq, congrArg (Option.map Prod.fst) hnode⟩

variable (hfor : Forest (link tables))

include hfor

theorem forest_insertNodeAs {input : NodeInput} {isStub : Bool}
    (hinsert : insertNodeAs tables around input isStub nodeId = .ok result) : Forest (link result) := by
  have hinser := inserts_of_insertNodeAs hinsert
  have hitem : link result nodeId = some (parentOf tables input.parentUri) := by
    rw [hinser.link, if_pos rfl]
    rfl
  refine hfor.insert ?_ ?_ hitem fun rest hne => by rw [hinser.link, if_neg hne]
  · intro parent hpar
    obtain ⟨uri, _, hresol⟩ := parentOf_eq_some hpar
    exact link_ne_none.mpr (get?_of_resolveId hresol)
  · rw [link, hinser.fresh, Option.map_none]

theorem forest_ensureStubAncestors {uri : JsStr} {explicitParent : Option JsStr}
    (hstubs : ensureStubAncestors tables around uri explicitParent = .ok result) : Forest (link result) :=
  @ensureStubAncestors_rule tables result around _ (fun tables => Forest (link tables))
    (fun hfor _ hinsert => forest_insertNodeAs hfor hinsert) uri explicitParent hstubs hfor

theorem forest_put {input : NodeInput}
    (hput : put tables around input = .ok result) : Forest (link result) := by
  rw [put] at hput
  cases hresol : resolveUri tables input.uri with
  | some existing =>
    rw [hresol] at hput
    rw [link_of_map_updateNode hput]
    exact hfor
  | none =>
    rw [hresol] at hput
    obtain ⟨stubbed, hstubs, hinsert⟩ := bind_eq_ok.mp hput
    exact forest_insertNodeAs (forest_ensureStubAncestors hfor hstubs) hinsert

end Statements

/-! ### The walks end -/

/-- The ids of the nodes. -/
def nodeIds (tables : Tables) : List JsStr := tables.nodes.rows.keys

theorem mem_nodeIds : nodeId ∈ nodeIds tables ↔ link tables nodeId ≠ none := by
  rw [nodeIds, ← JsMap.has_iff, link, Ne, Option.map_eq_none_iff, get?, JsMap.get?_eq_none, Bool.not_eq_false]

theorem subtreeSize_lt (tables : Tables) (nodeId : JsStr) :
    subtreeSize (link tables) (nodeIds tables) nodeId < tables.nodes.rows.entries.length + 1 := by
  have hle := subtreeSize_le (link tables) (nodeIds tables) nodeId
  rw [nodeIds, JsMap.keys, length_map] at hle
  exact Nat.lt_succ_of_le hle

theorem walk_of_forest (hfor : Forest (link tables)) {depth : Nat} (rel : JsStr)
    (hdepth : subtreeSize (link tables) (nodeIds tables) nodeId < depth) :
    ∃ members, walk tables depth nodeId rel = .ok members := by
  induction depth generalizing nodeId rel with
  | zero => exact absurd hdepth (Nat.not_lt_zero _)
  | succ depth ih =>
    refine ⟨_, collect_eq_ok.mpr ⟨fun child hchild => ?_, rfl⟩⟩
    have hlink : link tables child.1 = some (some nodeId) := link_eq_child.mpr ⟨child.2, hchild⟩
    have hsmal := hfor.subtreeSize_child hlink
      (mem_nodeIds.mpr (hfor.parent_present hlink))
    have hchil : subtreeSize (link tables) (nodeIds tables) child.1 < depth := by omega
    obtain ⟨below, hbelow⟩ := ih (childRel rel child.2.uri) hchil
    have hvisit := visitChild_eq_ok.mpr ⟨below, hbelow, rfl⟩
    exact (part_of_ok hvisit).symm ▸ hvisit

theorem subtreeMembers_of_forest (hfor : Forest (link tables)) (root : JsStr × NodeRow) :
    ∃ members, subtreeMembers tables root = .ok members := by
  obtain ⟨below, hbelow⟩ := walk_of_forest hfor [] (subtreeSize_lt tables root.1)
  exact ⟨_, subtreeMembers_eq_ok.mpr ⟨below, hbelow, rfl⟩⟩

/-- The items below one of the nodes are gone and the rest is as it was. -/
def Cut (before after : Tables) (tops : List JsStr) : Prop :=
  ∀ id, ((∃ top ∈ tops, Inside (link before) top id) → link after id = none) ∧
    ((∀ top ∈ tops, ¬ Inside (link before) top id) → link after id = link before id)

variable {tops : List JsStr}

section

variable (hcut : Cut tables result tops)

include hcut

theorem Cut.fewer {id : JsStr}
    (hpres : link result id ≠ none) : link result id = link tables id := by
  refine (hcut id).2 fun top htop hins => hpres ((hcut id).1 ⟨top, htop, hins⟩)

theorem Cut.forest (hfor : Forest (link tables)) : Forest (link result) := by
  refine hfor.remove ?_ (fun id hrem => (hcut id).1 hrem) fun id hkept => ?_
  · rintro item parent hpar ⟨top, htop, hins⟩
    exact ⟨top, htop, .under hpar hins⟩
  · exact (hcut id).2 fun top htop hins => hkept ⟨top, htop, hins⟩

theorem Cut.inside {top id : JsStr}
    (hins : Inside (link tables) top id) (hkept : ∀ other ∈ tops, ¬ Inside (link tables) other id) :
    Inside (link result) top id := by
  induction hins with
  | self => exact .self
  | @under item parent hpar _ ih =>
    have hlink := (hcut item).2 hkept
    refine .under (hlink.trans hpar) (ih fun other hother hins => ?_)
    exact hkept other hother (.under hpar hins)

end

theorem Cut.append {middle : Tables} {top : JsStr}
    (hfirst : Cut tables middle tops) (hnext : Cut middle result [top]) : Cut tables result (tops ++ [top]) := by
  intro id
  have hgone : link middle id = none → link result id = none := by
    intro hnone
    by_cases hins : Inside (link middle) top id
    · exact (hnext id).1 ⟨top, mem_singleton_self _, hins⟩
    · exact ((hnext id).2 fun other hother => mem_singleton.mp hother ▸ hins).trans hnone
  by_cases hear : ∃ other ∈ tops, Inside (link tables) other id
  · refine ⟨fun _ => hgone ((hfirst id).1 hear), fun hnone => ?_⟩
    obtain ⟨other, hother, hins⟩ := hear
    exact absurd hins (hnone other (mem_append_left _ hother))
  · push Not at hear
    constructor
    · rintro ⟨other, hother, hins⟩
      rcases mem_append.mp hother with hother | hother
      · exact absurd hins (hear other hother)
      · obtain rfl := mem_singleton.mp hother
        exact (hnext id).1 ⟨other, mem_singleton_self _, hfirst.inside hins hear⟩
    · intro hnone
      rw [← (hfirst id).2 hear]
      refine (hnext id).2 fun other hother hins => ?_
      obtain rfl := mem_singleton.mp hother
      exact hnone other (mem_append_right _ (mem_singleton_self _))
        (hins.of_fewer fun item => hfirst.fewer)

theorem deleteAll_cut {delete : Tables → JsStr → Except JsStr Tables} {start : Tables}
    {rest : List JsStr} (hfor : Forest (link start)) (hcut : Cut start tables tops)
    (hdel : ∀ state, Forest (link state) →
      (∀ id, link state id ≠ none → link state id = link start id) → ∀ child ∈ rest,
        ∃ after, delete state child = .ok after ∧ Cut state after [child]) :
    ∃ after, deleteAll delete rest tables = .ok after ∧ Cut start after (tops ++ rest) := by
  induction rest generalizing tables tops with
  | nil => exact ⟨tables, rfl, (append_nil tops).symm ▸ hcut⟩
  | cons child rest ih =>
    obtain ⟨middle, hmid, hnext⟩ :=
      hdel tables (hcut.forest hfor) (fun id => hcut.fewer) child mem_cons_self
    obtain ⟨after, hafter, hall⟩ := ih (hcut.append hnext) fun state hstate hfewer other hother =>
      hdel state hstate hfewer other (mem_cons_of_mem _ hother)
    rw [append_assoc, singleton_append] at hall
    exact ⟨after, by rw [deleteAll, hmid, ok_bind, hafter], hall⟩

section Deletion

theorem link_dropNode (around : Surroundings) (nodeId : JsStr) (node : NodeRow) (id : JsStr) :
    link (dropNode tables around nodeId node) id = if id = nodeId then none else link tables id := by
  obtain ⟨revisions, heq⟩ := dropNode_eq tables around nodeId node
  rw [heq, link]
  dsimp only
  rw [get?_delete]
  split_ifs with hid
  · rfl
  · rfl

theorem mem_childIds {child : JsStr} : child ∈ (tables.nodes.children nodeId).map Prod.fst ↔
    link tables child = some (some nodeId) := by
  rw [mem_map, link, Option.map_eq_some_iff]
  constructor
  · rintro ⟨entry, hentry, rfl⟩
    exact ⟨entry.2, NodeTable.mem_children.mp hentry⟩
  · rintro ⟨row, hrow⟩
    exact ⟨(child, row), NodeTable.mem_children.mpr hrow, rfl⟩

theorem deleteCascadeFrom_cut {depth : Nat} {items : List JsStr} (hfor : Forest (link tables))
    (hitems : ∀ id, link tables id ≠ none → id ∈ items) (hdepth : subtreeSize (link tables) items nodeId < depth) :
    ∃ after, deleteCascadeFrom around depth tables nodeId = .ok after ∧ Cut tables after [nodeId] := by
  induction depth generalizing tables nodeId with
  | zero => exact absurd hdepth (Nat.not_lt_zero _)
  | succ depth ih =>
    rw [deleteCascadeFrom]
    cases hnode : tables.nodes.get? nodeId with
    | none =>
      refine ⟨tables, rfl, fun id => ⟨?_, fun _ => rfl⟩⟩
      have habs : link tables nodeId = none := by rw [link, hnode, Option.map_none]
      rintro ⟨top, htop, hins⟩
      obtain rfl := mem_singleton.mp htop
      rcases hins.eq_or_child with rfl | ⟨child, hchild, _⟩
      · exact habs
      · exact absurd habs (hfor.parent_present hchild)
    | some node =>
      have hpres : link tables nodeId ≠ none := link_ne_none.mpr ⟨node, hnode⟩
      have hchildr : ∀ state, Forest (link state) →
          (∀ id, link state id ≠ none → link state id = link tables id) →
          ∀ child ∈ (tables.nodes.children nodeId).map Prod.fst,
            ∃ after, deleteCascadeFrom around depth state child = .ok after ∧
              Cut state after [child] := by
        intro state hstate hfewer child hchild
        refine ih hstate (fun id hid => hitems id ((hfewer id hid) ▸ hid)) ?_
        have hsmal := hfor.subtreeSize_child (mem_childIds.mp hchild) (hitems nodeId hpres)
        have hless := subtreeSize_of_fewer hfewer items child
        omega
      have hstart : Cut tables tables [] := fun id =>
        ⟨by rintro ⟨_, hmem, _⟩; exact absurd hmem not_mem_nil, fun _ => rfl⟩
      obtain ⟨middle, hmid, hcut⟩ := deleteAll_cut hfor hstart hchildr
      rw [nil_append] at hcut
      refine ⟨dropNode middle around nodeId node, by rw [hmid]; rfl, fun id => ?_⟩
      rw [link_dropNode]
      constructor
      · rintro ⟨top, htop, hins⟩
        obtain rfl := mem_singleton.mp htop
        split_ifs with hid
        · rfl
        · obtain ⟨child, hchild, hbelow⟩ := hins.eq_or_child.resolve_left hid
          exact (hcut id).1 ⟨child, mem_childIds.mpr hchild, hbelow⟩
      · intro hnone
        have hout := hnone nodeId (mem_singleton_self _)
        have hid : id ≠ nodeId := by
          rintro rfl
          exact hout .self
        rw [if_neg hid]
        refine (hcut id).2 fun child hchild hbelow => hout ?_
        exact Inside.trans (.under (mem_childIds.mp hchild) .self) hbelow

theorem deleteCascade_cut (hfor : Forest (link tables)) (around : Surroundings) (nodeId : JsStr) :
    ∃ after, deleteCascade tables around nodeId = .ok after ∧ Cut tables after [nodeId] :=
  deleteCascadeFrom_cut hfor (fun _ hid => mem_nodeIds.mpr hid) (subtreeSize_lt tables nodeId)

end Deletion

/-! ### Relocation -/

/-- The root of the subtree that a plan moves. -/
def Plan.root (plan : Plan) : JsStr := (plan.members.map Member.nodeId).headD []

/-- Not inside one of the subtrees. -/
def Outside (tables : Tables) (plans : List Plan) (id : JsStr) : Prop :=
  ∀ plan ∈ plans, ¬ Inside (link tables) plan.root id

/-- A member that counts as the root of its plan is the root. -/
def Plan.WellRooted (plan : Plan) : Prop :=
  ∃ node below, plan.members = ⟨plan.root, node, []⟩ :: below ∧ ∀ member ∈ below, member.rel ≠ []

/-- The plans that remain can be applied: their subtrees are apart, and no target lies below one. -/
structure Nesting (plans : List Plan) (tables : Tables) : Prop where
  forest : Forest (link tables)
  rows : ∀ plan ∈ plans, ∀ member ∈ plan.members, tables.nodes.get? member.nodeId = some member.node
  nodup : (movedIds plans).Nodup
  rooted : ∀ plan ∈ plans, plan.WellRooted
  clean : ∀ plan ∈ plans, ∀ ancestor ∈ ancestorUris plan.toRoot, ∀ id,
    resolveId tables ancestor = some id → Outside tables plans id
  apart : plans.Pairwise fun left right => ∀ member ∈ left.members,
    ¬ Inside (link tables) right.root member.nodeId

variable {plans : List Plan} {plan : Plan}

theorem Outside.change {item id : JsStr} {parentId : Option JsStr} (hout : Outside tables plans id)
    (hpar : ∀ parent, parentId = some parent → Outside tables plans parent) (hitem : link result item = some parentId)
    (hother : ∀ rest, rest ≠ item → link result rest = link tables rest) : Outside result plans id := by
  intro plan hplan hins
  refine hout plan hplan (hins.of_change (fun parent heq => ?_) hitem hother)
  exact hpar parent heq plan hplan

section Nest

variable [Tokenizer]

theorem Nesting.stub {ancestor : JsStr} {parentUri : Option JsStr} (hnes : Nesting plans tables)
    (hpar : ∀ parent, parentOf tables parentUri = some parent → Outside tables plans parent)
    (hinsert : insertNodeAs tables around (stubInput ancestor parentUri) true nodeId = .ok result) :
    Nesting plans result := by
  have hinser := inserts_of_insertNodeAs hinsert
  have hitem : link result nodeId = some (parentOf tables parentUri) := by
    rw [hinser.link, if_pos rfl]
    rfl
  have hother : ∀ rest, rest ≠ nodeId → link result rest = link tables rest := fun rest hne => by
    rw [hinser.link, if_neg hne]
  have hkept : ∀ {id row}, tables.nodes.get? id = some row → result.nodes.get? id = some row := by
    intro id row hrow
    rw [hinser.nodes, if_neg, hrow]
    rintro rfl
    rw [hinser.fresh] at hrow
    cases hrow
  -- The roots are older than the stub, so the stub is inside a subtree only if its parent is.
  have hstub : Outside result plans nodeId := by
    intro plan hplan hins
    obtain ⟨node, below, hmembs, _⟩ := hnes.rooted plan hplan
    have hroot := hnes.rows plan hplan _ (hmembs ▸ mem_cons_self)
    rcases hins.of_change (fun parent heq => hpar parent heq plan hplan) hitem hother with _ | hunder
    · cases hinser.fresh.symm.trans hroot
    · rw [link, hinser.fresh] at hunder
      cases hunder
  refine ⟨forest_insertNodeAs hnes.forest hinsert, ?_, hnes.nodup, hnes.rooted, ?_, ?_⟩
  · exact fun plan hplan member hmemb => hkept (hnes.rows plan hplan member hmemb)
  · intro plan hplan uri huri id hresol
    by_cases hid : id = nodeId
    · exact hid ▸ hstub
    · exact (hnes.clean plan hplan uri huri id (hinser.old_of_resolveId hresol hid)).change
        hpar hitem hother
  · refine hnes.apart.imp_of_mem fun {left right} _ hright hapart member hmemb hins => ?_
    exact hapart member hmemb
      (hins.of_change (fun parent heq => hpar parent heq right hright) hitem hother)

theorem Nesting.stubs {uris : List JsStr} {parentUri : Option JsStr} (hplan : plan ∈ plans)
    (huris : ∀ uri ∈ uris, uri ∈ ancestorUris plan.toRoot)
    (hparentUri : ∀ uri, parentUri = some uri → uri ∈ ancestorUris plan.toRoot) (hnes : Nesting plans tables)
    (hstubs : stubAncestors around uris tables parentUri = .ok result) : Nesting plans result := by
  induction uris generalizing tables parentUri with
  | nil => exact Except.ok.inj hstubs ▸ hnes
  | cons ancestor rest ih =>
    obtain ⟨hanc, hrest⟩ := forall_mem_cons.mp huris
    have hnext : ∀ uri, some ancestor = some uri → uri ∈ ancestorUris plan.toRoot :=
      fun uri heq => Option.some.inj heq ▸ hanc
    rw [stubAncestors] at hstubs
    cases hresol : resolveUri tables ancestor with
    | some node =>
      rw [hresol] at hstubs
      exact ih hrest hnext hnes hstubs
    | none =>
      rw [hresol] at hstubs
      obtain ⟨middle, hinsert, hstubs⟩ := bind_eq_ok.mp hstubs
      refine ih hrest hnext (hnes.stub (fun parent hpar => ?_) hinsert) hstubs
      obtain ⟨uri, huri, hpar⟩ := parentOf_eq_some hpar
      exact hnes.clean plan hplan uri (hparentUri uri huri) parent hpar

omit [Tokenizer] in
theorem implicitParentUri_mem {uri parentUri : JsStr} (hpar : implicitParentUri uri = some parentUri) :
    parentUri ∈ ancestorUris uri := by
  rw [implicitParentUri] at hpar
  split_ifs at hpar with hlen
  rw [← Option.some.inj hpar, ancestorUris, mem_map]
  refine ⟨(uriSegments uri).length - 2, mem_range.mpr (by omega), ?_⟩
  rw [dropLast_eq_take, show (uriSegments uri).length - 2 + 1 = (uriSegments uri).length - 1 by omega]

/-! The moves of the members of one plan. -/

variable {parentId : Option JsStr}

theorem link_moveMember {member : Member}
    (hmove : moveMember around plan parentId tables member = .ok result) (id : JsStr) : link result id =
      if id = member.nodeId ∧ member.rel = [] then (link tables id).map fun _ => parentId else link tables id := by
  obtain ⟨hnodes, _, _⟩ := moveMember_eq_ok hmove
  rw [link, hnodes]
  by_cases hid : id = member.nodeId
  · rw [if_pos hid, ← hid, Option.map_map, link]
    by_cases hrel : member.rel = []
    · rw [if_pos ⟨rfl, hrel⟩, Option.map_map]
      refine congrArg (fun read => (tables.nodes.get? id).map read) (funext fun row => ?_)
      exact if_pos hrel
    · rw [if_neg fun hboth => hrel hboth.2]
      refine congrArg (fun read => (tables.nodes.get? id).map read) (funext fun row => ?_)
      exact if_neg hrel
  · rw [if_neg hid, if_neg fun hboth => hid hboth.1, link]

variable {members : List Member}

theorem link_moveMembers_below (hbelow : ∀ member ∈ members, member.rel ≠ [])
    (hmoves : moveMembers around plan parentId members tables = .ok result) : link result = link tables := by
  induction members generalizing tables with
  | nil => rw [Except.ok.inj hmoves]
  | cons member rest ih =>
    obtain ⟨hfirst, hrest⟩ := forall_mem_cons.mp hbelow
    obtain ⟨middle, hmove, hmoves⟩ := bind_eq_ok.mp hmoves
    rw [ih hrest hmoves]
    funext id
    rw [link_moveMember hmove, if_neg fun hboth => hfirst hboth.2]

theorem link_moveMembers (hrooted : plan.WellRooted) (hpres : link tables plan.root ≠ none)
    (hmoves : moveMembers around plan parentId plan.members tables = .ok result) :
    link result plan.root = some parentId ∧ ∀ rest, rest ≠ plan.root → link result rest = link tables rest := by
  obtain ⟨node, below, hmembs, hbelow⟩ := hrooted
  rw [hmembs] at hmoves
  obtain ⟨middle, hmove, hmoves⟩ := bind_eq_ok.mp hmoves
  rw [link_moveMembers_below hbelow hmoves]
  constructor
  · rw [link_moveMember hmove, if_pos ⟨rfl, rfl⟩]
    obtain ⟨parent, hpar⟩ := Option.ne_none_iff_exists'.mp hpres
    rw [hpar, Option.map_some]
  · intro rest hne
    rw [link_moveMember hmove, if_neg fun hboth => hne hboth.1]

theorem get?_moveMembers {id : JsStr} (hid : id ∉ members.map Member.nodeId)
    (hmoves : moveMembers around plan parentId members tables = .ok result) :
    result.nodes.get? id = tables.nodes.get? id := by
  induction members generalizing tables with
  | nil => rw [Except.ok.inj hmoves]
  | cons member rest ih =>
    rw [map_cons, mem_cons, not_or] at hid
    obtain ⟨middle, hmove, hmoves⟩ := bind_eq_ok.mp hmoves
    rw [ih hid.2 hmoves, (moveMember_eq_ok hmove).1, if_neg hid.1]

theorem resolveId_moveMembers (hnodup : (members.map Member.nodeId).Nodup)
    (hrows : ∀ member ∈ members, tables.nodes.get? member.nodeId = some member.node)
    (hmoves : moveMembers around plan parentId members tables = .ok result) {uri id : JsStr}
    (hresol : resolveId result uri = some id) : id ∈ members.map Member.nodeId ∨ resolveId tables uri = some id := by
  induction members generalizing tables with
  | nil => exact .inr ((Except.ok.inj hmoves) ▸ hresol)
  | cons member rest ih =>
    rw [map_cons, nodup_cons] at hnodup
    obtain ⟨hfirst, hrest⟩ := forall_mem_cons.mp hrows
    obtain ⟨middle, hmove, hmoves⟩ := bind_eq_ok.mp hmoves
    rw [map_cons, mem_cons]
    have hkept : ∀ other ∈ rest, middle.nodes.get? other.nodeId = some other.node := by
      intro other hother
      rw [(moveMember_eq_ok hmove).1, if_neg, hrest other hother]
      exact fun heq => hnodup.1 (heq ▸ mem_map_of_mem hother)
    rcases ih hnodup.2 hkept hmoves with hmem | hmid
    · exact .inl (.inr hmem)
    · rw [resolveId_moveMember hmove hfirst rfl] at hmid
      split_ifs at hmid
      · exact .inl (.inl (Option.some.inj hmid).symm)
      · exact .inr hmid

theorem Nesting.moves (hnes : Nesting (plan :: plans) tables)
    (hpar : ∀ parent, parentId = some parent → link tables parent ≠ none ∧ Outside tables (plan :: plans) parent)
    (hmoves : moveMembers around plan parentId plan.members tables = .ok result) : Nesting plans result := by
  have hrooted := hnes.rooted plan mem_cons_self
  have hrows := hnes.rows plan mem_cons_self
  have hnodup := hnes.nodup
  rw [movedIds, flatMap_cons, nodup_append'] at hnodup
  have hroot : link tables plan.root ≠ none := by
    obtain ⟨node, below, hmembs, _⟩ := hrooted
    exact link_ne_none.mpr ⟨node, hrows _ (hmembs ▸ mem_cons_self)⟩
  obtain ⟨hitem, hother⟩ := link_moveMembers hrooted hroot hmoves
  have hparen : ∀ parent, parentId = some parent → Outside tables plans parent :=
    fun parent heq other hmem => (hpar parent heq).2 other (mem_cons_of_mem _ hmem)
  obtain ⟨hfirst, hapart⟩ := pairwise_cons.mp hnes.apart
  refine ⟨?_, ?_, hnodup.2.1, fun other hmem => hnes.rooted other (mem_cons_of_mem _ hmem),
    ?_, ?_⟩
  · exact hnes.forest.reparent (fun parent heq =>
      ⟨(hpar parent heq).1, (hpar parent heq).2 plan mem_cons_self⟩) hitem hother
  · intro other hmem member hmemb
    rw [get?_moveMembers ?_ hmoves]
    · exact hnes.rows other (mem_cons_of_mem _ hmem) member hmemb
    · intro hin
      exact hnodup.2.2 hin (mem_flatMap.mpr ⟨other, hmem, mem_map_of_mem hmemb⟩)
  · intro other hmem uri huri id hresol
    have hout : Outside tables plans id := by
      rcases resolveId_moveMembers hnodup.1 hrows hmoves hresol with hid | hbef
      · obtain ⟨member, hmemb, rfl⟩ := mem_map.mp hid
        exact fun right hright => hfirst right hright member hmemb
      · exact fun right hright => hnes.clean other (mem_cons_of_mem _ hmem) uri huri id hbef
          right (mem_cons_of_mem _ hright)
    exact hout.change hparen hitem hother
  · refine hapart.imp_of_mem fun {left right} _ hright hbet member hmemb hins => ?_
    exact hbet member hmemb
      (hins.of_change (fun parent heq => hparen parent heq right hright) hitem hother)

variable [JsonText.NumberText]

theorem Nesting.apply (hnes : Nesting (plan :: plans) tables) (hchg : plan.changed = true)
    (happly : applyPlan around tables plan = .ok result) : Nesting plans result := by
  rw [applyPlan, if_pos hchg] at happly
  obtain ⟨stubbed, hstubs, happly⟩ := bind_eq_ok.mp happly
  obtain ⟨moved, hmoves, happly⟩ := bind_eq_ok.mp happly
  have hstubs : stubAncestors around (ancestorUris plan.toRoot) tables none = .ok stubbed := hstubs
  have hstubb : Nesting (plan :: plans) stubbed :=
    hnes.stubs mem_cons_self (fun uri huri => huri) (by rintro uri ⟨⟩) hstubs
  have hmoved : Nesting plans moved := by
    refine hstubb.moves (fun parent hpar => ?_) hmoves
    obtain ⟨parentUri, huri, hresol⟩ := Option.bind_eq_some_iff.mp hpar
    have hresol : resolveId stubbed parentUri = some parent := hresol
    exact ⟨link_ne_none.mpr (get?_of_resolveId hresol),
      hstubb.clean plan mem_cons_self parentUri (implicitParentUri_mem huri) parent hresol⟩
  obtain ⟨kv, hremap⟩ := remapAwakenUris_eq moved plan.fromUri plan.toRoot
  obtain rfl := Except.ok.inj happly
  rw [hremap]
  exact ⟨hmoved.1, hmoved.2, hmoved.3, hmoved.4, hmoved.5, hmoved.6⟩

theorem Nesting.applyAll (hnes : Nesting plans tables) (hchg : ∀ plan ∈ plans, plan.changed = true)
    (happly : applyPlans around plans tables = .ok result) : Forest (link result) := by
  induction plans generalizing tables with
  | nil => exact Except.ok.inj happly ▸ hnes.forest
  | cons plan rest ih =>
    obtain ⟨hfirst, hrest⟩ := forall_mem_cons.mp hchg
    obtain ⟨middle, hmid, happly⟩ := bind_eq_ok.mp happly
    exact ih (hnes.apply hfirst hmid) hrest happly

theorem applyPlans_changed (plans : List Plan) (tables : Tables) :
    applyPlans around plans tables = applyPlans around (plans.filter Plan.changed) tables := by
  induction plans generalizing tables with
  | nil => rfl
  | cons plan rest ih =>
    rw [applyPlans]
    by_cases hchg : plan.changed = true
    · rw [filter_cons_of_pos hchg, applyPlans]
      exact congrArg _ (funext ih)
    · rw [filter_cons_of_neg hchg, applyPlan, if_neg hchg, ok_bind, ih]

/-- No target of the batch lies below an address of a node that it moves. -/
def BatchApart (tables : Tables) (moves : List Move) : Prop :=
  ∀ plans, planMoves tables moves [] = .ok plans → ∀ plan ∈ plans, plan.changed = true →
    ∀ ancestor ∈ ancestorUris plan.toRoot, ∀ id, resolveId tables ancestor = some id →
      id ∉ movedIds (plans.filter Plan.changed)

instance (tables : Tables) (moves : List Move) : Decidable (BatchApart tables moves) :=
  decidableOfOk _ _

omit [Tokenizer] [JsonText.NumberText] in
theorem Planned.inside_iff (hplann : Planned tables plan) (id : JsStr) :
    Inside (link tables) plan.root id ↔ id ∈ plan.members.map Member.nodeId := by
  obtain ⟨root, hroot, _, hmembs⟩ := hplann
  obtain ⟨below, _, heq⟩ := subtreeMembers_eq_ok.mp hmembs
  have hid : plan.root = root.1 := by rw [Plan.root, heq, map_cons, headD_cons]
  rw [hid]
  exact (subtreeMembers_spec hroot hmembs).2.2 id

omit [Tokenizer] [JsonText.NumberText] in
theorem Planned.wellRooted (hplann : Planned tables plan) (hnodup : plan.newUris.Nodup) : plan.WellRooted := by
  obtain ⟨root, _, _, hmembs⟩ := hplann
  obtain ⟨below, _, heq⟩ := subtreeMembers_eq_ok.mp hmembs
  have hid : plan.root = root.1 := by rw [Plan.root, heq, map_cons, headD_cons]
  refine ⟨root.2, below, hid ▸ heq, fun member hmemb hrel => ?_⟩
  -- A second member with an empty path would collide with the root at the target.
  rw [Plan.newUris, heq, map_cons, nodup_cons] at hnodup
  refine hnodup.1 (mem_map.mpr ⟨member, hmemb, ?_⟩)
  rw [Plan.newUri, Plan.newUri, hrel]

omit [Tokenizer] [JsonText.NumberText] in
theorem nesting_start (hfor : Forest (link tables)) (hplann : ∀ plan ∈ plans, Planned tables plan)
    (hnodup : (movedIds plans).Nodup) (huris : (plans.flatMap Plan.newUris).Nodup)
    (hclean : ∀ plan ∈ plans, ∀ ancestor ∈ ancestorUris plan.toRoot, ∀ id,
      resolveId tables ancestor = some id → id ∉ movedIds plans) : Nesting plans tables := by
  refine ⟨hfor, fun plan hplan member hmemb => (hplann plan hplan).get? hmemb, hnodup, ?_, ?_, ?_⟩
  · intro plan hplan
    exact (hplann plan hplan).wellRooted ((nodup_flatMap.mp huris).1 plan hplan)
  · intro plan hplan ancestor hanc id hresol other hother hins
    refine hclean plan hplan ancestor hanc id hresol (mem_flatMap.mpr ⟨other, hother, ?_⟩)
    exact ((hplann other hother).inside_iff id).mp hins
  · refine (nodup_flatMap.mp hnodup).2.imp_of_mem fun {left right} _ hright hdis => ?_
    intro member hmemb hins
    exact hdis (mem_map_of_mem hmemb) (((hplann right hright).inside_iff _).mp hins)

theorem forest_relocateMany {moves : List Move} (hfor : Forest (link tables))
    (hapart : BatchApart tables moves) (hreloc : relocateMany tables around moves = .ok result) :
    Forest (link result) := by
  obtain ⟨plans, hplans, hcheck, happly⟩ := relocateMany_eq_ok.mp hreloc
  obtain ⟨hplann, hnodup, _⟩ := planMoves_eq_ok hplans nofun nodup_nil
  rw [applyPlans_changed] at happly
  refine Nesting.applyAll (nesting_start hfor ?_ ?_ (checkPlans_eq_ok hcheck) ?_) ?_ happly
  · exact fun plan hplan => hplann plan (mem_filter.mp hplan).1
  · exact hnodup.sublist (movedIds_changed_sublist plans)
  · intro plan hplan
    obtain ⟨hplan, hchg⟩ := mem_filter.mp hplan
    exact hapart plans hplans plan hplan hchg
  · exact fun plan hplan => (mem_filter.mp hplan).2

end Nest

/-! ### Recovery -/

/-- No uri above the deleted node is an alias that still points to it. -/
def RecoveryApart (tables : Tables) (uri : JsStr) (version : Option Nat) : Prop :=
  ∀ revision, revisionOf tables uri version = some revision → ∀ ancestor ∈ ancestorUris uri,
    tables.nodes.byUri ancestor = none →
      (tables.aliases.get? ancestor).map AliasRow.targetNodeId ≠ some revision.nodeId

instance (tables : Tables) (uri : JsStr) (version : Option Nat) :
    Decidable (RecoveryApart tables uri version) :=
  decidableOfSome _ _

theorem length_uri_le (uri : JsStr) : (uriScheme uri ++ JsStr.join slash (uriSegments uri)).length ≤ uri.length := by
  have hjoin := JsStr.join_split (show schemeMark ≠ [] by decide) uri
  rw [uriSegments, JsStr.join_split (show slash ≠ [] by decide), uriScheme]
  split
  · rename_i scheme path hsplit
    rw [hsplit, JsStr.join_cons _ _ (cons_ne_nil _ _)] at hjoin
    rw [hsplit, ← hjoin]
    simp [JsStr.join]
  · rw [nil_append]
    cases hlast : (JsStr.split schemeMark uri).getLast? with
    | none => exact Nat.zero_le _
    | some path =>
      have hle := JsStr.length_le_join schemeMark (mem_of_getLast? hlast)
      rw [hjoin] at hle
      exact hle

theorem ancestor_ne {uri ancestor : JsStr} (hanc : ancestor ∈ ancestorUris uri) : ancestor ≠ uri := by
  rw [ancestorUris, mem_map] at hanc
  obtain ⟨index, hindex, rfl⟩ := hanc
  have hindex := mem_range.mp hindex
  have hseg : uriSegments uri ≠ [] := fun hnil => by
    rw [hnil] at hindex
    exact absurd hindex (by simp)
  have htake : (uriSegments uri).take (index + 1) ≠ [] := by simp [hseg]
  have hdrop : (uriSegments uri).drop (index + 1) ≠ [] := by
    rw [Ne, drop_eq_nil_iff]
    omega
  have hjoin := JsStr.join_append slash htake hdrop
  rw [take_append_drop] at hjoin
  have hle := length_uri_le uri
  rw [hjoin] at hle
  intro heq
  have hlen := congrArg List.length heq
  simp only [length_append] at hle hlen
  have hslash : slash.length = 1 := rfl
  omega

section Recovery

variable [Tokenizer]

theorem nesting_recovered {uri content : JsStr} (hfor : Forest (link tables))
    (hinsert : insertNodeAs tables around (plainInput uri content .imported) false nodeId = .ok result)
    (hapart : ∀ ancestor ∈ ancestorUris uri, tables.nodes.byUri ancestor = none →
      (tables.aliases.get? ancestor).map AliasRow.targetNodeId ≠ some nodeId) :
    Nesting [⟨uri, uri, none, [⟨nodeId, newRow tables around (plainInput uri content .imported) false,
      []⟩]⟩] result := by
  have hinser := inserts_of_insertNodeAs hinsert
  have habs : link tables nodeId = none := by rw [link, hinser.fresh, Option.map_none]
  have hrow : result.nodes.get? nodeId =
      some (newRow tables around (plainInput uri content .imported) false) := by
    rw [hinser.nodes, if_pos rfl]
  refine ⟨forest_insertNodeAs hfor hinsert, ?_, nodup_singleton _, ?_, ?_, pairwise_singleton _ _⟩
  · intro plan hplan member hmemb
    rw [mem_singleton.mp hplan] at hmemb
    rw [mem_singleton.mp hmemb]
    exact hrow
  · intro plan hplan
    rw [mem_singleton.mp hplan]
    exact ⟨_, [], rfl, fun member hmemb => absurd hmemb not_mem_nil⟩
  · intro plan hplan ancestor hanc id hresol other hother hins
    rw [mem_singleton.mp hplan] at hanc
    rw [mem_singleton.mp hother] at hins
    have hid : id = nodeId := by
      rcases hins.eq_or_child with heq | ⟨child, hchild, _⟩
      · exact heq
      · rw [hinser.link] at hchild
        split_ifs at hchild with hself
        · cases hchild
        · exact absurd habs (hfor.parent_present hchild)
    rw [hid] at hresol
    obtain ⟨row, hfound, hway⟩ := resolveId_eq_some.mp hresol
    rw [hrow] at hfound
    obtain rfl := Option.some.inj hfound
    rcases hway with huri | ⟨hnone, halias⟩
    · exact ancestor_ne hanc huri.symm
    · rw [hinser.aliases] at halias
      refine hapart ancestor hanc (NodeTable.byUri_eq_none.mpr fun rival row hrival huri => ?_) halias
      refine NodeTable.byUri_eq_none.mp hnone rival row ?_ huri
      rw [hinser.nodes, if_neg, hrival]
      rintro rfl
      rw [hinser.fresh] at hrival
      cases hrival

theorem forest_restoreDeleted {uri : JsStr} {version : Option Nat} (hfor : Forest (link tables))
    (hapart : RecoveryApart tables uri version)
    (hres : restoreDeleted tables around uri version = .ok result) : Forest (link result) := by
  unfold restoreDeleted at hres
  cases hresol : resolveUri tables uri with
  | some node =>
    rw [hresol] at hres
    exact nomatch hres
  | none =>
    cases hrev : revisionOf tables uri version with
    | none =>
      rw [hresol, hrev] at hres
      exact nomatch hres
    | some revision =>
      rw [hresol, hrev] at hres
      obtain ⟨inserted, hinsert, hres⟩ := bind_eq_ok.mp hres
      obtain ⟨stubbed, hstubs, hres⟩ := bind_eq_ok.mp hres
      have hstubs : stubAncestors around (ancestorUris uri) inserted none = .ok stubbed := hstubs
      have hnes := (nesting_recovered hfor hinsert (hapart revision hrev)).stubs
        mem_cons_self (fun _ hmem => hmem) (by rintro uri ⟨⟩) hstubs
      have hrow := hnes.rows _ mem_cons_self _ mem_cons_self
      have hresult := Except.ok.inj hres
      have hitem : link result revision.nodeId = some ((implicitParentUri uri).bind fun parentUri =>
          (resolveUri stubbed parentUri).map Prod.fst) := by
        rw [← hresult, link]
        dsimp only
        rw [get?_modify, if_pos rfl, hrow]
        rfl
      refine hnes.forest.reparent (fun parent hpar => ?_) hitem fun rest hne => ?_
      · obtain ⟨parentUri, huri, hpar⟩ := Option.bind_eq_some_iff.mp hpar
        have hpar : resolveId stubbed parentUri = some parent := hpar
        exact ⟨link_ne_none.mpr (get?_of_resolveId hpar), hnes.clean _ mem_cons_self
          parentUri (implicitParentUri_mem huri) parent hpar _ mem_cons_self⟩
      · rw [← hresult, link]
        dsimp only
        rw [get?_modify, if_neg hne, link]

end Recovery

/-! ### Runs -/

section Runs

variable [Tokenizer] [JsonText.NumberText]

/-- The condition of a call on the tables it starts from. -/
def Operation.Apart (tables : Tables) (around : Surroundings) : Operation → Prop
  | .relocateMany moves => BatchApart tables moves
  | .rename oldUri newUri => BatchApart tables [⟨oldUri, newUri, none⟩]
  | .consolidateGroup theme moves => ∀ placed, Memory.put tables around theme = .ok placed →
      BatchApart placed moves
  | .restoreDeleted uri version => RecoveryApart tables uri version
  | _ => True

def ApartRun : Tables → List (Surroundings × Operation) → Prop
  | _, [] => True
  | tables, call :: rest => call.2.Apart tables call.1 ∧ ApartRun (perform tables call) rest

instance (tables : Tables) (around : Surroundings) (operation : Operation) :
    Decidable (operation.Apart tables around) :=
  match operation with
  | .relocateMany moves => inferInstanceAs (Decidable (BatchApart tables moves))
  | .rename oldUri newUri => inferInstanceAs (Decidable (BatchApart tables [⟨oldUri, newUri, none⟩]))
  | .consolidateGroup theme moves =>
    decidableOfOk (Memory.put tables around theme) fun placed => BatchApart placed moves
  | .restoreDeleted uri version => inferInstanceAs (Decidable (RecoveryApart tables uri version))
  | .put _ | .insertNode _ | .updateNode _ _ _ | .addAlias _ _ _ | .deleteCascade _
  | .restoreRevision _ _ _ | .addGlossaryEntry _ _ | .removeGlossaryEntry _
  | .reconcileNodeProjections _ _ | .appendRaw _ | .syncRawBranch _ _ | .importSnapshot _ => .isTrue trivial

instance decidableApartRun : ∀ (tables : Tables) (calls : List (Surroundings × Operation)),
    Decidable (ApartRun tables calls)
  | _, [] => .isTrue trivial
  | tables, call :: rest =>
    have := decidableApartRun (perform tables call) rest
    inferInstanceAs (Decidable (call.2.Apart tables call.1 ∧ ApartRun (perform tables call) rest))

def Operation.imports : Operation → Bool
  | .importSnapshot _ => true
  | _ => false

omit [JsonText.NumberText] in
theorem link_reconcileNode {sessionId : JsStr} {active : List JsStr} :
    link (reconcileNode sessionId active tables nodeId) = link tables := by
  unfold reconcileNode
  split
  · split_ifs
    · rfl
    · rw [link_reindexNode]
      refine link_modify ?_
      exact fun _ => rfl
  · rfl

omit [JsonText.NumberText] in
theorem link_reconcile {sessionId : JsStr} {active : List JsStr} (ids : List JsStr) :
    link (ids.foldl (reconcileNode sessionId active) tables) = link tables := by
  induction ids generalizing tables with
  | nil => rfl
  | cons id rest ih => rw [foldl_cons, ih, link_reconcileNode]

omit [JsonText.NumberText] in
theorem link_removeGlossaryEntry {keyword : JsStr} : link (removeGlossaryEntry tables keyword) = link tables := by
  rw [removeGlossaryEntry]
  split
  · rfl
  · rw [link_reindexNode]
    rfl

omit [JsonText.NumberText] in
theorem nodes_upsertRaw (entry : RawEntry) : (upsertRaw tables entry).nodes = tables.nodes := by
  rw [upsertRaw]
  split
  · rfl
  · rfl

omit [JsonText.NumberText] in
theorem link_appendRaw (entries : List RawEntry) : link (appendRaw tables entries) = link tables := by
  induction entries generalizing tables with
  | nil => rfl
  | cons entry rest ih =>
    rw [appendRaw, foldl_cons]
    exact ih.trans (link_of_get? fun id => by rw [nodes_upsertRaw])

theorem forest_run {operation : Operation} (hfor : Forest (link tables))
    (hapart : operation.Apart tables around) (himp : operation.imports = false)
    (hrun : operation.run tables around = .ok result) : Forest (link result) := by
  have hsame : link result = link tables → Forest (link result) := fun heq => heq ▸ hfor
  cases operation with
  | put input => exact forest_put hfor hrun
  | insertNode input => exact forest_insertNodeAs hfor hrun
  | updateNode nodeId patch provenance => exact hsame (link_of_map_updateNode hrun)
  | addAlias aliasUri targetNodeId disclosure =>
    obtain rfl := Except.ok.inj hrun
    exact hsame rfl
  | relocateMany moves => exact forest_relocateMany hfor hapart hrun
  | rename oldUri newUri => exact forest_relocateMany hfor hapart hrun
  | consolidateGroup theme moves =>
    obtain ⟨placed, hput, hreloc⟩ := bind_eq_ok.mp hrun
    exact forest_relocateMany (forest_put hfor hput) (hapart placed hput) hreloc
  | deleteCascade nodeId =>
    obtain ⟨after, hafter, hcut⟩ := deleteCascade_cut hfor around nodeId
    have hrun : deleteCascade tables around nodeId = .ok result := hrun
    rw [hafter] at hrun
    exact Except.ok.inj hrun ▸ hcut.forest hfor
  | restoreDeleted uri version => exact forest_restoreDeleted hfor hapart hrun
  | restoreRevision nodeId version provenance =>
    have hrun : restoreRevision tables around nodeId version provenance = .ok result := hrun
    rw [restoreRevision] at hrun
    split at hrun
    · exact nomatch hrun
    · exact hsame (link_of_map_updateNode hrun)
  | addGlossaryEntry keyword nodeId =>
    obtain rfl := Except.ok.inj hrun
    exact hsame (link_reindexNode.trans rfl)
  | removeGlossaryEntry keyword =>
    obtain rfl := Except.ok.inj hrun
    exact hsame link_removeGlossaryEntry
  | reconcileNodeProjections sessionId active =>
    obtain rfl := Except.ok.inj hrun
    exact hsame (link_reconcile _)
  | appendRaw entries =>
    obtain rfl := Except.ok.inj hrun
    exact hsame (link_appendRaw entries)
  | syncRawBranch sessionId entries =>
    obtain rfl := Except.ok.inj hrun
    exact hsame (Eq.trans rfl (link_appendRaw _))
  | importSnapshot snapshot => exact nomatch himp

theorem forest_performAll {calls : List (Surroundings × Operation)} (hfor : Forest (link tables))
    (himp : ∀ call ∈ calls, call.2.imports = false) (hapart : ApartRun tables calls) :
    Forest (link (performAll tables calls)) := by
  induction calls generalizing tables with
  | nil => exact hfor
  | cons call rest ih =>
    obtain ⟨hfirst, hrest⟩ := forall_mem_cons.mp himp
    rw [performAll, foldl_cons]
    refine ih ?_ hrest hapart.2
    -- A call that throws leaves the tables as they were.
    cases hrun : call.2.run tables call.1 with
    | error error =>
      rw [perform, hrun]
      exact hfor
    | ok after =>
      rw [perform, hrun]
      exact forest_run hfor hapart.1 hfirst hrun

omit [JsonText.NumberText] in
theorem forest_seedNode {uri content : JsStr} (hfor : Forest (link tables))
    (hseed : seedNode around tables uri content = .ok result) : Forest (link result) := by
  rw [seedNode] at hseed
  split at hseed
  · exact Except.ok.inj hseed ▸ hfor
  · exact forest_insertNodeAs hfor hseed

omit [JsonText.NumberText] in
theorem forest_seed (hseed : seed Tables.empty around = .ok result) : Forest (link result) := by
  obtain ⟨first, hfirst, hseed⟩ := bind_eq_ok.mp hseed
  obtain ⟨second, hsnd, hthird⟩ := bind_eq_ok.mp hseed
  have hempty : Forest (link (setKv Tables.empty schemaVersionKey (js "4"))) :=
    fun item hitem => absurd rfl hitem
  exact forest_seedNode (forest_seedNode (forest_seedNode hempty hfirst) hsnd) hthird

/-- What the links are to be in every state. -/
structure TreeSound (tables : Tables) : Prop where
  parents : ∀ id row parent, tables.nodes.get? id = some row → row.parentId = some parent →
    ∃ above, tables.nodes.get? parent = some above
  rooted : ∀ id row, tables.nodes.get? id = some row → Rooted (link tables) id
  walks : ∀ root, tables.nodes.get? root.1 = some root.2 →
    ∃ members, subtreeMembers tables root = .ok members
  deletes : ∀ around nodeId, ∃ after, deleteCascade tables around nodeId = .ok after ∧
    ∀ id row parent, after.nodes.get? id = some row → row.parentId = some parent →
      ∃ above, after.nodes.get? parent = some above

omit [Tokenizer] [JsonText.NumberText] in
theorem parents_of_forest (hfor : Forest (link tables)) {id parent : JsStr} {row : NodeRow}
    (hrow : tables.nodes.get? id = some row) (hpar : row.parentId = some parent) :
    ∃ above, tables.nodes.get? parent = some above := by
  have hlink : link tables id = some (some parent) := by rw [link, hrow, Option.map_some, hpar]
  exact link_ne_none.mp (hfor.parent_present hlink)

omit [Tokenizer] [JsonText.NumberText] in
theorem treeSound_of_forest (hfor : Forest (link tables)) : TreeSound tables := by
  refine ⟨fun id row parent hrow hpar => parents_of_forest hfor hrow hpar,
    fun id row hrow => hfor id (link_ne_none.mpr ⟨row, hrow⟩),
    fun root _ => subtreeMembers_of_forest hfor root, fun around nodeId => ?_⟩
  obtain ⟨after, hafter, hcut⟩ := deleteCascade_cut hfor around nodeId
  exact ⟨after, hafter, fun id row parent hrow hpar =>
    parents_of_forest (hcut.forest hfor) hrow hpar⟩

/-- Along every run from a seeded store whose moves and recoveries stay clear of their own subtrees, the
tree is a forest and its walks end. -/
theorem memory_tree_sound {start : Tables} {calls : List (Surroundings × Operation)}
    (hseed : seed Tables.empty around = .ok start) (himp : ∀ call ∈ calls, call.2.imports = false)
    (hapart : ApartRun start calls) : TreeSound (performAll start calls) :=
  treeSound_of_forest (forest_performAll (forest_seed hseed) himp hapart)

end Runs

section Sample

local instance forestTokenizer : Tokenizer := plainTokenizer

local instance forestNumbers : JsonText.NumberText := JsonText.decimalNumbers

/-- The old uri of a renamed node is its alias; the second move puts the node below it. -/
def aliasCycle : List Operation :=
  [samplePut "history://a" "one", .rename (js "history://a") (js "history://b"),
    .rename (js "history://b") (js "history://a/c")]

/-- The node becomes its own parent. -/
theorem memory_tree_cycle : seed Tables.empty sampleAround = .ok sampleStart ∧
    (∀ operation ∈ aliasCycle, operation.imports = false) ∧ ¬ TreeSound (sampleRun aliasCycle) := by
  refine ⟨by decide +kernel, by decide +kernel, fun hsound => ?_⟩
  have hself : link (sampleRun aliasCycle) (js "history://a") = some (some (js "history://a")) := by
    decide +kernel
  obtain ⟨row, hrow⟩ := link_ne_none.mp (hself ▸ Option.some_ne_none _)
  exact (hsound.rooted _ row hrow).not_inside_child hself .self

/-- A rename, a batch and a recovery that stay clear of their own subtrees. -/
def apartCalls : List Operation :=
  [samplePut "history://a/x" "one", .rename (js "history://a") (js "history://b"),
    .relocateMany [⟨js "history://b/x", js "history://y/z", none⟩],
    .deleteCascade (js "history://a/x"), .restoreDeleted (js "history://y/z") none]

theorem memory_tree_sound_sample : TreeSound (sampleRun apartCalls) ∧
    resolveId (sampleRun apartCalls) (js "history://y/z") = some (js "history://a/x") := by
  have hseed : seed Tables.empty sampleAround = .ok sampleStart := by decide +kernel
  exact ⟨memory_tree_sound hseed (by decide +kernel) (by decide +kernel), by decide +kernel⟩

end Sample

end PiRp.Memory

import PiRp.MemoryOperations

/-! How the statements of the store change what a uri resolves to. Only an insertion and the move of a
member do; each is described by one lemma on the id a uri resolves to. -/

namespace PiRp.Memory

open Option

/-- The id of the node a uri resolves to. -/
def resolveId (tables : Tables) (uri : JsStr) : Option JsStr := (resolveUri tables uri).map Prod.fst

variable {tables result : Tables} {around : Surroundings} {uri nodeId : JsStr}

theorem resolveUri_eq_some {found : JsStr × NodeRow} : resolveUri tables uri = some found ↔
    tables.nodes.get? found.1 = some found.2 ∧ (found.2.uri = uri ∨ tables.nodes.byUri uri = none ∧
        (tables.aliases.get? uri).map AliasRow.targetNodeId = some found.1) := by
  rw [resolveUri]
  cases hnode : tables.nodes.byUri uri with
  | some node =>
    obtain ⟨hget, huri⟩ := NodeTable.byUri_eq_some.mp hnode
    dsimp only
    constructor
    · rintro hfound
      obtain rfl := Option.some.inj hfound
      exact ⟨hget, .inl huri⟩
    · rintro ⟨hfound, hsame | ⟨hnone, _⟩⟩
      · have hsame := NodeTable.byUri_eq_some.mpr ⟨hfound, hsame⟩
        rw [hnode] at hsame
        exact hsame
      · exact nomatch hnone
  | none =>
    dsimp only
    cases hentry : tables.aliases.get? uri with
    | none =>
      rw [bind_none, map_none]
      constructor
      · exact nofun
      · rintro ⟨hfound, hsame | ⟨_, hentry⟩⟩
        · exact absurd hsame (NodeTable.byUri_eq_none.mp hnode _ _ hfound)
        · exact nomatch hentry
    | some entry =>
      rw [bind_some, map_some, map_eq_some_iff]
      constructor
      · rintro ⟨row, hrow, rfl⟩
        exact ⟨hrow, .inr ⟨rfl, rfl⟩⟩
      · rintro ⟨hfound, hsame | ⟨_, hentry⟩⟩
        · exact absurd hsame (NodeTable.byUri_eq_none.mp hnode _ _ hfound)
        · rw [Option.some.inj hentry]
          exact ⟨found.2, hfound, rfl⟩

theorem resolveId_eq_some : resolveId tables uri = some nodeId ↔
    ∃ row, tables.nodes.get? nodeId = some row ∧ (row.uri = uri ∨ tables.nodes.byUri uri = none ∧
        (tables.aliases.get? uri).map AliasRow.targetNodeId = some nodeId) := by
  rw [resolveId, map_eq_some_iff]
  constructor
  · rintro ⟨found, hfound, rfl⟩
    exact ⟨found.2, resolveUri_eq_some.mp hfound⟩
  · rintro ⟨row, hrow⟩
    exact ⟨(nodeId, row), resolveUri_eq_some.mpr hrow, rfl⟩

theorem get?_of_resolveId (hresol : resolveId tables uri = some nodeId) :
    ∃ row, tables.nodes.get? nodeId = some row := by
  obtain ⟨row, hrow, _⟩ := resolveId_eq_some.mp hresol
  exact ⟨row, hrow⟩

/-! ### What the statements leave alone -/

section Frames

variable [Tokenizer]

theorem reindexNode_eq (tables : Tables) (nodeId : JsStr) :
    ∃ nodeFts, reindexNode tables nodeId = { tables with nodeFts } := by
  rw [reindexNode]
  cases tables.nodes.get? nodeId with
  | none => exact ⟨tables.nodeFts, rfl⟩
  | some node => exact ⟨_, rfl⟩

@[simp] theorem nodes_reindexNode : (reindexNode tables nodeId).nodes = tables.nodes := by
  obtain ⟨nodeFts, heq⟩ := reindexNode_eq tables nodeId
  rw [heq]

@[simp] theorem revisions_reindexNode : (reindexNode tables nodeId).revisions = tables.revisions := by
  obtain ⟨nodeFts, heq⟩ := reindexNode_eq tables nodeId
  rw [heq]

omit [Tokenizer] in
theorem archiveRevision_eq (tables : Tables) (around : Surroundings) (nodeId content : JsStr)
    (editorSource editorModel uri : Option JsStr) (snapshot : Option NodeRow) (anchor : Option RevisionAnchor) :
    ∃ revisions, (archiveRevision tables around nodeId content editorSource editorModel uri snapshot
      anchor).1 = { tables with revisions } := by
  simp only [archiveRevision, applyRevisionRetention]
  cases around.revisionRetention with
  | none => exact ⟨_, rfl⟩
  | some limit => exact ⟨_, rfl⟩

omit [Tokenizer] in
theorem dropNode_eq (tables : Tables) (around : Surroundings) (nodeId : JsStr) (node : NodeRow) :
    ∃ revisions, dropNode tables around nodeId node = { tables with
      nodes := tables.nodes.delete nodeId
      revisions
      nodeFts := tables.nodeFts.filter fun row => row.nodeId ≠ nodeId
      aliases := tables.aliases.filter fun _ entry => entry.targetNodeId ≠ nodeId
      edges := tables.edges.filter fun key _ => key.1 ≠ nodeId && key.2 ≠ node.uri
      glossary := tables.glossary.filter fun _ owner => owner ≠ nodeId } := by
  obtain ⟨revisions, harc⟩ := archiveRevision_eq { tables with nodeFts := _, aliases := _, edges := _, glossary := _ }
    around nodeId node.content (some node.source.text) node.model (some node.uri) (some node) none
  rw [dropNode, harc]
  exact ⟨_, rfl⟩

theorem recordInsert_eq (tables : Tables) (around : Surroundings) (input : NodeInput) (isStub : Bool)
    (nodeId : JsStr) (row : NodeRow) : ∃ nodeFts revisions, recordInsert tables around input isStub nodeId row =
      { tables with nodeFts, revisions } := by
  obtain ⟨nodeFts, hindex⟩ := reindexNode_eq tables nodeId
  rw [recordInsert]
  split_ifs with hstub
  · exact ⟨_, _, rfl⟩
  · cases input.anchor with
    | none => exact ⟨nodeFts, tables.revisions, hindex⟩
    | some anchor =>
      obtain ⟨revisions, harc⟩ := archiveRevision_eq (reindexNode tables nodeId) around nodeId
        input.content (some row.source.text) input.model.join (some input.uri) (some row) (some anchor)
      refine ⟨nodeFts, revisions, ?_⟩
      dsimp only
      rw [harc, hindex]

/-! ### Insertion -/

/-- An insertion adds one row and nothing else that uris or links depend on. -/
structure Inserts (before : Tables) (nodeId : JsStr) (row : NodeRow) (after : Tables) : Prop where
  fresh : before.nodes.get? nodeId = none
  uri_free : before.nodes.byUri row.uri = none
  nodes : ∀ other, after.nodes.get? other = if other = nodeId then some row else before.nodes.get? other
  aliases : after.aliases = before.aliases
  kv : after.kv = before.kv

theorem inserts_of_insertNodeAs {input : NodeInput} {isStub : Bool}
    (hinsert : insertNodeAs tables around input isStub nodeId = .ok result) :
    Inserts tables nodeId (newRow tables around input isStub) result := by
  obtain ⟨nodes, hnodes, hres⟩ := bind_eq_ok.mp hinsert
  obtain rfl := Except.ok.inj hres
  obtain ⟨hfresh, huri, hget⟩ := NodeTable.insert_eq_ok hnodes
  obtain ⟨nodeFts, revisions, hrec⟩ := recordInsert_eq { tables with nodes } around input isStub nodeId
    (newRow tables around input isStub)
  exact ⟨hfresh, huri, by rw [hrec]; exact hget, by rw [hrec], by rw [hrec]⟩

omit [Tokenizer] in
theorem Inserts.resolveId_of_old {row : NodeRow} (hins : Inserts tables nodeId row result)
    (hnew : resolveId tables row.uri = none) {other : JsStr}
    (hother : resolveId tables uri = some other) : resolveId result uri = some other := by
  obtain ⟨present, hpres, hway⟩ := resolveId_eq_some.mp hother
  have hne : other ≠ nodeId := by
    rintro rfl
    rw [hins.fresh] at hpres
    exact nomatch hpres
  refine resolveId_eq_some.mpr ⟨present, by rw [hins.nodes, if_neg hne, hpres], ?_⟩
  refine hway.imp_right fun ⟨hnone, halias⟩ => ⟨?_, by rw [hins.aliases, halias]⟩
  refine NodeTable.byUri_eq_none.mpr fun id found hfound hsame => ?_
  rw [hins.nodes] at hfound
  split_ifs at hfound with hid
  · obtain rfl := Option.some.inj hfound
    rw [hsame, hother] at hnew
    exact nomatch hnew
  · exact NodeTable.byUri_eq_none.mp hnone id found hfound hsame

omit [Tokenizer] in
theorem Inserts.old_of_resolveId {row : NodeRow} (hins : Inserts tables nodeId row result)
    {other : JsStr} (hother : resolveId result uri = some other) (hne : other ≠ nodeId) :
    resolveId tables uri = some other := by
  obtain ⟨present, hpres, hway⟩ := resolveId_eq_some.mp hother
  rw [hins.nodes, if_neg hne] at hpres
  refine resolveId_eq_some.mpr ⟨present, hpres, ?_⟩
  refine hway.imp_right fun ⟨hnone, halias⟩ => ⟨?_, by rw [← hins.aliases, halias]⟩
  refine NodeTable.byUri_eq_none.mpr fun id found hfound hsame => ?_
  have hid : id ≠ nodeId := by
    rintro rfl
    rw [hins.fresh] at hfound
    exact nomatch hfound
  exact NodeTable.byUri_eq_none.mp hnone id found (by rw [hins.nodes, if_neg hid, hfound]) hsame

/-! ### The move of a member -/

/-- The row of a moved member. -/
def movedRow (around : Surroundings) (plan : Plan) (parentId : Option JsStr) (member : Member)
    (row : NodeRow) : NodeRow :=
  { row with
    uri := plan.newUri member
    domain := uriDomain plan.toRoot
    parentId := if member.rel = [] then parentId else row.parentId
    updatedTs := around.now }

section MovedRow

variable (plan : Plan) (parentId : Option JsStr) (member : Member) (row : NodeRow)

omit [Tokenizer] in
@[simp] theorem movedRow_uri : (movedRow around plan parentId member row).uri = plan.newUri member := rfl

omit [Tokenizer] in
@[simp] theorem movedRow_disclosure : (movedRow around plan parentId member row).disclosure = row.disclosure := rfl

end MovedRow

theorem moveMember_eq_ok {plan : Plan} {parentId : Option JsStr} {member : Member}
    (hmove : moveMember around plan parentId tables member = .ok result) : (∀ other, result.nodes.get? other =
      if other = member.nodeId then (tables.nodes.get? member.nodeId).map (movedRow around plan parentId member)
      else tables.nodes.get? other) ∧ (∀ other, result.aliases.get? other = if other = member.node.uri then
        some ⟨member.nodeId, plan.condition.getD (effectiveDisclosure tables member.node.uri)⟩
      else tables.aliases.get? other) ∧ result.kv = tables.kv := by
  obtain ⟨nodes, hnodes, hres⟩ := bind_eq_ok.mp hmove
  obtain rfl := Except.ok.inj hres
  obtain ⟨nodeFts, heq⟩ := reindexNode_eq { tables with
    nodes
    aliases := tables.aliases.set member.node.uri
      ⟨member.nodeId, plan.condition.getD (effectiveDisclosure tables member.node.uri)⟩ } member.nodeId
  dsimp only at heq
  rw [heq]
  exact ⟨NodeTable.update_eq_ok hnodes, JsMap.get?_set _ _ _, rfl⟩

theorem resolveId_moveMember {plan : Plan} {parentId : Option JsStr} {member : Member}
    {row : NodeRow} (hmove : moveMember around plan parentId tables member = .ok result)
    (hrow : tables.nodes.get? member.nodeId = some row) (huri : row.uri = member.node.uri)
    (uri : JsStr) : resolveId result uri =
      if uri = plan.newUri member ∨ uri = member.node.uri then some member.nodeId else resolveId tables uri := by
  obtain ⟨hnodes, haliases, _⟩ := moveMember_eq_ok hmove
  have hmoved : result.nodes.get? member.nodeId = some (movedRow around plan parentId member row) := by
    rw [hnodes, if_pos rfl, hrow, map_some]
  by_cases hnew : uri = plan.newUri member
  · rw [if_pos (.inl hnew)]
    exact resolveId_eq_some.mpr ⟨_, hmoved, .inl hnew.symm⟩
  by_cases hold : uri = member.node.uri
  · rw [if_pos (.inr hold)]
    refine resolveId_eq_some.mpr ⟨_, hmoved, .inr ⟨?_, by rw [haliases, if_pos hold, map_some]⟩⟩
    refine NodeTable.byUri_eq_none.mpr fun id found hfound hsame => ?_
    rw [hnodes] at hfound
    split_ifs at hfound with hid
    · rw [hrow, map_some] at hfound
      rw [← Option.some.inj hfound] at hsame
      exact hnew hsame.symm
    · -- No other node had the old uri.
      have hfirst := NodeTable.byUri_eq_some.mpr ⟨hfound, hsame.trans hold⟩
      rw [NodeTable.byUri_eq_some.mpr ⟨hrow, huri⟩] at hfirst
      exact hid (Prod.mk.inj (Option.some.inj hfirst)).1.symm
  · rw [if_neg (not_or.mpr ⟨hnew, hold⟩)]
    have hcan : ∀ id, (∃ found, result.nodes.get? id = some found ∧ found.uri = uri) ↔
        ∃ found, tables.nodes.get? id = some found ∧ found.uri = uri := by
      intro id
      rw [hnodes]
      by_cases hid : id = member.nodeId
      · rw [if_pos hid, hid, hrow, map_some]
        constructor
        · rintro ⟨found, hfound, hsame⟩
          rw [← Option.some.inj hfound] at hsame
          exact absurd hsame.symm hnew
        · rintro ⟨found, hfound, hsame⟩
          rw [← Option.some.inj hfound, huri] at hsame
          exact absurd hsame.symm hold
      · rw [if_neg hid]
    have hnone : result.nodes.byUri uri = none ↔ tables.nodes.byUri uri = none := by
      rw [NodeTable.byUri_eq_none, NodeTable.byUri_eq_none]
      refine forall_congr' fun id => ?_
      have hiff := not_congr (hcan id)
      simpa only [not_exists, not_and] using hiff
    have hpres : ∀ id, (∃ found, result.nodes.get? id = some found) ↔
        ∃ found, tables.nodes.get? id = some found := by
      intro id
      rw [hnodes]
      by_cases hid : id = member.nodeId
      · rw [if_pos hid, hid, hrow, map_some]
        exact ⟨fun _ => ⟨row, rfl⟩, fun _ => ⟨_, rfl⟩⟩
      · rw [if_neg hid]
    refine Option.ext fun id => ?_
    have hsplit : ∀ state : Tables, resolveId state uri = some id ↔
        (∃ found, state.nodes.get? id = some found ∧ found.uri = uri) ∨
          (∃ found, state.nodes.get? id = some found) ∧ state.nodes.byUri uri = none ∧
            (state.aliases.get? uri).map AliasRow.targetNodeId = some id := by
      intro state
      rw [resolveId_eq_some]
      constructor
      · rintro ⟨found, hfound, hsame | hway⟩
        · exact .inl ⟨found, hfound, hsame⟩
        · exact .inr ⟨⟨found, hfound⟩, hway⟩
      · rintro (⟨found, hfound, hsame⟩ | ⟨⟨found, hfound⟩, hway⟩)
        · exact ⟨found, hfound, .inl hsame⟩
        · exact ⟨found, hfound, .inr hway⟩
    rw [hsplit, hsplit, hcan, hpres, hnone, haliases, if_neg hold]

end Frames

end PiRp.Memory

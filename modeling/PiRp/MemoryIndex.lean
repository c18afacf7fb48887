import PiRp.MemoryRelocation

/-! The search indexes of the memory store. A node has the row in `node_fts` that its uri, content,
condition and keywords make; a raw text has its row in `raw_fts`. Each statement of the store touches the
rows of the nodes it changes, except where a keyword or a uri is taken from another node. -/

namespace PiRp.Memory

open List NodeTable

section Index

variable [Tokenizer] {tables result : Tables} {around : Surroundings} {nodeId : JsStr}

/-! ### The row of a node -/

/-- The rows of the index for a node. -/
def rowsOf (index : List FtsRow) (nodeId : JsStr) : List FtsRow :=
  index.filter fun row => row.nodeId = nodeId

/-- The rows a node should have. -/
def indexRows (tables : Tables) (nodeId : JsStr) : List FtsRow :=
  ((tables.nodes.get? nodeId).bind (ftsRow tables.glossary nodeId)).toList

def Indexed (tables : Tables) (nodeId : JsStr) : Prop :=
  rowsOf tables.nodeFts nodeId = indexRows tables nodeId

/-- The keywords of a node that are more than white space. -/
def keywordsOf (glossary : JsMap JsStr JsStr) (nodeId : JsStr) : List JsStr :=
  ((glossary.entries.filter fun entry => entry.2 = nodeId).map Prod.fst).filter fun keyword =>
    JsStr.trim keyword ≠ []

variable {glossary : JsMap JsStr JsStr} {node : NodeRow}

theorem ftsRow_nodeId {row : FtsRow} (hrow : ftsRow glossary nodeId node = some row) : row.nodeId = nodeId := by
  simp only [ftsRow] at hrow
  split_ifs at hrow <;> exact Option.some.inj hrow ▸ rfl

theorem ftsRow_stub (hstub : node.isStub = true) : ftsRow glossary nodeId node = none := by
  rw [ftsRow, if_pos hstub]

theorem ftsRow_congr {glossary' : JsMap JsStr JsStr} {node' : NodeRow}
    (hkeyw : keywordsOf glossary' nodeId = keywordsOf glossary nodeId)
    (hstub : node'.isStub = node.isStub) (huri : node'.uri = node.uri)
    (hcont : node'.content = node.content) (hdis : node'.disclosure = node.disclosure) :
    ftsRow glossary' nodeId node' = ftsRow glossary nodeId node := by
  simp only [keywordsOf] at hkeyw
  simp only [ftsRow, hkeyw, hstub, huri, hcont, hdis]

theorem rowsOf_toList (other : JsStr) : rowsOf (ftsRow glossary nodeId node).toList other =
      if other = nodeId then (ftsRow glossary nodeId node).toList else [] := by
  cases hrow : ftsRow glossary nodeId node with
  | none => simp [rowsOf]
  | some row =>
    have hid := ftsRow_nodeId hrow
    by_cases hother : other = nodeId
    · simp [rowsOf, hid, hother]
    · simp [rowsOf, hid, hother, Ne.symm hother]

theorem rowsOf_reindexNode (tables : Tables) (nodeId other : JsStr) :
    rowsOf (reindexNode tables nodeId).nodeFts other =
      if other = nodeId ∧ (tables.nodes.get? nodeId).isSome then indexRows tables nodeId
      else rowsOf tables.nodeFts other := by
  rw [reindexNode]
  cases hnode : tables.nodes.get? nodeId with
  | none => simp
  | some node =>
    dsimp only
    rw [rowsOf, filter_append, ← rowsOf, ← rowsOf, rowsOf_toList, rowsOf, filter_filter,
      indexRows, hnode, Option.bind_some]
    by_cases hother : other = nodeId
    · rw [if_pos hother, if_pos ⟨hother, rfl⟩, filter_eq_nil_iff.mpr, nil_append]
      intro row _
      simp [hother]
    · rw [if_neg hother, if_neg fun hboth => hother hboth.1, append_nil, rowsOf]
      refine filter_congr fun row _ => ?_
      by_cases hrow : row.nodeId = other
      · simp [hrow, hother]
      · simp [hrow]

theorem indexRows_reindexNode (other : JsStr) :
    indexRows (reindexNode tables nodeId) other = indexRows tables other := by
  obtain ⟨nodeFts, heq⟩ := reindexNode_eq tables nodeId
  rw [heq]
  rfl

theorem indexRows_absent (habs : tables.nodes.get? nodeId = none) : indexRows tables nodeId = [] := by
  rw [indexRows, habs, Option.bind_none]
  rfl

theorem Indexed.reindexNode (other : JsStr) (hother : other ≠ nodeId → Indexed tables other)
    (habs : tables.nodes.get? nodeId = none → Indexed tables nodeId) : Indexed (reindexNode tables nodeId) other := by
  rw [Indexed, rowsOf_reindexNode, indexRows_reindexNode]
  by_cases hid : other = nodeId
  · cases hnode : tables.nodes.get? nodeId with
    | none => simpa [hid, Indexed] using habs hnode
    | some node => simp [hid]
  · rw [if_neg fun hboth => hid hboth.1]
    exact hother hid

/-! ### The raw log -/

/-- Every raw text has its row, and the numbers of the rows are given out in order. -/
structure RawIndexed (tables : Tables) : Prop where
  nodup : (tables.rawLog.map RawRow.rawId).Nodup
  below : ∀ row ∈ tables.rawLog, row.rawId < tables.nextRawId
  rows : ∀ row ∈ tables.rawLog, tables.rawFts.filter (fun entry => entry.rawId = row.rawId) =
    (rawFtsRow row.rawId row.text).toList

/-- Both indexes are those of the tables. -/
structure Sound (tables : Tables) : Prop where
  nodes : ∀ nodeId, Indexed tables nodeId
  raw : RawIndexed tables

/-! ### The statements -/

theorem Sound.reindexWith (hsound : Sound tables) {changed : Tables}
    (hrows : ∀ other, other ≠ nodeId → indexRows changed other = indexRows tables other)
    (hpres : changed.nodes.get? nodeId = none → tables.nodes.get? nodeId = none)
    (hfts : changed.nodeFts = tables.nodeFts) (hlog : changed.rawLog = tables.rawLog)
    (hraw : changed.rawFts = tables.rawFts) (hnext : changed.nextRawId = tables.nextRawId) :
    Sound (reindexNode changed nodeId) := by
  refine ⟨fun other => Indexed.reindexNode other (fun hne => ?_) fun habs => ?_, ?_⟩
  · rw [Indexed, hfts, hrows other hne]
    exact hsound.nodes other
  · rw [Indexed, hfts, indexRows_absent habs, ← indexRows_absent (hpres habs)]
    exact hsound.nodes nodeId
  · obtain ⟨nodeFts, heq⟩ := reindexNode_eq changed nodeId
    rw [heq]
    exact ⟨hlog ▸ hsound.raw.nodup, hlog.symm ▸ hnext.symm ▸ hsound.raw.below,
      hlog.symm ▸ hraw.symm ▸ hsound.raw.rows⟩

theorem Sound.reindexNode (hsound : Sound tables) {changed : Tables}
    (hnodes : ∀ other, other ≠ nodeId → changed.nodes.get? other = tables.nodes.get? other)
    (hpres : changed.nodes.get? nodeId = none → tables.nodes.get? nodeId = none)
    (hglos : changed.glossary = tables.glossary) (hfts : changed.nodeFts = tables.nodeFts)
    (hlog : changed.rawLog = tables.rawLog) (hraw : changed.rawFts = tables.rawFts)
    (hnext : changed.nextRawId = tables.nextRawId) : Sound (reindexNode changed nodeId) := by
  refine hsound.reindexWith (fun other hne => ?_) hpres hfts hlog hraw hnext
  rw [indexRows, indexRows, hnodes other hne, hglos]

omit [Tokenizer] in
theorem get?_modify_absent {change : NodeRow → NodeRow} (hkeep : ∀ row, (change row).uri = row.uri)
    (habs : (tables.nodes.modify nodeId change hkeep).get? nodeId = none) : tables.nodes.get? nodeId = none := by
  rw [get?_modify, if_pos rfl, Option.map_eq_none_iff] at habs
  exact habs

section

variable (hsound : Sound tables)

include hsound

theorem sound_modify {change : NodeRow → NodeRow} {hkeep : ∀ row, (change row).uri = row.uri}
    :
    Sound (reindexNode { tables with nodes := tables.nodes.modify nodeId change hkeep } nodeId) := by
  refine hsound.reindexNode (fun other hne => ?_) (fun habs => ?_) rfl rfl rfl rfl rfl
  · dsimp only
    rw [get?_modify, if_neg hne]
  · exact get?_modify_absent hkeep habs

theorem sound_archiveRevision {content : JsStr} {editorSource editorModel uri : Option JsStr}
    {snapshot : Option NodeRow} {anchor : Option RevisionAnchor} :
    Sound (archiveRevision tables around nodeId content editorSource editorModel uri snapshot anchor).1 := by
  obtain ⟨revisions, heq⟩ := archiveRevision_eq tables around nodeId content editorSource editorModel uri
    snapshot anchor
  rw [heq]
  exact ⟨hsound.nodes, { hsound.raw with }⟩

theorem sound_insertNodeAs {input : NodeInput} {isStub : Bool}
    (hins : insertNodeAs tables around input isStub nodeId = .ok result) : Sound result := by
  obtain ⟨nodes, hnodes, hres⟩ := bind_eq_ok.mp hins
  obtain rfl := Except.ok.inj hres
  obtain ⟨hfresh, _, hget⟩ := insert_eq_ok hnodes
  have hnew : nodes.get? nodeId = some (newRow tables around input isStub) := by
    rw [hget, if_pos rfl]
  have hind : Sound (reindexNode { tables with nodes } nodeId) := by
    refine hsound.reindexNode (fun other hne => ?_) (fun habs => ?_) rfl rfl rfl rfl rfl
    · dsimp only
      rw [hget, if_neg hne]
    · exact absurd (hnew.symm.trans habs) nofun
  rw [recordInsert]
  split_ifs with hstub
  · -- A stub has no row, like the absent node before it.
    refine ⟨fun other => ?_, { hsound.raw with }⟩
    have hrow := hsound.nodes other
    rw [Indexed, indexRows] at hrow ⊢
    dsimp only
    rw [hrow, hget]
    split_ifs with hid
    · rw [hid, hfresh, Option.bind_none, Option.bind_some, ftsRow_stub hstub]
    · rfl
  · cases input.anchor with
    | none => exact hind
    | some anchor => exact sound_archiveRevision hind

theorem sound_ensureStubAncestors {uri : JsStr} {explicitParent : Option JsStr}
    (hstubs : ensureStubAncestors tables around uri explicitParent = .ok result) : Sound result :=
  ensureStubAncestors_rule (fun hsound _ hins => sound_insertNodeAs hsound hins) hstubs hsound

end

/-! ### Updates -/

omit [Tokenizer] in
theorem get?_applyPatchColumns (patch : NodePatch) (other : JsStr) :
    (applyPatchColumns tables around nodeId patch).nodes.get? other =
      if other = nodeId then (tables.nodes.get? nodeId).map (patch.apply around.now) else tables.nodes.get? other  :=
  @NodeTable.get?_modify tables.nodes nodeId (patch.apply around.now) (fun _ => rfl) other

theorem sound_applyPatchColumns {patch : NodePatch} (hsound : Sound tables)
    (hnode : tables.nodes.get? nodeId = some node) (hcont : patch.changesContent node = false)
    (hdis : patch.disclosure = none) : Sound (applyPatchColumns tables around nodeId patch) := by
  refine ⟨fun other => ?_, { hsound.raw with }⟩
  have hrow := hsound.nodes other
  rw [Indexed, indexRows] at hrow ⊢
  rw [get?_applyPatchColumns]
  refine hrow.trans ?_
  split_ifs with hid
  · rw [hid, hnode, Option.map_some, Option.bind_some, Option.bind_some]
    refine congrArg Option.toList (Eq.symm (ftsRow_congr ?_ ?_ ?_ ?_ ?_))
    · rfl
    · rfl
    · rfl
    · rw [NodePatch.changesContent] at hcont
      cases hpatch : patch.content with
      | none => simp [NodePatch.apply, hpatch]
      | some content =>
        rw [hpatch] at hcont
        simpa [NodePatch.apply, hpatch] using hcont
    · simp [NodePatch.apply, hdis]
  · rfl

theorem sound_updateNode {patch : NodePatch} {provenance : Option RevisionAnchor} (hsound : Sound tables)
    (hupd : (updateNode tables around nodeId patch provenance).map Prod.fst = .ok result) : Sound result := by
  rw [updateNode] at hupd
  cases hnode : tables.nodes.get? nodeId with
  | none =>
    rw [hnode] at hupd
    exact nomatch hupd
  | some node =>
    rw [hnode] at hupd
    obtain rfl := Except.ok.inj hupd
    have hpat : Sound (reindexNode (applyPatchColumns tables around nodeId patch) nodeId) :=
      sound_modify hsound
    -- The columns that follow the patch are set before the turn in the index.
    have hagain : ∀ change hkeep, Sound (reindexNode { applyPatchColumns tables around nodeId patch with
        nodes := (applyPatchColumns tables around nodeId patch).nodes.modify nodeId change hkeep }
          nodeId) := by
      intro change hkeep
      refine hsound.reindexNode (fun other hne => ?_) (fun habs => ?_) rfl rfl rfl rfl rfl
      · dsimp only
        rw [get?_modify, if_neg hne, get?_applyPatchColumns, if_neg hne]
      · have hgone := get?_modify_absent hkeep habs
        rw [get?_applyPatchColumns, if_pos rfl, Option.map_eq_none_iff] at hgone
        exact hgone
    split_ifs with hcont hstub
    · exact hagain _ _
    · exact sound_archiveRevision (hagain _ _)
    · dsimp only [touchNode]
      have htouc : Sound (if patch.disclosure.isSome then
          reindexNode (applyPatchColumns tables around nodeId patch) nodeId
          else applyPatchColumns tables around nodeId patch) := by
        split_ifs with hdis
        · exact hpat
        · refine sound_applyPatchColumns hsound hnode (Bool.not_eq_true _ ▸ hcont) ?_
          exact Option.not_isSome_iff_eq_none.mp hdis
      by_cases hatt : patch.changesAttributes node = true
      · rw [if_pos hatt]
        exact sound_archiveRevision htouc
      · rw [if_neg hatt]
        exact htouc

theorem sound_put {input : NodeInput} (hsound : Sound tables)
    (hput : put tables around input = .ok result) : Sound result := by
  rw [put] at hput
  cases hresol : resolveUri tables input.uri with
  | some existing =>
    rw [hresol] at hput
    exact sound_updateNode hsound hput
  | none =>
    rw [hresol] at hput
    obtain ⟨stubbed, hstubs, hins⟩ := bind_eq_ok.mp hput
    exact sound_insertNodeAs (sound_ensureStubAncestors hsound hstubs) hins

/-! ### Relocation, deletion, recovery, projection -/

theorem sound_moveMember {plan : Plan} {parentId : Option JsStr} {member : Member}
    (hsound : Sound tables) (hmove : moveMember around plan parentId tables member = .ok result) : Sound result := by
  obtain ⟨nodes, hnodes, hres⟩ := bind_eq_ok.mp hmove
  obtain rfl := Except.ok.inj hres
  refine hsound.reindexNode (fun other hne => ?_) (fun habs => ?_) rfl rfl rfl rfl rfl
  · dsimp only
    rw [update_eq_ok hnodes, if_neg hne]
  · dsimp only at habs
    rw [update_eq_ok hnodes, if_pos rfl, Option.map_eq_none_iff] at habs
    exact habs

theorem sound_relocateMany [JsonText.NumberText] {moves : List Move} (hsound : Sound tables)
    (hrel : relocateMany tables around moves = .ok result) : Sound result := by
  obtain ⟨plans, _, _, happly⟩ := relocateMany_eq_ok.mp hrel
  refine @applyPlans_rule tables result around _ _ (fun _ _ tables => Sound tables) ?_ ?_ ?_ plans []
    happly hsound
  · exact fun hsound _ hins => sound_insertNodeAs hsound hins
  · exact fun hsound hmove => sound_moveMember hsound hmove
  · exact fun hsound => ⟨hsound.nodes, { hsound.raw with }⟩

omit [Tokenizer] in
theorem keywordsOf_filter {other : JsStr} (hne : other ≠ nodeId) :
    keywordsOf (glossary.filter fun _ owner => owner ≠ nodeId) other = keywordsOf glossary other := by
  rw [keywordsOf, keywordsOf, JsMap.filter]
  dsimp only
  rw [filter_filter]
  refine congrArg (fun entries => (List.map Prod.fst entries).filter _) (filter_congr ?_)
  intro entry _
  by_cases howner : entry.2 = other
  · simp [howner, hne]
  · simp [howner]

theorem sound_dropNode (hsound : Sound tables) : Sound (dropNode tables around nodeId node) := by
  obtain ⟨revisions, heq⟩ := dropNode_eq tables around nodeId node
  rw [heq]
  refine ⟨fun other => ?_, { hsound.raw with }⟩
  rw [Indexed, indexRows]
  dsimp only
  rw [get?_delete, rowsOf, filter_filter]
  by_cases hother : other = nodeId
  · rw [if_pos hother, Option.bind_none, filter_eq_nil_iff.mpr]
    · rfl
    · intro row _
      simp [hother]
  · have hrow := hsound.nodes other
    rw [Indexed, rowsOf, indexRows] at hrow
    rw [if_neg hother]
    refine Eq.trans (filter_congr fun row _ => ?_) (hrow.trans ?_)
    · by_cases hid : row.nodeId = other
      · simp [hid, hother]
      · simp [hid]
    · cases tables.nodes.get? other with
      | none => rfl
      | some present =>
        exact congrArg Option.toList (ftsRow_congr (keywordsOf_filter hother) rfl rfl rfl rfl).symm

theorem sound_deleteCascadeFrom {depth : Nat} (hsound : Sound tables)
    (hdel : deleteCascadeFrom around depth tables nodeId = .ok result) : Sound result := by
  induction depth generalizing tables nodeId result with
  | zero => exact nomatch hdel
  | succ depth ih =>
    rw [deleteCascadeFrom] at hdel
    cases hnode : tables.nodes.get? nodeId with
    | none =>
      rw [hnode] at hdel
      exact Except.ok.inj hdel ▸ hsound
    | some node =>
      rw [hnode] at hdel
      obtain ⟨middle, hchil, hres⟩ := bind_eq_ok.mp hdel
      obtain rfl := Except.ok.inj hres
      refine sound_dropNode ?_
      clear hdel hres hnode
      generalize (tables.nodes.children nodeId).map Prod.fst = children at hchil
      induction children generalizing tables with
      | nil => exact Except.ok.inj hchil ▸ hsound
      | cons child rest ihrest =>
        obtain ⟨next, hchild, hrest⟩ := bind_eq_ok.mp hchil
        exact ihrest (ih hsound hchild) hrest

theorem sound_restoreDeleted {uri : JsStr} {version : Option Nat} (hsound : Sound tables)
    (hrestore : restoreDeleted tables around uri version = .ok result) : Sound result := by
  unfold restoreDeleted at hrestore
  split at hrestore
  · exact nomatch hrestore
  · exact nomatch hrestore
  · obtain ⟨inserted, hins, hrestore⟩ := bind_eq_ok.mp hrestore
    obtain ⟨stubbed, hstubs, hrestore⟩ := bind_eq_ok.mp hrestore
    have hstubb := sound_ensureStubAncestors (sound_insertNodeAs hsound hins) hstubs
    rw [← Except.ok.inj hrestore]
    -- The parent is not part of the row.
    refine ⟨fun other => ?_, { hstubb.raw with }⟩
    have hrow := hstubb.nodes other
    rw [Indexed, indexRows] at hrow ⊢
    dsimp only
    rw [get?_modify]
    refine hrow.trans ?_
    split_ifs with hid
    · rw [hid]
      cases stubbed.nodes.get? _ with
      | none => rfl
      | some present => exact congrArg Option.toList (ftsRow_congr rfl rfl rfl rfl rfl).symm
    · rfl

variable {sessionId : JsStr}

theorem sound_reconcileNode {active : List JsStr} (hsound : Sound tables) :
    Sound (reconcileNode sessionId active tables nodeId) := by
  unfold reconcileNode
  split
  · split_ifs
    · exact hsound
    · exact sound_modify hsound
  · exact hsound

theorem sound_reconcile {active : List JsStr} (ids : List JsStr)
    (hsound : Sound tables) : Sound (ids.foldl (reconcileNode sessionId active) tables) := by
  induction ids generalizing tables with
  | nil => exact hsound
  | cons id rest ih => exact ih (sound_reconcileNode hsound)

/-! ### The glossary -/

/-- The keyword is free, or its owner is among those that get a turn, or the owner's row does not show
it: the keyword is white space or the owner is a stub or gone. -/
def KeywordFree (tables : Tables) (keyword : JsStr) (owners : List JsStr) : Prop :=
  ∀ holder, tables.glossary.get? keyword = some holder → holder ∈ owners ∨ JsStr.trim keyword = [] ∨
    ∀ node, tables.nodes.get? holder = some node → node.isStub = true

instance (tables : Tables) (keyword : JsStr) (owners : List JsStr) :
    Decidable (KeywordFree tables keyword owners) :=
  decidableOfSome _ _

omit [Tokenizer] in
theorem keywordsOf_eq (glossary : JsMap JsStr JsStr) (nodeId : JsStr) : keywordsOf glossary nodeId =
      (glossary.entries.filter fun entry => JsStr.trim entry.1 ≠ [] && entry.2 = nodeId).map Prod.fst := by
  rw [keywordsOf, filter_map, filter_filter]
  rfl

variable {keyword : JsStr}

omit [Tokenizer] in
theorem keywordsOf_delete (hheld : glossary.get? keyword = some nodeId → JsStr.trim keyword = []) :
    keywordsOf (glossary.delete keyword) nodeId = keywordsOf glossary nodeId := by
  rw [keywordsOf_eq, keywordsOf_eq, JsMap.delete]
  dsimp only
  rw [filter_filter]
  refine congrArg (List.map Prod.fst) (filter_congr fun entry hentry => ?_)
  by_cases hkeyword : entry.1 = keyword
  · by_cases howner : entry.2 = nodeId
    · have hblank := hheld (JsMap.get?_eq_some.mpr (hkeyword ▸ howner ▸ hentry))
      simp [hkeyword, hblank]
    · simp [howner]
  · simp [hkeyword]

omit [Tokenizer] in
theorem keywordsOf_replaceRow {owner : JsStr}
    (hne : nodeId ≠ owner) (hheld : glossary.get? keyword = some nodeId → JsStr.trim keyword = []) :
    keywordsOf (replaceRow glossary keyword owner) nodeId = keywordsOf glossary nodeId := by
  have hnew : (glossary.delete keyword).has keyword = false := by
    rw [← JsMap.get?_eq_none, JsMap.get?_delete, if_pos rfl]
  rw [← keywordsOf_delete hheld, replaceRow, keywordsOf, JsMap.entries_set_of_new owner hnew,
    filter_append, filter_cons_of_neg (by simpa using hne.symm), filter_nil,
    append_nil, keywordsOf]

omit [Tokenizer] in
theorem keywordsOf_delete_free (hfree : glossary.get? keyword = none) :
    keywordsOf (glossary.delete keyword) nodeId = keywordsOf glossary nodeId :=
  keywordsOf_delete fun hheld => absurd (hfree.symm.trans hheld) nofun

theorem indexRows_glossary (hkeyw : (∀ node, tables.nodes.get? nodeId = some node → node.isStub = true) ∨
      keywordsOf glossary nodeId = keywordsOf tables.glossary nodeId) :
    indexRows { tables with glossary } nodeId = indexRows tables nodeId := by
  rw [indexRows, indexRows]
  dsimp only
  cases hnode : tables.nodes.get? nodeId with
  | none => rfl
  | some node =>
    rw [Option.bind_some, Option.bind_some]
    rcases hkeyw with hstub | hkeyw
    · rw [ftsRow_stub (hstub node hnode), ftsRow_stub (hstub node hnode)]
    · exact congrArg Option.toList (ftsRow_congr hkeyw rfl rfl rfl rfl)

theorem indexRows_replaceRow {owner : JsStr} {owners : List JsStr}
    (hfree : KeywordFree tables keyword owners) (hne : nodeId ≠ owner) (hnot : nodeId ∉ owners) :
    indexRows { tables with glossary := replaceRow tables.glossary keyword owner } nodeId =
      indexRows tables nodeId := by
  refine indexRows_glossary ?_
  by_cases hheld : tables.glossary.get? keyword = some nodeId
  · rcases (hfree nodeId hheld).resolve_left hnot with hblank | hstub
    · exact .inr (keywordsOf_replaceRow hne fun _ => hblank)
    · exact .inl hstub
  · exact .inr (keywordsOf_replaceRow hne fun hheld' => absurd hheld' hheld)

theorem sound_addGlossaryEntry (hsound : Sound tables)
    (hfree : KeywordFree tables keyword [nodeId]) : Sound (addGlossaryEntry tables keyword nodeId) := by
  refine hsound.reindexWith (fun other hne => ?_) (fun habs => habs) rfl rfl rfl rfl
  exact indexRows_replaceRow hfree hne fun hmem => hne (mem_singleton.mp hmem)

theorem sound_removeGlossaryEntry (hsound : Sound tables) : Sound (removeGlossaryEntry tables keyword) := by
  rw [removeGlossaryEntry]
  cases hheld : tables.glossary.get? keyword with
  | none =>
    refine ⟨fun other => ?_, { hsound.raw with }⟩
    have hrows : indexRows { tables with glossary := tables.glossary.delete keyword } other =
        indexRows tables other := indexRows_glossary (.inr (keywordsOf_delete_free hheld))
    exact (hsound.nodes other).trans hrows.symm
  | some holder =>
    refine hsound.reindexWith (fun other hne => ?_) (fun habs => habs) rfl rfl rfl rfl
    refine indexRows_glossary (.inr (keywordsOf_delete fun hother => ?_))
    exact absurd (Option.some.inj (hheld.symm.trans hother)).symm hne

/-! ### The raw log -/

theorem rawFtsRow_rawId {rawId : Nat} {text : JsStr} {row : RawFtsRow}
    (hrow : rawFtsRow rawId text = some row) : row.rawId = rawId := by
  simp only [rawFtsRow] at hrow
  split_ifs at hrow
  exact Option.some.inj hrow ▸ rfl

theorem filter_reindexRawFts (tables : Tables) (rawId other : Nat) (text : JsStr) :
    (reindexRawFts tables rawId text).rawFts.filter (fun entry => entry.rawId = other) =
      if other = rawId then (rawFtsRow rawId text).toList
      else tables.rawFts.filter fun entry => entry.rawId = other := by
  rw [reindexRawFts, filter_append, filter_filter]
  have hnew : ∀ row ∈ (rawFtsRow rawId text).toList, row.rawId = rawId := by
    intro row hrow
    exact rawFtsRow_rawId (Option.mem_toList.mp hrow)
  by_cases hother : other = rawId
  · rw [if_pos hother, filter_eq_nil_iff.mpr (by simp [hother]), nil_append,
      filter_eq_self.mpr fun row hrow => by simp [hnew row hrow, hother]]
  · have hnone : (rawFtsRow rawId text).toList.filter (fun entry => entry.rawId = other) = [] :=
      filter_eq_nil_iff.mpr fun row hrow => by simp [hnew row hrow, Ne.symm hother]
    rw [if_neg hother, hnone, append_nil]
    refine filter_congr fun row _ => ?_
    by_cases hrow : row.rawId = other
    · simp [hrow, hother]
    · simp [hrow]

theorem rawIndexed_upsertRaw {entry : RawEntry} (hraw : RawIndexed tables) : RawIndexed (upsertRaw tables entry) := by
  rw [upsertRaw]
  split
  · rename_i existing hfound
    have hids : ∀ row : RawRow, (if row.rawId = existing.rawId then
        { row with role := entry.role, text := entry.text, active := true, wallTs := entry.wallTs,
                   worldTs := existing.worldTs } else row).rawId = row.rawId := by
      intro row
      split_ifs <;> rfl
    refine ⟨?_, ?_, ?_⟩
    · dsimp only [reindexRawFts]
      rw [map_map]
      exact (map_congr_left fun row _ => hids row) ▸ hraw.nodup
    · intro row hrow
      obtain ⟨old, hold, rfl⟩ := mem_map.mp hrow
      rw [hids old]
      exact hraw.below old hold
    · intro row hrow
      obtain ⟨old, hold, rfl⟩ := mem_map.mp hrow
      rw [filter_reindexRawFts, hids old]
      by_cases hid : old.rawId = existing.rawId
      · rw [if_pos hid, if_pos hid, hid]
      · rw [if_neg hid, if_neg hid]
        exact hraw.rows old hold
  · refine ⟨?_, ?_, ?_⟩
    · dsimp only [reindexRawFts]
      rw [map_append, map_singleton]
      refine nodup_append'.mpr ⟨hraw.nodup, nodup_singleton _, ?_⟩
      refine disjoint_singleton.mpr fun hmem => ?_
      obtain ⟨row, hrow, hid⟩ := mem_map.mp hmem
      exact absurd hid (Nat.ne_of_lt (hraw.below row hrow))
    · intro row hrow
      rcases mem_append.mp hrow with hrow | hrow
      · exact Nat.lt_succ_of_lt (hraw.below row hrow)
      · rw [mem_singleton.mp hrow]
        exact Nat.lt_succ_self _
    · intro row hrow
      rw [filter_reindexRawFts]
      rcases mem_append.mp hrow with hrow | hrow
      · rw [if_neg (Nat.ne_of_lt (hraw.below row hrow))]
        exact hraw.rows row hrow
      · rw [mem_singleton.mp hrow, if_pos rfl]

theorem sound_upsertRaw {entry : RawEntry} (hsound : Sound tables) : Sound (upsertRaw tables entry) := by
  refine ⟨fun nodeId => ?_, rawIndexed_upsertRaw hsound.raw⟩
  have hrow := hsound.nodes nodeId
  rw [upsertRaw]
  split
  · exact hrow
  · exact hrow

theorem sound_appendRaw (entries : List RawEntry) (hsound : Sound tables) : Sound (appendRaw tables entries) := by
  induction entries generalizing tables with
  | nil => exact hsound
  | cons entry rest ih => exact ih (sound_upsertRaw hsound)

theorem sound_syncRawBranch {entries : List RawEntry} (hsound : Sound tables) :
    Sound (syncRawBranch tables sessionId entries) := by
  have happ := sound_appendRaw (entries.map fun entry => { entry with sessionId }) hsound
  have hkeep : ∀ row : RawRow, (if row.sessionId = sessionId ∧ row.entryId ∉ entries.map RawEntry.entryId
      then { row with active := false } else row).rawId = row.rawId ∧
      (if row.sessionId = sessionId ∧ row.entryId ∉ entries.map RawEntry.entryId
        then { row with active := false } else row).text = row.text := by
    intro row
    split_ifs <;> exact ⟨rfl, rfl⟩
  refine ⟨happ.nodes, ⟨?_, ?_, ?_⟩⟩
  · dsimp only [syncRawBranch]
    rw [map_map]
    exact (map_congr_left fun row _ => (hkeep row).1) ▸ happ.raw.nodup
  · intro row hrow
    obtain ⟨old, hold, rfl⟩ := mem_map.mp hrow
    rw [(hkeep old).1]
    exact happ.raw.below old hold
  · intro row hrow
    obtain ⟨old, hold, rfl⟩ := mem_map.mp hrow
    rw [(hkeep old).1, (hkeep old).2]
    exact happ.raw.rows old hold

/-! ### Import -/

/-- The nodes of a snapshot, as they are inserted one after the other, take no uri and no id from a node
that has a row in the index, unless they get a turn themselves. -/
def NodesClear (glossary : JsMap JsStr JsStr) : NodeTable → List (JsStr × NodeRow) → Prop
  | _, [] => True
  | table, node :: rest =>
    (∀ held, table.byUri node.2.uri = some held → held.1 = node.1 ∨ ftsRow glossary held.1 held.2 = none) ∧
      (∀ row, table.get? node.1 = some row → node.2.isStub = true → ftsRow glossary node.1 row = none) ∧
        NodesClear glossary (table.replace node.1 node.2) rest

instance decidableNodesClear (glossary : JsMap JsStr JsStr) :
    ∀ (table : NodeTable) (nodes : List (JsStr × NodeRow)), Decidable (NodesClear glossary table nodes)
  | _, [] => .isTrue trivial
  | table, node :: rest =>
    have := decidableNodesClear glossary (table.replace node.1 node.2) rest
    inferInstanceAs (Decidable (_ ∧ _ ∧ _))

/-- The nodes of a snapshot after their insertion. -/
def importedNodes (table : NodeTable) (nodes : List (JsStr × NodeRow)) : NodeTable :=
  nodes.foldl (fun table node => table.replace node.1 node.2) table

/-- A snapshot takes nothing from the rows of other nodes. -/
def SnapshotClear (tables : Tables) (snapshot : ExportSnapshot) : Prop :=
  NodesClear tables.glossary tables.nodes snapshot.nodes ∧
    ∀ entry ∈ snapshot.glossary, KeywordFree
      { tables with nodes := importedNodes tables.nodes snapshot.nodes } entry.1
        (snapshot.glossary.map Prod.snd)

instance (tables : Tables) (snapshot : ExportSnapshot) : Decidable (SnapshotClear tables snapshot) :=
  inferInstanceAs (Decidable (_ ∧ _))

theorem importNode_eq (tables : Tables) (node : JsStr × NodeRow) : ∃ nodeFts,
    importNode tables node = { tables with nodes := tables.nodes.replace node.1 node.2, nodeFts } := by
  rw [importNode]
  split_ifs
  · exact ⟨tables.nodeFts, rfl⟩
  · obtain ⟨nodeFts, heq⟩ := reindexNode_eq { tables with nodes := tables.nodes.replace node.1 node.2 } node.1
    exact ⟨nodeFts, heq⟩

theorem indexRows_replace {node : JsStr × NodeRow} {other : JsStr} (hne : other ≠ node.1)
    (hheld : ∀ held, tables.nodes.byUri node.2.uri = some held →
      held.1 = node.1 ∨ ftsRow tables.glossary held.1 held.2 = none) :
    indexRows { tables with nodes := tables.nodes.replace node.1 node.2 } other =
      indexRows tables other := by
  rw [indexRows, indexRows]
  dsimp only
  rw [get?_replace, if_neg hne]
  cases hrow : tables.nodes.get? other with
  | none => rfl
  | some row =>
    by_cases huri : row.uri = node.2.uri
    · have hnone := (hheld (other, row) (NodeTable.byUri_eq_some.mpr ⟨hrow, huri⟩)).resolve_left hne
      rw [Option.filter_some_neg (by simp [huri]), Option.bind_none, Option.bind_some, hnone]
    · rw [Option.filter_some_pos (by simp [huri])]

theorem sound_importNode {node : JsStr × NodeRow} (hsound : Sound tables)
    (hheld : ∀ held, tables.nodes.byUri node.2.uri = some held →
      held.1 = node.1 ∨ ftsRow tables.glossary held.1 held.2 = none)
    (hstub : ∀ row, tables.nodes.get? node.1 = some row → node.2.isStub = true →
      ftsRow tables.glossary node.1 row = none) : Sound (importNode tables node) := by
  rw [importNode]
  split_ifs with hnew
  · refine ⟨fun other => ?_, { hsound.raw with }⟩
    have hrow := hsound.nodes other
    by_cases hid : other = node.1
    · subst hid
      have hold : indexRows tables node.1 = [] := by
        rw [indexRows]
        cases hpres : tables.nodes.get? node.1 with
        | none => rfl
        | some row => rw [Option.bind_some, hstub row hpres hnew, Option.toList_none]
      rw [Indexed, hold] at hrow
      rw [Indexed, indexRows]
      dsimp only
      rw [hrow, get?_replace, if_pos rfl, Option.bind_some, ftsRow_stub hnew, Option.toList_none]
    · exact hrow.trans (indexRows_replace hid hheld).symm
  · refine hsound.reindexWith (fun other hne => indexRows_replace hne hheld) (fun habs => ?_) rfl rfl rfl
      rfl
    dsimp only at habs
    rw [get?_replace, if_pos rfl] at habs
    exact nomatch habs

theorem sound_importNodes {nodes : List (JsStr × NodeRow)} (hsound : Sound tables)
    (hclear : NodesClear tables.glossary tables.nodes nodes) : Sound (nodes.foldl importNode tables) ∧
      (nodes.foldl importNode tables).glossary = tables.glossary ∧
        (nodes.foldl importNode tables).nodes = importedNodes tables.nodes nodes := by
  induction nodes generalizing tables with
  | nil => exact ⟨hsound, rfl, rfl⟩
  | cons node rest ih =>
    obtain ⟨hheld, hstub, hrest⟩ := hclear
    have hfirst := sound_importNode hsound hheld hstub
    obtain ⟨nodeFts, heq⟩ := importNode_eq tables node
    rw [foldl_cons, importedNodes, foldl_cons]
    rw [heq] at hfirst ⊢
    exact ih hfirst hrest

/-- Revisions, values, aliases and edges are not part of the index. -/
def SameIndexed (before after : Tables) : Prop :=
  after.nodes = before.nodes ∧ after.glossary = before.glossary ∧ after.nodeFts = before.nodeFts ∧
    after.rawLog = before.rawLog ∧ after.rawFts = before.rawFts ∧ after.nextRawId = before.nextRawId

omit [Tokenizer] in
theorem SameIndexed.trans {middle : Tables} (hfirst : SameIndexed tables middle)
    (hnext : SameIndexed middle result) : SameIndexed tables result := by
  obtain ⟨h1, h2, h3, h4, h5, h6⟩ := hfirst
  obtain ⟨g1, g2, g3, g4, g5, g6⟩ := hnext
  exact ⟨g1.trans h1, g2.trans h2, g3.trans h3, g4.trans h4, g5.trans h5, g6.trans h6⟩

theorem Sound.same (hsound : Sound tables) (hsame : SameIndexed tables result) : Sound result := by
  obtain ⟨hnodes, hglos, hfts, hlog, hraw, hnext⟩ := hsame
  refine ⟨fun nodeId => ?_, ⟨hlog ▸ hsound.raw.nodup, hlog.symm ▸ hnext.symm ▸ hsound.raw.below,
    hlog.symm ▸ hraw.symm ▸ hsound.raw.rows⟩⟩
  rw [Indexed, indexRows, hnodes, hglos, hfts]
  exact hsound.nodes nodeId

omit [Tokenizer] in
theorem same_foldl {α : Type} (change : Tables → α → Tables) (items : List α)
    (hchg : ∀ tables item, SameIndexed tables (change tables item)) :
    SameIndexed tables (items.foldl change tables) := by
  induction items generalizing tables with
  | nil => exact ⟨rfl, rfl, rfl, rfl, rfl, rfl⟩
  | cons item rest ih => exact (hchg tables item).trans ih

omit [Tokenizer] in
theorem same_importAliases {entries : List (JsStr × JsStr × Option (Option JsStr))}
    (himp : importAliases entries tables = .ok result) : SameIndexed tables result := by
  induction entries generalizing tables with
  | nil => exact Except.ok.inj himp ▸ ⟨rfl, rfl, rfl, rfl, rfl, rfl⟩
  | cons entry rest ih =>
    obtain ⟨aliasUri, targetNodeId, disclosure⟩ := entry
    rw [importAliases] at himp
    split at himp
    · exact nomatch himp
    · refine SameIndexed.trans ?_ (ih himp)
      exact ⟨rfl, rfl, rfl, rfl, rfl, rfl⟩

omit [Tokenizer] in
theorem same_importEdges {entries : List ((JsStr × JsStr) × Option JsStr × Option (Option JsStr))}
    (himp : importEdges entries tables = .ok result) : SameIndexed tables result := by
  induction entries generalizing tables with
  | nil => exact Except.ok.inj himp ▸ ⟨rfl, rfl, rfl, rfl, rfl, rfl⟩
  | cons entry rest ih =>
    obtain ⟨key, kind, disclosure⟩ := entry
    rw [importEdges] at himp
    split at himp
    · exact nomatch himp
    · exact nomatch himp
    · refine SameIndexed.trans ?_ (ih himp)
      exact ⟨rfl, rfl, rfl, rfl, rfl, rfl⟩

theorem importGlossary_indexed {entries : List (JsStr × JsStr)} {owners : List JsStr}
    (hents : ∀ entry ∈ entries, entry.2 ∈ owners) (hfree : ∀ entry ∈ entries, KeywordFree tables entry.1 owners)
    (hind : ∀ nodeId, nodeId ∉ owners → Indexed tables nodeId) (hraw : RawIndexed tables)
    (himp : importGlossary entries tables = .ok result) :
    (∀ nodeId, nodeId ∉ owners → Indexed result nodeId) ∧ RawIndexed result ∧
      ∀ entry ∈ entries, (result.nodes.get? entry.2).isSome = true := by
  have hnodes : ∀ {entries : List (JsStr × JsStr)} {tables result : Tables},
      importGlossary entries tables = .ok result → result.nodes = tables.nodes := by
    intro entries
    induction entries with
    | nil => exact fun himp => Except.ok.inj himp ▸ rfl
    | cons entry rest ih =>
      intro tables result himp
      rw [importGlossary] at himp
      split at himp
      · exact nomatch himp
      · have hrest := ih himp
        exact hrest
  induction entries generalizing tables with
  | nil => exact Except.ok.inj himp ▸ ⟨hind, hraw, nofun⟩
  | cons entry rest ih =>
    have hall := hnodes himp
    obtain ⟨hentry, hents⟩ := forall_mem_cons.mp hents
    obtain ⟨hfirst, hfree⟩ := forall_mem_cons.mp hfree
    rw [importGlossary] at himp
    split at himp
    · exact nomatch himp
    · rename_i node hnode
      have hnex : ∀ other ∈ rest, KeywordFree
          { tables with glossary := replaceRow tables.glossary entry.1 entry.2 } other.1 owners := by
        -- A keyword is held as before, or by one of the new owners.
        intro other hother holder hheld
        dsimp only [replaceRow] at hheld
        rw [JsMap.get?_set] at hheld
        split_ifs at hheld with hsame
        · exact .inl (Option.some.inj hheld ▸ hentry)
        · rw [JsMap.get?_delete, if_neg hsame] at hheld
          exact hfree other hother holder hheld
      have hnextin : ∀ nodeId, nodeId ∉ owners → Indexed
          { tables with glossary := replaceRow tables.glossary entry.1 entry.2 } nodeId := by
        intro nodeId hnot
        have hne : nodeId ≠ entry.2 := fun heq => hnot (heq ▸ hentry)
        exact (hind nodeId hnot).trans (indexRows_replaceRow hfirst hne hnot).symm
      obtain ⟨hoth, hres, hrest⟩ :=
        ih hents hnex hnextin { hraw with } himp
      refine ⟨hoth, hres, forall_mem_cons.mpr ⟨?_, hrest⟩⟩
      rw [hall, hnode]
      rfl

theorem foldl_reindexNode_indexed {ids : List JsStr} (hind : ∀ nodeId, nodeId ∉ ids → Indexed tables nodeId)
    (hpres : ∀ nodeId ∈ ids, (tables.nodes.get? nodeId).isSome = true) (nodeId : JsStr) :
    Indexed (ids.foldl reindexNode tables) nodeId := by
  induction ids generalizing tables with
  | nil => exact hind nodeId not_mem_nil
  | cons id rest ih =>
    obtain ⟨hid, hrest⟩ := forall_mem_cons.mp hpres
    refine ih (fun other hnot => Indexed.reindexNode other (fun hne => ?_) fun habs => ?_) ?_
    · exact hind other fun hmem => (mem_cons.mp hmem).elim hne hnot
    · rw [habs] at hid
      exact nomatch hid
    · intro other hother
      rw [nodes_reindexNode]
      exact hrest other hother

theorem rawIndexed_foldl (ids : List JsStr) (hraw : RawIndexed tables) :
    RawIndexed (ids.foldl reindexNode tables) := by
  induction ids generalizing tables with
  | nil => exact hraw
  | cons id rest ih =>
    refine ih ?_
    obtain ⟨nodeFts, heq⟩ := reindexNode_eq tables id
    rw [heq]
    exact { hraw with }

theorem sound_importSnapshot {snapshot : ExportSnapshot} (hsound : Sound tables)
    (hclear : SnapshotClear tables snapshot) (himp : importSnapshot tables snapshot = .ok result) : Sound result := by
  obtain ⟨aliased, halias, himp⟩ := bind_eq_ok.mp himp
  obtain ⟨edged, hedges, himp⟩ := bind_eq_ok.mp himp
  obtain ⟨worded, hglos, hres⟩ := bind_eq_ok.mp himp
  obtain rfl := Except.ok.inj hres
  obtain ⟨himpor, hkeyw, hnodes⟩ := sound_importNodes hsound hclear.1
  have hsame : SameIndexed (snapshot.nodes.foldl importNode tables) edged := by
    refine (same_foldl importRevision snapshot.revisions fun _ _ => ⟨rfl, rfl, rfl, rfl, rfl, rfl⟩).trans ?_
    refine (same_foldl importKv snapshot.kv fun state entry => ?_).trans
      ((same_importAliases halias).trans (same_importEdges hedges))
    rw [importKv]
    split_ifs <;> exact ⟨rfl, rfl, rfl, rfl, rfl, rfl⟩
  have hedged := himpor.same hsame
  have hfree : ∀ entry ∈ snapshot.glossary,
      KeywordFree edged entry.1 (snapshot.glossary.map Prod.snd) := by
    intro entry hentry holder hheld
    rw [hsame.2.1, hkeyw] at hheld
    rw [hsame.1, hnodes]
    exact hclear.2 entry hentry holder hheld
  obtain ⟨hoth, hraw, hpres⟩ := importGlossary_indexed
    (fun entry hentry => mem_map_of_mem hentry) hfree (fun nodeId _ => hedged.nodes nodeId)
    hedged.raw hglos
  refine ⟨foldl_reindexNode_indexed (fun nodeId hnot => ?_) fun nodeId hmem => ?_, rawIndexed_foldl _ hraw⟩
  · exact hoth nodeId fun hmem => hnot (mem_dedup.mpr hmem)
  · obtain ⟨entry, hentry, rfl⟩ := mem_map.mp (mem_dedup.mp hmem)
    exact hpres entry hentry

/-! ### Runs -/

omit [Tokenizer] in
theorem perm_of_rowsOf {left right : List FtsRow} (heq : ∀ nodeId, rowsOf left nodeId = rowsOf right nodeId) :
    left.Perm right := by
  rw [perm_iff_count]
  intro row
  have hcount : ∀ index : List FtsRow, index.count row = (rowsOf index row.nodeId).count row := by
    intro index
    rw [rowsOf, count_filter (by simp)]
  rw [hcount left, hcount right, heq]

theorem indexed_reindexAll (tables : Tables) (nodeId : JsStr) :
    rowsOf (reindexAll { tables with nodeFts := [] }).nodeFts nodeId = indexRows tables nodeId := by
  have hind : Indexed (reindexAll { tables with nodeFts := [] }) nodeId := by
    refine foldl_reindexNode_indexed (fun other hnot => ?_) (fun other hmem => ?_) nodeId
    · -- A node without a turn is absent or a stub.
      rw [Indexed, indexRows]
      dsimp only
      cases hnode : tables.nodes.get? other with
      | none => rfl
      | some node =>
        have hstub : node.isStub = true := by
          by_contra hreal
          refine hnot (mem_map.mpr ⟨(other, node), mem_filter.mpr ⟨?_, by simpa using hreal⟩, rfl⟩)
          exact JsMap.get?_eq_some.mp hnode
        rw [Option.bind_some, ftsRow_stub hstub]
        rfl
    · obtain ⟨entry, hentry, rfl⟩ := mem_map.mp hmem
      have hget : tables.nodes.get? entry.1 = some entry.2 :=
        JsMap.get?_eq_some.mpr (mem_filter.mp hentry).1
      dsimp only
      rw [hget]
      rfl
  have hrows : ∀ (ids : List JsStr) (state : Tables),
      indexRows (ids.foldl reindexNode state) nodeId = indexRows state nodeId := by
    intro ids
    induction ids with
    | nil => exact fun state => rfl
    | cons id rest ih => exact fun state => (ih _).trans (indexRows_reindexNode nodeId)
  exact hind.trans (hrows _ _)

/-- The indexes are those of the tables. -/
structure IndexMatches (tables : Tables) : Prop where
  rebuilt : tables.nodeFts.Perm (reindexAll { tables with nodeFts := [] }).nodeFts
  rows : ∀ nodeId, rowsOf tables.nodeFts nodeId = indexRows tables nodeId
  raw : ∀ row ∈ tables.rawLog, row.active = true →
    tables.rawFts.filter (fun entry => entry.rawId = row.rawId) = (rawFtsRow row.rawId row.text).toList

theorem Sound.matches (hsound : Sound tables) : IndexMatches tables := by
  refine ⟨perm_of_rowsOf fun nodeId => ?_, hsound.nodes, fun row hrow _ => hsound.raw.rows row hrow⟩
  exact (hsound.nodes nodeId).trans (indexed_reindexAll tables nodeId).symm

/-- The condition of a call on the tables it starts from. -/
def Operation.Clear (tables : Tables) : Operation → Prop
  | .addGlossaryEntry keyword nodeId => KeywordFree tables keyword [nodeId]
  | .importSnapshot snapshot => SnapshotClear tables snapshot
  | _ => True

instance (tables : Tables) (operation : Operation) : Decidable (operation.Clear tables) :=
  match operation with
  | .addGlossaryEntry keyword nodeId => inferInstanceAs (Decidable (KeywordFree tables keyword [nodeId]))
  | .importSnapshot snapshot => inferInstanceAs (Decidable (SnapshotClear tables snapshot))
  | .put _ | .insertNode _ | .updateNode _ _ _ | .addAlias _ _ _ | .relocateMany _ | .rename _ _
  | .consolidateGroup _ _ | .deleteCascade _ | .restoreDeleted _ _ | .restoreRevision _ _ _
  | .removeGlossaryEntry _ | .reconcileNodeProjections _ _ | .appendRaw _ | .syncRawBranch _ _ =>
    .isTrue trivial

variable [JsonText.NumberText]

def ClearRun : Tables → List (Surroundings × Operation) → Prop
  | _, [] => True
  | tables, call :: rest => call.2.Clear tables ∧ ClearRun (perform tables call) rest

instance decidableClearRun : ∀ (tables : Tables) (calls : List (Surroundings × Operation)),
    Decidable (ClearRun tables calls)
  | _, [] => .isTrue trivial
  | tables, call :: rest =>
    have := decidableClearRun (perform tables call) rest
    inferInstanceAs (Decidable (call.2.Clear tables ∧ ClearRun (perform tables call) rest))

theorem sound_run {operation : Operation} (hsound : Sound tables) (hclear : operation.Clear tables)
    (hrun : operation.run tables around = .ok result) : Sound result := by
  cases operation with
  | put input => exact sound_put hsound hrun
  | insertNode input => exact sound_insertNodeAs hsound hrun
  | updateNode nodeId patch provenance => exact sound_updateNode hsound hrun
  | addAlias aliasUri targetNodeId disclosure =>
    obtain rfl := Except.ok.inj hrun
    exact hsound.same ⟨rfl, rfl, rfl, rfl, rfl, rfl⟩
  | relocateMany moves => exact sound_relocateMany hsound hrun
  | rename oldUri newUri => exact sound_relocateMany hsound hrun
  | consolidateGroup theme moves =>
    obtain ⟨placed, hput, hrel⟩ := bind_eq_ok.mp hrun
    exact sound_relocateMany (sound_put hsound hput) hrel
  | deleteCascade nodeId => exact sound_deleteCascadeFrom hsound hrun
  | restoreDeleted uri version => exact sound_restoreDeleted hsound hrun
  | restoreRevision nodeId version provenance =>
    have hrun : restoreRevision tables around nodeId version provenance = .ok result := hrun
    rw [restoreRevision] at hrun
    split at hrun
    · exact nomatch hrun
    · exact sound_updateNode hsound hrun
  | addGlossaryEntry keyword nodeId =>
    obtain rfl := Except.ok.inj hrun
    exact sound_addGlossaryEntry hsound hclear
  | removeGlossaryEntry keyword =>
    obtain rfl := Except.ok.inj hrun
    exact sound_removeGlossaryEntry hsound
  | reconcileNodeProjections sessionId active =>
    obtain rfl := Except.ok.inj hrun
    exact sound_reconcile _ hsound
  | appendRaw entries =>
    obtain rfl := Except.ok.inj hrun
    exact sound_appendRaw entries hsound
  | syncRawBranch sessionId entries =>
    obtain rfl := Except.ok.inj hrun
    exact sound_syncRawBranch hsound
  | importSnapshot snapshot => exact sound_importSnapshot hsound hclear hrun

theorem sound_performAll {calls : List (Surroundings × Operation)} (hsound : Sound tables)
    (hclear : ClearRun tables calls) : Sound (performAll tables calls) := by
  induction calls generalizing tables with
  | nil => exact hsound
  | cons call rest ih =>
    rw [performAll, foldl_cons]
    refine ih ?_ hclear.2
    cases hrun : call.2.run tables call.1 with
    | error error =>
      rw [perform, hrun]
      exact hsound
    | ok after =>
      rw [perform, hrun]
      exact sound_run hsound hclear.1 hrun

omit [JsonText.NumberText] in
theorem sound_seed (hseed : seed Tables.empty around = .ok result) : Sound result := by
  have hnode : ∀ {tables result : Tables} {uri content : JsStr}, Sound tables →
      seedNode around tables uri content = .ok result → Sound result := by
    intro tables result uri content hsound hseed
    rw [seedNode] at hseed
    split at hseed
    · exact Except.ok.inj hseed ▸ hsound
    · exact sound_insertNodeAs hsound hseed
  obtain ⟨first, hfirst, hseed⟩ := bind_eq_ok.mp hseed
  obtain ⟨second, hsnd, hthird⟩ := bind_eq_ok.mp hseed
  have hempty : Sound (setKv Tables.empty schemaVersionKey (js "4")) :=
    ⟨fun nodeId => rfl, ⟨nodup_nil, fun _ hrow => absurd hrow not_mem_nil,
      fun _ hrow => absurd hrow not_mem_nil⟩⟩
  exact hnode (hnode (hnode hempty hfirst) hsnd) hthird

/-- Along every run from a seeded store in which no keyword, uri or id is taken from a node that is
indexed under it, the indexes are those of the tables. -/
theorem memory_index_matches {start : Tables} {calls : List (Surroundings × Operation)}
    (hseed : seed Tables.empty around = .ok start) (hclear : ClearRun start calls) :
    IndexMatches (performAll start calls) :=
  (sound_performAll (sound_seed hseed) hclear).matches

end Index

section Sample

local instance indexTokenizer : Tokenizer := plainTokenizer

local instance indexNumbers : JsonText.NumberText := JsonText.decimalNumbers

/-- A keyword goes from one node to another. -/
def keywordCalls : List Operation :=
  [samplePut "history://a" "one", samplePut "history://b" "two",
    .addGlossaryEntry (js "k") (js "history://a"), .addGlossaryEntry (js "k") (js "history://b")]

/-- The row of the first owner still has the keyword. -/
theorem memory_index_stale : seed Tables.empty sampleAround = .ok sampleStart ∧
    ¬ IndexMatches (sampleRun keywordCalls) := by
  refine ⟨by decide +kernel, fun hmat => ?_⟩
  exact absurd (hmat.rows (js "history://a")) (by decide +kernel)

/-- The exported node of a sample store. -/
def sampleSnapshot : ExportSnapshot where
  nodes := (sampleRun [samplePut "history://c/d" "three"]).nodes.rows.entries
  revisions := []
  kv := []
  aliases := [(js "history://e", js "history://c/d", none)]
  edges := []
  glossary := [(js "j", js "history://c/d"), (js "k", js "history://c/d")]

def clearCalls : List Operation :=
  [samplePut "history://a/b" "one", .addGlossaryEntry (js "k") (js "history://a/b"),
    .removeGlossaryEntry (js "k"), .importSnapshot sampleSnapshot,
    .relocateMany [⟨js "history://c", js "history://f", none⟩],
    .appendRaw [⟨js "user", js "hi", js "x", js "s", js "t", none⟩], .deleteCascade (js "history://a")]

theorem memory_index_matches_sample : IndexMatches (sampleRun clearCalls) ∧
    rowsOf (sampleRun clearCalls).nodeFts (js "history://c/d") =
      [⟨js "history://c/d", js "history://f/d three j k", []⟩] := by
  have hseed : seed Tables.empty sampleAround = .ok sampleStart := by decide +kernel
  exact ⟨memory_index_matches hseed (by decide +kernel), by decide +kernel⟩

end Sample

end PiRp.Memory

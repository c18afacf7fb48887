import PiRp.MemoryAssociations
import PiRp.MemoryIndex
import PiRp.MemoryProjection

/-! Export and import of the memory store. An import into a new database gives back what was exported
exactly when every reference of the exported tables leads somewhere; the writing methods do not see to
that, the import checks it. -/

namespace PiRp.Memory

open List Sql JsMap JsonText

/-! ### Export -/

def exportSnapshot (tables : Tables) : ExportSnapshot where
  nodes := orderByText (fun node => node.2.createdAt) tables.nodes.rows.entries
  revisions := orderByText RevisionRow.nodeId (orderBy RevisionRow.version .asc tables.revisions)
  kv := tables.kv.entries
  aliases := (orderByText Prod.fst tables.aliases.entries).map fun entry =>
    (entry.1, entry.2.targetNodeId, some entry.2.disclosure)
  edges := (orderByText (fun entry => entry.1.1)
      (orderByText (fun entry => entry.1.2) tables.edges.entries)).map fun entry =>
    (entry.1, entry.2.kind, some entry.2.disclosure)
  glossary := orderByText Prod.fst tables.glossary.entries

/-- The same rows in any order; the schema version is the database's own. -/
structure SameExport (left right : ExportSnapshot) : Prop where
  nodes : ∀ node, node ∈ left.nodes ↔ node ∈ right.nodes
  revisions : ∀ row, row ∈ left.revisions ↔ row ∈ right.revisions
  kv : ∀ entry, entry.1 ≠ schemaVersionKey → (entry ∈ left.kv ↔ entry ∈ right.kv)
  aliases : ∀ entry, entry ∈ left.aliases ↔ entry ∈ right.aliases
  edges : ∀ entry, entry ∈ left.edges ↔ entry ∈ right.edges
  glossary : ∀ entry, entry ∈ left.glossary ↔ entry ∈ right.glossary

section Export

variable {tables : Tables}

theorem mem_exportSnapshot_nodes {node : JsStr × NodeRow} :
    node ∈ (exportSnapshot tables).nodes ↔ tables.nodes.get? node.1 = some node.2 := by
  rw [NodeTable.get?, get?_eq_some]
  exact (orderByText_perm _ _).mem_iff

theorem mem_exportSnapshot_revisions {row : RevisionRow} :
    row ∈ (exportSnapshot tables).revisions ↔ row ∈ tables.revisions :=
  (orderByText_perm _ _).mem_iff.trans (perm_insertionSort _ _).mem_iff

theorem mem_exportSnapshot_kv {entry : JsStr × JsStr} :
    entry ∈ (exportSnapshot tables).kv ↔ tables.kv.get? entry.1 = some entry.2 :=
  JsMap.get?_eq_some.symm

theorem mem_exportSnapshot_aliases {entry : JsStr × JsStr × Option (Option JsStr)} :
    entry ∈ (exportSnapshot tables).aliases ↔ ∃ row, tables.aliases.get? entry.1 = some row ∧
      entry.2 = (row.targetNodeId, some row.disclosure) := by
  unfold exportSnapshot
  dsimp only
  rw [mem_map]
  constructor
  · rintro ⟨⟨uri, row⟩, hmem, rfl⟩
    exact ⟨row, JsMap.get?_eq_some.mpr ((orderByText_perm _ _).mem_iff.mp hmem), rfl⟩
  · rintro ⟨row, hrow, heq⟩
    refine ⟨(entry.1, row), (orderByText_perm _ _).mem_iff.mpr (JsMap.get?_eq_some.mp hrow), ?_⟩
    rw [← heq]

theorem mem_exportSnapshot_edges {entry : (JsStr × JsStr) × Option JsStr × Option (Option JsStr)} :
    entry ∈ (exportSnapshot tables).edges ↔ ∃ row, tables.edges.get? entry.1 = some row ∧
      entry.2 = (row.kind, some row.disclosure) := by
  unfold exportSnapshot
  dsimp only
  rw [mem_map]
  constructor
  · rintro ⟨⟨key, row⟩, hmem, rfl⟩
    have hmem := (orderByText_perm _ _).mem_iff.mp ((orderByText_perm _ _).mem_iff.mp hmem)
    exact ⟨row, JsMap.get?_eq_some.mpr hmem, rfl⟩
  · rintro ⟨row, hrow, heq⟩
    refine ⟨(entry.1, row), (orderByText_perm _ _).mem_iff.mpr
      ((orderByText_perm _ _).mem_iff.mpr (JsMap.get?_eq_some.mp hrow)), ?_⟩
    rw [← heq]

theorem mem_exportSnapshot_glossary {entry : JsStr × JsStr} :
    entry ∈ (exportSnapshot tables).glossary ↔ tables.glossary.get? entry.1 = some entry.2 :=
  (orderByText_perm _ _).mem_iff.trans JsMap.get?_eq_some.symm

end Export

/-! ### What an import writes -/

section Writes

variable {κ β ι : Type} [DecidableEq κ]

theorem get?_foldl_write {write : JsMap κ β → ι → JsMap κ β} {key : ι → κ} {value : ι → β} {items : List ι}
    (hwrite : ∀ item ∈ items, ∀ map other,
      (write map item).get? other = if other = key item then some (value item) else map.get? other)
    (hnodup : (items.map key).Nodup) (map : JsMap κ β) (other : κ) (found : β) :
    (items.foldl write map).get? other = some found ↔ (∃ item ∈ items, key item = other ∧ value item = found) ∨
        other ∉ items.map key ∧ map.get? other = some found := by
  induction items generalizing map with
  | nil => simp
  | cons item rest ih =>
    obtain ⟨hfirst, hwrite⟩ := forall_mem_cons.mp hwrite
    rw [map_cons, nodup_cons] at hnodup
    rw [foldl_cons, ih hwrite hnodup.2, hfirst, map_cons]
    by_cases hother : other = key item
    · subst hother
      rw [if_pos rfl]
      constructor
      · rintro (⟨present, hpres, hkey, hvalue⟩ | ⟨_, hvalue⟩)
        · exact .inl ⟨present, mem_cons_of_mem _ hpres, hkey, hvalue⟩
        · exact .inl ⟨item, mem_cons_self, rfl, Option.some.inj hvalue⟩
      · rintro (⟨present, hpres, hkey, hvalue⟩ | ⟨hnot, _⟩)
        · rcases mem_cons.mp hpres with rfl | hpres
          · exact .inr ⟨hnodup.1, congrArg some hvalue⟩
          · exact .inl ⟨present, hpres, hkey, hvalue⟩
        · exact absurd mem_cons_self hnot
    · rw [if_neg hother, mem_cons, not_or]
      constructor
      · rintro (⟨present, hpres, hkey, hvalue⟩ | ⟨hnot, hvalue⟩)
        · exact .inl ⟨present, mem_cons_of_mem _ hpres, hkey, hvalue⟩
        · exact .inr ⟨⟨hother, hnot⟩, hvalue⟩
      · rintro (⟨present, hpres, hkey, hvalue⟩ | ⟨⟨_, hnot⟩, hvalue⟩)
        · rcases mem_cons.mp hpres with rfl | hpres
          · exact absurd hkey.symm hother
          · exact .inl ⟨present, hpres, hkey, hvalue⟩
        · exact .inr ⟨hnot, hvalue⟩

end Writes

variable {tables result : Tables} {around : Surroundings}

theorem get?_importedNodes {nodes : List (JsStr × NodeRow)} {table : NodeTable}
    (hids : (nodes.map Prod.fst).Nodup) (huris : (nodes.map fun node => node.2.uri).Nodup)
    (hempty : ∀ node ∈ nodes, ∀ id row, table.get? id = some row → id ≠ node.1 ∧ row.uri ≠ node.2.uri)
    (id : JsStr) (row : NodeRow) : (importedNodes table nodes).get? id = some row ↔
      (id, row) ∈ nodes ∨ table.get? id = some row := by
  induction nodes generalizing table with
  | nil => simp [importedNodes]
  | cons node rest ih =>
    rw [map_cons, nodup_cons] at hids huris
    have hget : ∀ other found, (table.replace node.1 node.2).get? other = some found ↔
        (other, found) = node ∨ table.get? other = some found := by
      intro other found
      rw [NodeTable.get?_replace]
      by_cases hother : other = node.1
      · subst hother
        rw [if_pos rfl]
        constructor
        · intro hfound
          exact .inl (Prod.ext rfl (Option.some.inj hfound).symm)
        · rintro (heq | hpres)
          · rw [← heq]
          · exact absurd rfl (hempty node mem_cons_self _ _ hpres).1
      · rw [if_neg hother, Option.filter_eq_some_iff]
        constructor
        · exact fun hfound => .inr hfound.1
        · rintro (heq | hpres)
          · exact absurd (congrArg Prod.fst heq) hother
          · exact ⟨hpres, decide_eq_true (hempty node mem_cons_self _ _ hpres).2⟩
    rw [importedNodes, foldl_cons]
    refine (ih hids.2 huris.2 ?_).trans ?_
    · intro other hother found present hpres
      rcases (hget found present).mp hpres with rfl | hpres
      · exact ⟨fun heq => hids.1 (mem_map.mpr ⟨other, hother, heq.symm⟩), fun heq =>
          huris.1 (mem_map.mpr ⟨other, hother, heq.symm⟩)⟩
      · exact hempty other (mem_cons_of_mem _ hother) _ _ hpres
    · rw [hget, mem_cons, ← or_assoc, or_comm (a := (id, row) ∈ rest)]

theorem revisions_importRevisions {rows : List RevisionRow}
    (hkeys : ((tables.revisions ++ rows).map fun row => (row.nodeId, row.version)).Nodup) :
    rows.foldl importRevision tables = { tables with revisions := tables.revisions ++ rows } := by
  induction rows generalizing tables with
  | nil => rw [append_nil]; rfl
  | cons row rest ih =>
    have hfresh : tables.revisions.filter (fun other =>
        ¬ (other.nodeId = row.nodeId ∧ other.version = row.version)) = tables.revisions := by
      refine filter_eq_self.mpr fun other hother => decide_eq_true fun ⟨hid, hver⟩ => ?_
      rw [map_append, nodup_append'] at hkeys
      refine hkeys.2.2 (mem_map_of_mem hother) ?_
      rw [map_cons, hid, hver]
      exact mem_cons_self
    rw [foldl_cons, importRevision, hfresh, ih]
    · rw [append_assoc, singleton_append]
    · rwa [append_assoc, singleton_append]

theorem importAliases_eq_ok {entries : List (JsStr × JsStr × Option (Option JsStr))} :
    importAliases entries tables = .ok result ↔ (∀ entry ∈ entries, tables.nodes.get? entry.2.1 ≠ none) ∧
        result = entries.foldl (fun state entry => addAlias state entry.1 entry.2.1 entry.2.2) tables := by
  induction entries generalizing tables with
  | nil => simp [importAliases, eq_comm]
  | cons entry rest ih =>
    obtain ⟨aliasUri, targetNodeId, disclosure⟩ := entry
    rw [importAliases, forall_mem_cons, foldl_cons]
    cases hnode : tables.nodes.get? targetNodeId with
    | none => simp
    | some node =>
      refine ih.trans ?_
      exact and_congr_left fun _ => (and_iff_right (by rintro ⟨⟩)).symm

theorem importEdges_eq_ok {entries : List ((JsStr × JsStr) × Option JsStr × Option (Option JsStr))} :
    importEdges entries tables = .ok result ↔
      (∀ entry ∈ entries, tables.nodes.get? entry.1.1 ≠ none ∧ resolveUri tables entry.1.2 ≠ none) ∧
        result = entries.foldl (fun state entry => { state with edges := state.edges.set entry.1 ⟨entry.2.1,
            upsertDisclosure ((state.edges.get? entry.1).map EdgeRow.disclosure) entry.2.2⟩ }) tables := by
  induction entries generalizing tables with
  | nil => simp [importEdges, eq_comm]
  | cons entry rest ih =>
    obtain ⟨key, kind, disclosure⟩ := entry
    rw [importEdges, forall_mem_cons, foldl_cons]
    cases hnode : tables.nodes.get? key.1 with
    | none => simp
    | some node =>
      cases hresol : resolveUri tables key.2 with
      | none => simp
      | some target =>
        refine ih.trans ?_
        exact and_congr_left fun _ => (and_iff_right ⟨by rintro ⟨⟩, by rintro ⟨⟩⟩).symm

theorem importGlossary_eq_ok {entries : List (JsStr × JsStr)} : importGlossary entries tables = .ok result ↔
      (∀ entry ∈ entries, tables.nodes.get? entry.2 ≠ none) ∧ result = { tables with
          glossary := entries.foldl (fun glossary entry => replaceRow glossary entry.1 entry.2)
            tables.glossary } := by
  induction entries generalizing tables with
  | nil => simp [importGlossary, eq_comm]
  | cons entry rest ih =>
    obtain ⟨keyword, nodeId⟩ := entry
    rw [importGlossary, forall_mem_cons, foldl_cons]
    cases hnode : tables.nodes.get? nodeId with
    | none => simp
    | some node =>
      refine ih.trans ?_
      exact and_congr_left fun _ => (and_iff_right (by rintro ⟨⟩)).symm

/-! ### The parts of an import -/

def writeAlias (aliases : JsMap JsStr AliasRow) (entry : JsStr × JsStr × Option (Option JsStr)) :
    JsMap JsStr AliasRow :=
  aliases.set entry.1 ⟨entry.2.1, upsertDisclosure ((aliases.get? entry.1).map AliasRow.disclosure) entry.2.2⟩

def writeEdge (edges : JsMap (JsStr × JsStr) EdgeRow)
    (entry : (JsStr × JsStr) × Option JsStr × Option (Option JsStr)) :
    JsMap (JsStr × JsStr) EdgeRow :=
  edges.set entry.1 ⟨entry.2.1, upsertDisclosure ((edges.get? entry.1).map EdgeRow.disclosure) entry.2.2⟩

def writeKeyword (glossary : JsMap JsStr JsStr) (entry : JsStr × JsStr) :
    JsMap JsStr JsStr :=
  replaceRow glossary entry.1 entry.2

theorem foldl_addAlias (entries : List (JsStr × JsStr × Option (Option JsStr))) (tables : Tables) :
    entries.foldl (fun state entry => addAlias state entry.1 entry.2.1 entry.2.2) tables =
      { tables with aliases := entries.foldl writeAlias tables.aliases } := by
  induction entries generalizing tables with
  | nil => rfl
  | cons entry rest ih => exact ih _

theorem foldl_edges (entries : List ((JsStr × JsStr) × Option JsStr × Option (Option JsStr)))
    (tables : Tables) : entries.foldl (fun state entry => { state with edges := state.edges.set entry.1 ⟨entry.2.1,
        upsertDisclosure ((state.edges.get? entry.1).map EdgeRow.disclosure) entry.2.2⟩ }) tables =
      { tables with edges := entries.foldl writeEdge tables.edges } := by
  induction entries generalizing tables with
  | nil => rfl
  | cons entry rest ih => exact ih _

theorem foldl_importKv (entries : List (JsStr × JsStr)) (tables : Tables) :
    entries.foldl importKv tables = { tables with
      kv := (entries.filter fun entry => entry.1 ≠ schemaVersionKey).foldl writeKeyword tables.kv } := by
  induction entries generalizing tables with
  | nil => rfl
  | cons entry rest ih =>
    rw [foldl_cons, ih, importKv]
    by_cases hkey : entry.1 = schemaVersionKey
    · rw [if_pos hkey, filter_cons_of_neg (by simpa using hkey)]
    · rw [if_neg hkey, filter_cons_of_pos (by simpa using hkey)]
      rfl

section Parts

variable [Tokenizer]

theorem foldl_importNode (nodes : List (JsStr × NodeRow)) (tables : Tables) : ∃ nodeFts,
    nodes.foldl importNode tables = { tables with nodes := importedNodes tables.nodes nodes, nodeFts } := by
  induction nodes generalizing tables with
  | nil => exact ⟨tables.nodeFts, rfl⟩
  | cons node rest ih =>
    obtain ⟨first, hfirst⟩ := importNode_eq tables node
    obtain ⟨nodeFts, hrest⟩ := ih (importNode tables node)
    refine ⟨nodeFts, ?_⟩
    rw [foldl_cons, hrest, hfirst]
    rfl

theorem foldl_reindexNode (ids : List JsStr) (tables : Tables) : ∃ nodeFts,
    ids.foldl reindexNode tables = { tables with nodeFts } := by
  induction ids generalizing tables with
  | nil => exact ⟨tables.nodeFts, rfl⟩
  | cons id rest ih =>
    obtain ⟨first, hfirst⟩ := reindexNode_eq tables id
    obtain ⟨nodeFts, hrest⟩ := ih (reindexNode tables id)
    refine ⟨nodeFts, ?_⟩
    rw [foldl_cons, hrest, hfirst]

/-- The nodes, revisions and values a snapshot brings into a new database. -/
def Tables.based (snapshot : ExportSnapshot) (nodeFts : List FtsRow) : Tables :=
  { Tables.fresh with
    nodes := importedNodes .empty snapshot.nodes
    revisions := snapshot.revisions
    kv := (snapshot.kv.filter fun entry => entry.1 ≠ schemaVersionKey).foldl writeKeyword Tables.fresh.kv
    nodeFts }

/-- With its aliases, edges and keywords. -/
def Tables.imported (snapshot : ExportSnapshot) (nodeFts : List FtsRow) : Tables :=
  { Tables.based snapshot nodeFts with
    aliases := snapshot.aliases.foldl writeAlias .empty
    edges := snapshot.edges.foldl writeEdge .empty
    glossary := snapshot.glossary.foldl writeKeyword .empty }

/-- What the import checks. -/
structure ExportSnapshot.Checked (snapshot : ExportSnapshot) : Prop where
  aliases : ∀ entry ∈ snapshot.aliases, (importedNodes .empty snapshot.nodes).get? entry.2.1 ≠ none
  edges : ∀ entry ∈ snapshot.edges, (importedNodes .empty snapshot.nodes).get? entry.1.1 ≠ none ∧
    resolveUri (Tables.imported snapshot []) entry.1.2 ≠ none
  glossary : ∀ entry ∈ snapshot.glossary, (importedNodes .empty snapshot.nodes).get? entry.2 ≠ none

omit [Tokenizer] in
theorem resolveUri_congr {left right : Tables} (hnodes : left.nodes = right.nodes)
    (halias : left.aliases = right.aliases) : resolveUri left = resolveUri right := by
  funext uri
  unfold resolveUri
  rw [hnodes, halias]

variable {snapshot : ExportSnapshot}

theorem foldl_based (hkeys : (snapshot.revisions.map fun row => (row.nodeId, row.version)).Nodup) :
    ∃ nodeFts, snapshot.kv.foldl importKv (snapshot.revisions.foldl importRevision
      (snapshot.nodes.foldl importNode Tables.fresh)) = Tables.based snapshot nodeFts := by
  obtain ⟨nodeFts, hnodes⟩ := foldl_importNode snapshot.nodes Tables.fresh
  refine ⟨nodeFts, ?_⟩
  have hrows := @revisions_importRevisions { Tables.fresh with
    nodes := importedNodes Tables.fresh.nodes snapshot.nodes, nodeFts } snapshot.revisions hkeys
  rw [hnodes, hrows, foldl_importKv]
  rfl

variable (hkeys : (snapshot.revisions.map fun row => (row.nodeId, row.version)).Nodup)

include hkeys

theorem importSnapshot_eq_ok (himp : importSnapshot Tables.fresh snapshot = .ok result) :
    snapshot.Checked ∧ ∃ nodeFts, result = Tables.imported snapshot nodeFts := by
  obtain ⟨first, hbased⟩ := foldl_based hkeys
  rw [importSnapshot, hbased] at himp
  obtain ⟨aliased, halias, himp⟩ := bind_eq_ok.mp himp
  obtain ⟨linked, hedges, himp⟩ := bind_eq_ok.mp himp
  obtain ⟨named, hglos, hresult⟩ := bind_eq_ok.mp himp
  obtain ⟨hpres, rfl⟩ := importAliases_eq_ok.mp halias
  rw [foldl_addAlias, importEdges_eq_ok] at hedges
  obtain ⟨hedges, rfl⟩ := hedges
  rw [foldl_edges, importGlossary_eq_ok] at hglos
  obtain ⟨hglos, rfl⟩ := hglos
  refine ⟨⟨hpres, fun entry hentry => ⟨(hedges entry hentry).1, fun hnone => ?_⟩, hglos⟩, ?_⟩
  · apply (hedges entry hentry).2
    rw [← hnone]
    exact congrFun (resolveUri_congr rfl rfl) _
  · obtain ⟨nodeFts, hindex⟩ := foldl_reindexNode ((snapshot.glossary.map Prod.snd).dedup) _
    rw [hindex] at hresult
    exact ⟨nodeFts, (Except.ok.inj hresult).symm⟩

theorem importSnapshot_of_checked (hchec : snapshot.Checked) :
    ∃ result, importSnapshot Tables.fresh snapshot = .ok result := by
  obtain ⟨first, hbased⟩ := foldl_based hkeys
  rw [importSnapshot, hbased, importAliases_eq_ok.mpr ⟨hchec.aliases, rfl⟩, foldl_addAlias, ok_bind,
    importEdges_eq_ok.mpr ⟨fun entry hentry => ⟨(hchec.edges entry hentry).1, ?_⟩, rfl⟩, foldl_edges,
    ok_bind, importGlossary_eq_ok.mpr ⟨hchec.glossary, rfl⟩, ok_bind]
  · exact ⟨_, rfl⟩
  · intro hnone
    apply (hchec.edges entry hentry).2
    rw [← hnone]
    exact congrFun (resolveUri_congr rfl rfl) _

end Parts

/-! ### An export imported again -/

theorem resolveUri_of_same {left right : Tables} (hnodes : ∀ id, left.nodes.get? id = right.nodes.get? id)
    (halias : ∀ uri, left.aliases.get? uri = right.aliases.get? uri) (uri : JsStr) :
    resolveUri left uri = resolveUri right uri := by
  have hfree : left.nodes.byUri uri = none ↔ right.nodes.byUri uri = none := by
    simp only [NodeTable.byUri_eq_none, hnodes]
  ext found : 1
  rw [resolveUri_eq_some, resolveUri_eq_some, hnodes, halias, hfree]

/-- Every reference leads to a node. -/
structure Referenced (tables : Tables) : Prop where
  aliases : ∀ entry ∈ tables.aliases.entries, tables.nodes.get? entry.2.targetNodeId ≠ none
  edges : ∀ entry ∈ tables.edges.entries,
    tables.nodes.get? entry.1.1 ≠ none ∧ resolveUri tables entry.1.2 ≠ none
  glossary : ∀ entry ∈ tables.glossary.entries, tables.nodes.get? entry.2 ≠ none

/-- The keys of `node_revisions`. -/
def RevisionKeys (tables : Tables) : Prop :=
  (tables.revisions.map fun row => (row.nodeId, row.version)).Nodup

/-- The rows of two databases. -/
structure SameRows (left right : Tables) : Prop where
  nodes : ∀ id, left.nodes.get? id = right.nodes.get? id
  revisions : ∀ row, row ∈ left.revisions ↔ row ∈ right.revisions
  kv : ∀ key, key ≠ schemaVersionKey → left.kv.get? key = right.kv.get? key
  aliases : ∀ uri, left.aliases.get? uri = right.aliases.get? uri
  edges : ∀ key, left.edges.get? key = right.edges.get? key
  glossary : ∀ keyword, left.glossary.get? keyword = right.glossary.get? keyword

theorem SameRows.export {left right : Tables} (hsame : SameRows left right) :
    SameExport (exportSnapshot left) (exportSnapshot right) where
  nodes node := by rw [mem_exportSnapshot_nodes, mem_exportSnapshot_nodes, hsame.nodes]
  revisions row := by rw [mem_exportSnapshot_revisions, mem_exportSnapshot_revisions, hsame.revisions]
  kv entry hkey := by rw [mem_exportSnapshot_kv, mem_exportSnapshot_kv, hsame.kv _ hkey]
  aliases entry := by rw [mem_exportSnapshot_aliases, mem_exportSnapshot_aliases, hsame.aliases]
  edges entry := by rw [mem_exportSnapshot_edges, mem_exportSnapshot_edges, hsame.edges]
  glossary entry := by rw [mem_exportSnapshot_glossary, mem_exportSnapshot_glossary, hsame.glossary]

theorem NodeTable.get?_empty (id : JsStr) : NodeTable.empty.get? id = none := rfl

section

variable (nodeFts : List FtsRow)

theorem get?_imported_nodes (id : JsStr) :
    (Tables.imported (exportSnapshot tables) nodeFts).nodes.get? id = tables.nodes.get? id := by
  have hperm := orderByText_perm (fun node : JsStr × NodeRow => node.2.createdAt)
    tables.nodes.rows.entries
  ext row : 1
  refine (get?_importedNodes ?_ ?_ (fun _ _ other _ hsome => nomatch (NodeTable.get?_empty other).symm.trans hsome) id row).trans ?_
  · exact (hperm.map Prod.fst).nodup_iff.mpr tables.nodes.rows.nodup
  · have huris := tables.nodes.uris_nodup
    rw [values, map_map] at huris
    exact (hperm.map _).nodup_iff.mpr huris
  · rw [mem_exportSnapshot_nodes]
    exact or_iff_left nofun

theorem get?_foldl_rows {κ β ι : Type} [DecidableEq κ] {write : JsMap κ β → ι → JsMap κ β} (key : ι → κ)
    (value : ι → β) {items : List ι} {table : JsMap κ β} (hwrite : ∀ item ∈ items, ∀ map other,
      (write map item).get? other = if other = key item then some (value item) else map.get? other)
    (hnodup : (items.map key).Nodup) (hitems : ∀ other found,
      (∃ item ∈ items, key item = other ∧ value item = found) ↔ table.get? other = some found)
    (other : κ) : (items.foldl write .empty).get? other = table.get? other := by
  ext found : 1
  rw [get?_foldl_write hwrite hnodup, hitems, get?_empty]
  exact or_iff_left fun hempty => nomatch hempty.2

theorem get?_imported_aliases (uri : JsStr) :
    (Tables.imported (exportSnapshot tables) nodeFts).aliases.get? uri = tables.aliases.get? uri := by
  refine get?_foldl_rows Prod.fst (fun entry => ⟨entry.2.1, entry.2.2.join⟩) ?_ ?_ (fun other found => ?_) uri
  · intro entry hentry map other
    obtain ⟨present, _, heq⟩ := mem_exportSnapshot_aliases.mp hentry
    rw [writeAlias, get?_set, heq]
    rfl
  · unfold exportSnapshot
    rw [map_map]
    exact ((orderByText_perm _ _).map Prod.fst).nodup_iff.mpr tables.aliases.nodup
  · constructor
    · rintro ⟨entry, hentry, rfl, rfl⟩
      obtain ⟨row, hrow, heq⟩ := mem_exportSnapshot_aliases.mp hentry
      rw [hrow, heq]
      rfl
    · intro hfound
      exact ⟨(other, found.targetNodeId, some found.disclosure),
        mem_exportSnapshot_aliases.mpr ⟨found, hfound, rfl⟩, rfl, rfl⟩

theorem get?_imported_edges (key : JsStr × JsStr) :
    (Tables.imported (exportSnapshot tables) nodeFts).edges.get? key = tables.edges.get? key := by
  refine get?_foldl_rows Prod.fst (fun entry => ⟨entry.2.1, entry.2.2.join⟩) ?_ ?_ (fun other found => ?_) key
  · intro entry hentry map other
    obtain ⟨present, _, heq⟩ := mem_exportSnapshot_edges.mp hentry
    rw [writeEdge, get?_set, heq]
    rfl
  · unfold exportSnapshot
    rw [map_map]
    exact (((orderByText_perm _ _).trans (orderByText_perm _ _)).map Prod.fst).nodup_iff.mpr
      tables.edges.nodup
  · constructor
    · rintro ⟨entry, hentry, rfl, rfl⟩
      obtain ⟨row, hrow, heq⟩ := mem_exportSnapshot_edges.mp hentry
      rw [hrow, heq]
      rfl
    · intro hfound
      exact ⟨(other, found.kind, some found.disclosure), mem_exportSnapshot_edges.mpr ⟨found, hfound, rfl⟩, rfl, rfl⟩

theorem get?_writeKeyword (map : JsMap JsStr JsStr) (entry : JsStr × JsStr) (other : JsStr) :
    (writeKeyword map entry).get? other = if other = entry.1 then some entry.2 else map.get? other := by
  rw [writeKeyword, replaceRow, get?_set, get?_delete]
  split_ifs <;> rfl

theorem get?_imported_glossary (keyword : JsStr) :
    (Tables.imported (exportSnapshot tables) nodeFts).glossary.get? keyword = tables.glossary.get? keyword := by
  refine get?_foldl_rows Prod.fst Prod.snd (fun entry _ map other => get?_writeKeyword map entry other) ?_
    (fun other found => ?_) keyword
  · exact ((orderByText_perm _ _).map Prod.fst).nodup_iff.mpr tables.glossary.nodup
  · constructor
    · rintro ⟨entry, hentry, rfl, rfl⟩
      exact mem_exportSnapshot_glossary.mp hentry
    · exact fun hfound => ⟨(other, found), mem_exportSnapshot_glossary.mpr hfound, rfl, rfl⟩

theorem get?_imported_kv (htok : tables.kv.get? ftsTokenizerKey ≠ none)
    {key : JsStr} (hkey : key ≠ schemaVersionKey) :
    (Tables.imported (exportSnapshot tables) nodeFts).kv.get? key = tables.kv.get? key := by
  have hnodup : ((tables.kv.entries.filter fun entry => entry.1 ≠ schemaVersionKey).map Prod.fst).Nodup :=
    tables.kv.nodup.sublist (filter_sublist.map _)
  have hmem : ∀ found, (∃ entry ∈ tables.kv.entries.filter fun entry => entry.1 ≠ schemaVersionKey,
      entry.1 = key ∧ entry.2 = found) ↔ tables.kv.get? key = some found := by
    intro found
    rw [get?_eq_some]
    constructor
    · rintro ⟨entry, hentry, rfl, rfl⟩
      exact (mem_filter.mp hentry).1
    · exact fun hfound => ⟨(key, found), mem_filter.mpr ⟨hfound, decide_eq_true hkey⟩, rfl, rfl⟩
  ext found : 1
  refine (get?_foldl_write (fun entry _ map other => get?_writeKeyword map entry other) hnodup _ _ _).trans ?_
  rw [hmem]
  refine or_iff_left ?_
  rintro ⟨hnot, hfresh⟩
  -- A new database has a value of its own for the token space only.
  have htoken : key = ftsTokenizerKey := by
    by_contra hne
    rw [show Tables.fresh.kv = (JsMap.empty.set schemaVersionKey (js "4")).set ftsTokenizerKey (js "segmenter")
      from rfl, get?_set, if_neg hne, get?_set, if_neg hkey] at hfresh
    exact nomatch hfresh
  subst htoken
  obtain ⟨value, hvalue⟩ := Option.ne_none_iff_exists'.mp htok
  obtain ⟨entry, hentry, heq, _⟩ := (hmem value).mpr hvalue
  exact hnot (mem_map.mpr ⟨entry, hentry, heq⟩)

theorem sameRows_imported (htok : tables.kv.get? ftsTokenizerKey ≠ none) :
    SameRows (Tables.imported (exportSnapshot tables) nodeFts) tables where
  nodes := get?_imported_nodes nodeFts
  revisions _ := mem_exportSnapshot_revisions
  kv _ hkey := get?_imported_kv nodeFts htok hkey
  aliases := get?_imported_aliases nodeFts
  edges := get?_imported_edges nodeFts
  glossary := get?_imported_glossary nodeFts

end

theorem checked_exportSnapshot : (exportSnapshot tables).Checked ↔ Referenced tables := by
  have hnodes := @get?_imported_nodes tables []
  have hresol := resolveUri_of_same hnodes (@get?_imported_aliases tables [])
  constructor
  · rintro ⟨halias, hedges, hglos⟩
    refine ⟨fun entry hentry => ?_, fun entry hentry => ?_, fun entry hentry => ?_⟩
    · rw [← hnodes]
      exact halias (entry.1, entry.2.targetNodeId, some entry.2.disclosure)
        (mem_exportSnapshot_aliases.mpr ⟨entry.2, JsMap.get?_eq_some.mpr hentry, rfl⟩)
    · rw [← hnodes, ← hresol]
      exact hedges (entry.1, entry.2.kind, some entry.2.disclosure)
        (mem_exportSnapshot_edges.mpr ⟨entry.2, JsMap.get?_eq_some.mpr hentry, rfl⟩)
    · rw [← hnodes]
      exact hglos entry (mem_exportSnapshot_glossary.mpr (JsMap.get?_eq_some.mpr hentry))
  · rintro ⟨halias, hedges, hglos⟩
    refine ⟨fun entry hentry => ?_, fun entry hentry => ?_, fun entry hentry => ?_⟩
    · obtain ⟨row, hrow, heq⟩ := mem_exportSnapshot_aliases.mp hentry
      rw [heq]
      exact (hnodes _).trans_ne (halias (entry.1, row) (JsMap.get?_eq_some.mp hrow))
    · obtain ⟨row, hrow, heq⟩ := mem_exportSnapshot_edges.mp hentry
      obtain ⟨hsrc, htgt⟩ := hedges (entry.1, row) (JsMap.get?_eq_some.mp hrow)
      exact ⟨(hnodes _).trans_ne hsrc, (hresol _).trans_ne htgt⟩
    · exact (hnodes _).trans_ne (hglos entry (JsMap.get?_eq_some.mp
        (mem_exportSnapshot_glossary.mp hentry)))

/-! ### Revisions and values over runs -/

/-- A property of the revisions and values that the single writes keep. -/
structure KeptByWrites (Holds : Tables → Prop) : Prop where
  other : ∀ {before after : Tables}, Holds before → after.revisions = before.revisions →
    after.kv = before.kv → Holds after
  archive : ∀ {before : Tables} (around : Surroundings) (nodeId content : JsStr)
    (editorSource editorModel uri : Option JsStr) (snapshot : Option NodeRow)
    (anchor : Option RevisionAnchor), Holds before →
      Holds (archiveRevision before around nodeId content editorSource editorModel uri snapshot anchor).1
  address : ∀ {before : Tables} (nodeId : JsStr) (uri : Option JsStr), Holds before →
    Holds { before with revisions := before.revisions.map fun row =>
      if row.nodeId = nodeId then { row with uri := row.uri.or uri } else row }
  imported : ∀ {before : Tables} (row : RevisionRow), Holds before → Holds (importRevision before row)
  value : ∀ {before : Tables} (key value : JsStr), Holds before → Holds (setKv before key value)

namespace KeptByWrites

variable [Tokenizer] {Holds : Tables → Prop} (hkept : KeptByWrites Holds) {nodeId : JsStr}

include hkept

section

variable (hholds : Holds tables)

include hholds

theorem reindexNode : Holds (reindexNode tables nodeId) := by
  obtain ⟨nodeFts, heq⟩ := reindexNode_eq tables nodeId
  rw [heq]
  exact hkept.other hholds rfl rfl

theorem insertNodeAs {input : NodeInput} {isStub : Bool}
    (hins : insertNodeAs tables around input isStub nodeId = .ok result) : Holds result := by
  obtain ⟨nodes, _, hresult⟩ := bind_eq_ok.mp hins
  obtain rfl := Except.ok.inj hresult
  unfold recordInsert
  split_ifs
  · exact hkept.other hholds rfl rfl
  · split
    · exact hkept.reindexNode (hkept.other hholds rfl rfl)
    · exact hkept.archive _ _ _ _ _ _ _ _ (hkept.reindexNode (hkept.other hholds rfl rfl))

theorem ensureStubAncestors {uri : JsStr} {explicitParent : Option JsStr}
    (hstubs : ensureStubAncestors tables around uri explicitParent = .ok result) : Holds result :=
  ensureStubAncestors_rule (fun hholds _ hins => hkept.insertNodeAs hholds hins) hstubs hholds

theorem updateNode {patch : NodePatch} {provenance : Option RevisionAnchor}
    (hupd : (updateNode tables around nodeId patch provenance).map Prod.fst = .ok result) : Holds result := by
  rw [Memory.updateNode] at hupd
  cases hnode : tables.nodes.get? nodeId with
  | none =>
    rw [hnode] at hupd
    cases hupd
  | some node =>
    rw [hnode] at hupd
    obtain rfl := Except.ok.inj hupd
    have hpat : Holds (applyPatchColumns tables around nodeId patch) := hkept.other hholds rfl rfl
    split_ifs
    · exact hkept.reindexNode (hkept.other hpat rfl rfl)
    · exact hkept.archive _ _ _ _ _ _ _ _ (hkept.reindexNode (hkept.other hpat rfl rfl))
    · dsimp only [touchNode]
      have htouc : Holds (if patch.disclosure.isSome then
          Memory.reindexNode (applyPatchColumns tables around nodeId patch) nodeId
          else applyPatchColumns tables around nodeId patch) := by
        split_ifs
        · exact hkept.reindexNode hpat
        · exact hpat
      by_cases hatt : patch.changesAttributes node = true
      · rw [if_pos hatt]
        exact hkept.archive _ _ _ _ _ _ _ _ htouc
      · rw [if_neg hatt]
        exact htouc

theorem put {input : NodeInput} (hput : put tables around input = .ok result) : Holds result := by
  rw [Memory.put] at hput
  cases hresol : resolveUri tables input.uri with
  | some existing =>
    rw [hresol] at hput
    exact hkept.updateNode hholds hput
  | none =>
    rw [hresol] at hput
    obtain ⟨stubbed, hstubs, hins⟩ := bind_eq_ok.mp hput
    exact hkept.insertNodeAs (hkept.ensureStubAncestors hholds hstubs) hins

end

omit [Tokenizer] in
theorem dropNode {node : NodeRow} (hholds : Holds tables) : Holds (dropNode tables around nodeId node) := by
  have hprun : Holds { tables with
      nodeFts := tables.nodeFts.filter fun row => row.nodeId ≠ nodeId
      aliases := tables.aliases.filter fun _ entry => entry.targetNodeId ≠ nodeId
      edges := tables.edges.filter fun key _ => key.1 ≠ nodeId && key.2 ≠ node.uri
      glossary := tables.glossary.filter fun _ owner => owner ≠ nodeId } := hkept.other hholds rfl rfl
  have harc := hkept.archive around nodeId node.content (some node.source.text) node.model
    (some node.uri) (some node) none hprun
  exact hkept.other (hkept.address nodeId (some node.uri) harc) rfl rfl

omit [Tokenizer] in
theorem deleteCascadeFrom {depth : Nat} (hholds : Holds tables)
    (hdel : deleteCascadeFrom around depth tables nodeId = .ok result) : Holds result :=
  @deleteCascadeFrom_rule _ _ _ _ Holds (fun _ => True) (fun _ _ _ _ => trivial)
    (fun _ _ hstate _ => hkept.dropNode hstate) _ hdel trivial hholds

theorem restoreDeleted {uri : JsStr} {version : Option Nat} (hholds : Holds tables)
    (hres : restoreDeleted tables around uri version = .ok result) : Holds result := by
  unfold Memory.restoreDeleted at hres
  split at hres
  · exact nomatch hres
  · exact nomatch hres
  · obtain ⟨inserted, hins, hres⟩ := bind_eq_ok.mp hres
    obtain ⟨stubbed, hstubs, hres⟩ := bind_eq_ok.mp hres
    rw [← Except.ok.inj hres]
    exact hkept.other (hkept.ensureStubAncestors (hkept.insertNodeAs hholds hins) hstubs) rfl rfl

variable [NumberText]

omit [Tokenizer] in
theorem remapAwakenUris {fromUri toUri : JsStr} (hholds : Holds tables) :
    Holds (remapAwakenUris tables fromUri toUri) := by
  unfold Memory.remapAwakenUris
  split
  · split_ifs
    · exact hholds
    · exact hkept.value _ _ hholds
  · exact hholds

theorem relocateMany {moves : List Move} (hholds : Holds tables)
    (hrel : relocateMany tables around moves = .ok result) : Holds result := by
  obtain ⟨plans, hplans, hcheck, happly⟩ := relocateMany_eq_ok.mp hrel
  have hmoves : ∀ {plan : Plan} {parentId : Option JsStr} {members : List Member} {state after : Tables},
      Holds state → moveMembers around plan parentId members state = .ok after → Holds after := by
    intro plan parentId members
    induction members with
    | nil => exact fun hstate hend => Except.ok.inj hend ▸ hstate
    | cons member rest ih =>
      intro state after hstate hend
      obtain ⟨middle, hmove, hrest⟩ := bind_eq_ok.mp hend
      obtain ⟨nodes, _, hmid⟩ := bind_eq_ok.mp hmove
      refine ih ?_ hrest
      rw [← Except.ok.inj hmid]
      exact hkept.reindexNode (hkept.other hstate rfl rfl)
  clear hrel hplans hcheck
  induction plans generalizing tables with
  | nil => exact Except.ok.inj happly ▸ hholds
  | cons plan rest ih =>
    obtain ⟨middle, hfirst, hrest⟩ := bind_eq_ok.mp happly
    refine ih ?_ hrest
    unfold applyPlan at hfirst
    split_ifs at hfirst
    · obtain ⟨stubbed, hstubs, hfirst⟩ := bind_eq_ok.mp hfirst
      obtain ⟨moved, hmove, hfirst⟩ := bind_eq_ok.mp hfirst
      rw [← Except.ok.inj hfirst]
      exact hkept.remapAwakenUris (hmoves (hkept.ensureStubAncestors hholds hstubs) hmove)
    · exact Except.ok.inj hfirst ▸ hholds

omit [NumberText] in
theorem appendRaw {entries : List RawEntry} (hholds : Holds tables) : Holds (appendRaw tables entries) := by
  refine List.foldlRecOn _ _ hholds fun state hstate entry _ => ?_
  unfold upsertRaw
  split
  · exact hkept.other hstate rfl rfl
  · exact hkept.other hstate rfl rfl

omit [Tokenizer] [NumberText] in
theorem setAliasDisclosure {aliasUri : JsStr} {disclosure : Option JsStr} (hholds : Holds tables)
    (hset : setAliasDisclosure tables aliasUri disclosure = .ok result) : Holds result := by
  unfold Memory.setAliasDisclosure at hset
  split at hset
  · exact nomatch hset
  · rw [← Except.ok.inj hset]
    exact hkept.other hholds rfl rfl

omit [NumberText] in
theorem importSnapshot {snapshot : ExportSnapshot} (hholds : Holds tables)
    (himp : importSnapshot tables snapshot = .ok result) : Holds result := by
  rw [Memory.importSnapshot] at himp
  obtain ⟨aliased, halias, himp⟩ := bind_eq_ok.mp himp
  obtain ⟨linked, hedges, himp⟩ := bind_eq_ok.mp himp
  obtain ⟨named, hglos, hresult⟩ := bind_eq_ok.mp himp
  obtain ⟨_, rfl⟩ := importAliases_eq_ok.mp halias
  obtain ⟨_, rfl⟩ := importEdges_eq_ok.mp hedges
  obtain ⟨_, rfl⟩ := importGlossary_eq_ok.mp hglos
  obtain ⟨nodeFts, hindex⟩ := foldl_reindexNode ((snapshot.glossary.map Prod.snd).dedup) _
  rw [hindex] at hresult
  rw [← Except.ok.inj hresult, foldl_addAlias, foldl_edges]
  have hnodes : Holds (snapshot.nodes.foldl importNode tables) := by
    obtain ⟨first, heq⟩ := foldl_importNode snapshot.nodes tables
    rw [heq]
    exact hkept.other hholds rfl rfl
  have hval : Holds (snapshot.kv.foldl importKv (snapshot.revisions.foldl importRevision
      (snapshot.nodes.foldl importNode tables))) := by
    refine List.foldlRecOn _ _ (List.foldlRecOn _ _ hnodes fun state hstate row _ =>
      hkept.imported row hstate) fun state hstate entry _ => ?_
    unfold importKv
    split_ifs
    · exact hstate
    · exact hkept.value _ _ hstate
  exact hkept.other hval rfl rfl

omit [NumberText] in
theorem seed (hholds : Holds tables) (hseed : seed tables around = .ok result) : Holds result := by
  have hnode : ∀ {state after : Tables} {uri content : JsStr}, Holds state →
      seedNode around state uri content = .ok after → Holds after := by
    intro state after uri content hstate hend
    unfold seedNode at hend
    split at hend
    · exact Except.ok.inj hend ▸ hstate
    · exact hkept.insertNodeAs hstate hend
  obtain ⟨first, hfirst, hseed⟩ := bind_eq_ok.mp hseed
  obtain ⟨second, hsnd, hthird⟩ := bind_eq_ok.mp hseed
  exact hnode (hnode (hnode (hkept.value _ _ hholds) hfirst) hsnd) hthird

theorem run {operation : Operation} (hholds : Holds tables)
    (hrun : operation.run tables around = .ok result) : Holds result := by
  cases operation with
  | put input => exact hkept.put hholds hrun
  | insertNode input => exact hkept.insertNodeAs hholds hrun
  | updateNode nodeId patch provenance => exact hkept.updateNode hholds hrun
  | addAlias aliasUri targetNodeId disclosure =>
    obtain rfl := Except.ok.inj hrun
    exact hkept.other hholds rfl rfl
  | relocateMany moves => exact hkept.relocateMany hholds hrun
  | rename oldUri newUri => exact hkept.relocateMany hholds hrun
  | consolidateGroup theme moves =>
    obtain ⟨placed, hput, hrel⟩ := bind_eq_ok.mp hrun
    exact hkept.relocateMany (hkept.put hholds hput) hrel
  | deleteCascade nodeId => exact hkept.deleteCascadeFrom hholds hrun
  | restoreDeleted uri version => exact hkept.restoreDeleted hholds hrun
  | restoreRevision nodeId version provenance =>
    have hrun : restoreRevision tables around nodeId version provenance = .ok result := hrun
    rw [restoreRevision] at hrun
    split at hrun
    · cases hrun
    · exact hkept.updateNode hholds hrun
  | addGlossaryEntry keyword nodeId =>
    obtain rfl := Except.ok.inj hrun
    exact hkept.reindexNode (hkept.other hholds rfl rfl)
  | removeGlossaryEntry keyword =>
    obtain rfl := Except.ok.inj hrun
    unfold removeGlossaryEntry
    split
    · exact hkept.other hholds rfl rfl
    · exact hkept.reindexNode (hkept.other hholds rfl rfl)
  | reconcileNodeProjections sessionId active =>
    obtain rfl := Except.ok.inj hrun
    refine List.foldlRecOn _ _ hholds fun state hstate id _ => ?_
    unfold reconcileNode
    split
    · split_ifs
      · exact hstate
      · exact hkept.reindexNode (hkept.other hstate rfl rfl)
    · exact hstate
  | appendRaw entries =>
    obtain rfl := Except.ok.inj hrun
    exact hkept.appendRaw hholds
  | syncRawBranch sessionId entries =>
    obtain rfl := Except.ok.inj hrun
    exact hkept.other (hkept.appendRaw hholds) rfl rfl
  | importSnapshot snapshot => exact hkept.importSnapshot hholds hrun

theorem actAll {calls : List (Surroundings × Action)} (hholds : Holds tables) : Holds (actAll tables calls) := by
  refine List.foldlRecOn _ _ hholds fun state hstate call _ => ?_
  obtain ⟨around, action⟩ := call
  unfold act
  cases hrun : action.run state around with
  | error error => exact hstate
  | ok after =>
    cases action with
    | operation operation => exact hkept.run hstate hrun
    | addEdge nodeId targetUri kind disclosure =>
      obtain rfl := Except.ok.inj hrun
      exact hkept.other hstate rfl rfl
    | setEntryDisclosure uri disclosure =>
      have hrun : setEntryDisclosure state around uri disclosure = .ok after := hrun
      unfold setEntryDisclosure at hrun
      split at hrun
      · exact nomatch hrun
      · exact hkept.updateNode hstate hrun
      · exact hkept.setAliasDisclosure hstate hrun
    | setAliasDisclosure aliasUri disclosure => exact hkept.setAliasDisclosure hstate hrun
    | addKeyword keyword nodeId =>
      obtain rfl := Except.ok.inj hrun
      exact hkept.other hstate rfl rfl
    | archiveRevision nodeId content editorSource editorModel uri snapshot anchor =>
      obtain rfl := Except.ok.inj hrun
      exact hkept.archive _ _ _ _ _ _ _ _ hstate
    | setKv key value =>
      obtain rfl := Except.ok.inj hrun
      exact hkept.value _ _ hstate
    | markAccessed nodeIds moment =>
      obtain rfl := Except.ok.inj hrun
      exact hkept.other hstate rfl rfl
    | reindexNode nodeId =>
      obtain rfl := Except.ok.inj hrun
      exact hkept.reindexNode hstate
    | reindexAll =>
      obtain rfl := Except.ok.inj hrun
      exact List.foldlRecOn _ _ hstate fun _ hnext _ _ => hkept.reindexNode hnext
    | seed => exact hkept.seed hstate hrun

end KeptByWrites

theorem keptByWrites_revisionKeys : KeptByWrites RevisionKeys where
  other hbef hrevisions _ := by
    unfold RevisionKeys
    rwa [hrevisions]
  archive {before} around nodeId content editorSource editorModel uri snapshot anchor hbef := by
    have hfresh : ∀ row ∈ before.revisions, (row.nodeId, row.version) ≠
        (nodeId, currentVersion before nodeId + 1) := by
      rintro row hrow heq
      obtain ⟨rfl, hver⟩ := Prod.mk.inj heq
      have hle := version_le_currentVersion (mem_filter.mpr ⟨hrow, decide_eq_true rfl⟩)
      omega
    have hall : ∀ row : RevisionRow, row.nodeId = nodeId →
        row.version = currentVersion before nodeId + 1 →
          ((before.revisions ++ [row]).map fun row => (row.nodeId, row.version)).Nodup := by
      intro row hid hver
      rw [map_append, nodup_append']
      refine ⟨hbef, nodup_singleton _, disjoint_singleton.mpr fun hmem => ?_⟩
      obtain ⟨present, hpres, heq⟩ := mem_map.mp hmem
      exact hfresh present hpres (heq.trans (Prod.ext hid hver))
    unfold RevisionKeys
    dsimp only [archiveRevision, applyRevisionRetention]
    split
    · exact hall _ rfl rfl
    · exact (hall _ rfl rfl).sublist (filter_sublist.map _)
  address nodeId uri hbef := by
    unfold RevisionKeys
    rw [map_map]
    have hsame : ((fun row : RevisionRow => (row.nodeId, row.version)) ∘ fun row =>
        if row.nodeId = nodeId then { row with uri := row.uri.or uri } else row) =
        fun row => (row.nodeId, row.version) := by
      funext row
      rw [Function.comp_apply]
      split_ifs <;> rfl
    rw [hsame]
    exact hbef
  imported {before} row hbef := by
    unfold RevisionKeys importRevision
    rw [map_append, nodup_append']
    refine ⟨hbef.sublist (filter_sublist.map _), nodup_singleton _, disjoint_singleton.mpr fun hmem => ?_⟩
    obtain ⟨present, hpres, heq⟩ := mem_map.mp hmem
    obtain ⟨hid, hver⟩ := Prod.mk.inj heq
    exact of_decide_eq_true (mem_filter.mp hpres).2 ⟨hid, hver⟩
  value _ _ hbef := hbef

theorem keptByWrites_tokens : KeptByWrites fun tables => tables.kv.get? ftsTokenizerKey ≠ none where
  other hbef _ hkv := by rwa [hkv]
  archive around nodeId content editorSource editorModel uri snapshot anchor hbef := by
    obtain ⟨revisions, heq⟩ :=
      archiveRevision_eq _ around nodeId content editorSource editorModel uri snapshot anchor
    rwa [heq]
  address _ _ hbef := hbef
  imported _ hbef := hbef
  value key value hbef := by
    rw [setKv]
    dsimp only
    rw [replaceRow, get?_set, get?_delete]
    split_ifs
    · rintro ⟨⟩
    · exact hbef

section RoundTrip

variable [Tokenizer] [NumberText]

/-- The import of an export into a new database succeeds and exports the same again, and an import
that fails changes nothing. -/
def SnapshotRoundTrip (tables : Tables) : Prop :=
  (∃ copy, importSnapshot Tables.fresh (exportSnapshot tables) = .ok copy ∧
    SameExport (exportSnapshot copy) (exportSnapshot tables)) ∧
  ∀ target around snapshot error, importSnapshot target snapshot = .error error →
    perform target (around, .importSnapshot snapshot) = target

/-- Whatever a store has been through, it can be exported and imported exactly when all its references
lead somewhere. -/
theorem snapshot_round_trip_iff (hreach : StoreReachable tables) : SnapshotRoundTrip tables ↔ Referenced tables := by
  obtain ⟨calls, rfl⟩ := hreach
  have hkeys : RevisionKeys (actAll Tables.fresh calls) :=
    keptByWrites_revisionKeys.actAll (show RevisionKeys Tables.fresh from nodup_nil)
  have htok : (actAll Tables.fresh calls).kv.get? ftsTokenizerKey ≠ none :=
    @KeptByWrites.actAll Tables.fresh _ _ keptByWrites_tokens _ _ (by decide)
  have hexp : ((exportSnapshot (actAll Tables.fresh calls)).revisions.map fun row =>
      (row.nodeId, row.version)).Nodup :=
    (((orderByText_perm _ _).trans (perm_insertionSort _ _)).map _).nodup_iff.mpr hkeys
  constructor
  · rintro ⟨⟨copy, himp, _⟩, _⟩
    exact checked_exportSnapshot.mp (importSnapshot_eq_ok hexp himp).1
  · intro hrefer
    obtain ⟨copy, himp⟩ := importSnapshot_of_checked hexp (checked_exportSnapshot.mpr hrefer)
    obtain ⟨nodeFts, rfl⟩ := (importSnapshot_eq_ok hexp himp).2
    refine ⟨⟨_, himp, (sameRows_imported nodeFts htok).export⟩, ?_⟩
    intro target around snapshot error herror
    rw [perform, Operation.run, herror]

end RoundTrip

section Sample

local instance snapshotTokenizer : Tokenizer := plainTokenizer

local instance snapshotNumbers : NumberText := decimalNumbers

/-- A node with an alias, a keyword and an edge to another node. -/
def linkedStore : Tables :=
  sampleActions [.operation (samplePut "history://a" "one"), .operation (samplePut "history://b" "two"),
    .operation (.addAlias (js "history://c") (js "history://b") none),
    .operation (.addGlossaryEntry (js "k") (js "history://a")),
    .addEdge (js "history://a") (js "history://c") none none]

theorem snapshot_round_trip_sample : SnapshotRoundTrip linkedStore := by
  refine (snapshot_round_trip_iff (storeReachable_sampleActions _)).mpr ⟨?_, ?_, ?_⟩
  · decide +kernel
  · decide +kernel
  · decide +kernel

/-- An edge whose target was renamed and then deleted. -/
def danglingStore : Tables :=
  sampleActions [.operation (samplePut "history://a" "one"), .operation (samplePut "history://b" "two"),
    .addEdge (js "history://a") (js "history://b") none none, .operation renamed.operation,
    .operation (.deleteCascade (js "history://b"))]

/-- The export of such a store is refused by the import. -/
theorem snapshot_refused : StoreReachable danglingStore ∧ ¬ SnapshotRoundTrip danglingStore := by
  refine ⟨storeReachable_sampleActions _, ?_⟩
  rintro ⟨⟨copy, himp, _⟩, _⟩
  have href : (importSnapshot Tables.fresh (exportSnapshot danglingStore)).isOk = false := by
    decide +kernel
  rw [himp] at href
  exact nomatch href

end Sample

end PiRp.Memory

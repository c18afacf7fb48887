import PiRp.ExceptBind
import PiRp.JsMap
import PiRp.JsNumber
import PiRp.JsSplit
import PiRp.SqlRelation

/-! The tables of the memory database, `packages/memory/src/schema.ts`, with the statements that
`store.ts` runs on them. A table keeps its rows in the order of their rowids. The keys and unique
columns are part of the types: a statement that breaks one fails. -/

namespace PiRp.Memory

open List

inductive NodeSource where
  | auto
  | manual
  | imported
  deriving DecidableEq

/-- A row of `nodes`, without its key `node_id`. -/
structure NodeRow where
  parentId : Option JsStr
  domain : JsStr
  uri : JsStr
  content : JsStr
  disclosure : Option JsStr
  importance : JsNumber
  source : NodeSource
  model : Option JsStr
  anchorEntryId : Option JsStr
  anchorSessionId : Option JsStr
  firstRawId : Option Nat
  lastRawId : Option Nat
  createdAt : JsStr
  worldTs : Option JsStr
  updatedTs : JsStr
  lastAccessedAt : Option JsStr
  contentHash : JsStr
  isStub : Bool
  deriving DecidableEq

def uniqueFailed (column : String) : JsStr := js "UNIQUE constraint failed: " ++ js column

/-- The table `nodes`: `node_id` is the key, `uri` is unique. -/
structure NodeTable where
  rows : JsMap JsStr NodeRow
  uris_nodup : (rows.values.map NodeRow.uri).Nodup
  deriving DecidableEq

namespace NodeTable

def empty : NodeTable := ⟨.empty, nodup_nil⟩

def get? (table : NodeTable) (nodeId : JsStr) : Option NodeRow := table.rows.get? nodeId

/-- `SELECT * FROM nodes WHERE uri = ?`. -/
def byUri (table : NodeTable) (uri : JsStr) : Option (JsStr × NodeRow) :=
  table.rows.entries.find? fun entry => entry.2.uri = uri

/-- `SELECT * FROM nodes WHERE parent_id = ?`. -/
def children (table : NodeTable) (nodeId : JsStr) : List (JsStr × NodeRow) :=
  table.rows.entries.filter fun entry => entry.2.parentId = some nodeId

/-- `INSERT INTO nodes`. -/
def insert (table : NodeTable) (nodeId : JsStr) (row : NodeRow) : Except JsStr NodeTable :=
  if table.rows.has nodeId then .error (uniqueFailed "nodes.node_id")
  else if hnodup : ((table.rows.set nodeId row).values.map NodeRow.uri).Nodup then
    .ok ⟨table.rows.set nodeId row, hnodup⟩
  else .error (uniqueFailed "nodes.uri")

/-- `UPDATE nodes SET … WHERE node_id = ?`. -/
def update (table : NodeTable) (nodeId : JsStr) (change : NodeRow → NodeRow) :
    Except JsStr NodeTable :=
  if hnodup : ((table.rows.modify nodeId change).values.map NodeRow.uri).Nodup then
    .ok ⟨table.rows.modify nodeId change, hnodup⟩
  else .error (uniqueFailed "nodes.uri")

theorem modify_uris (rows : JsMap JsStr NodeRow) (nodeId : JsStr) {change : NodeRow → NodeRow}
    (hkeep : ∀ row, (change row).uri = row.uri) :
    (rows.modify nodeId change).values.map NodeRow.uri = rows.values.map NodeRow.uri := by
  simp only [JsMap.values, JsMap.modify, map_map]
  refine map_congr_left fun entry _ => ?_
  simp only [Function.comp_apply]
  split_ifs
  · exact hkeep entry.2
  · rfl

/-- An `UPDATE` that does not set the uri. -/
def modify (table : NodeTable) (nodeId : JsStr) (change : NodeRow → NodeRow)
    (hkeep : ∀ row, (change row).uri = row.uri) : NodeTable :=
  ⟨table.rows.modify nodeId change, (modify_uris table.rows nodeId hkeep) ▸ table.uris_nodup⟩

theorem filter_uris (rows : JsMap JsStr NodeRow) (condition : JsStr → NodeRow → Bool)
    (hnodup : (rows.values.map NodeRow.uri).Nodup) : ((rows.filter condition).values.map NodeRow.uri).Nodup := by
  refine hnodup.sublist ((List.Sublist.map _ ?_).map _)
  exact filter_sublist

/-- `DELETE FROM nodes WHERE node_id = ?`. -/
def delete (table : NodeTable) (nodeId : JsStr) : NodeTable :=
  ⟨table.rows.filter fun other _ => other ≠ nodeId, filter_uris _ _ table.uris_nodup⟩

/-- `INSERT OR REPLACE INTO nodes`: rows with the same id or uri give way. -/
def replace (table : NodeTable) (nodeId : JsStr) (row : NodeRow) : NodeTable where
  rows := (table.rows.filter fun other present => other ≠ nodeId && present.uri ≠ row.uri).set nodeId row
  uris_nodup := by
    have hnew : (table.rows.filter fun other present =>
        other ≠ nodeId && present.uri ≠ row.uri).has nodeId = false := by
      rw [← JsMap.get?_eq_none, JsMap.get?_filter]
      cases table.rows.get? nodeId with
      | none => rfl
      | some present => simp [Option.filter]
    rw [JsMap.values, JsMap.entries_set_of_new row hnew, map_append, map_append]
    refine nodup_append'.mpr ⟨filter_uris _ _ table.uris_nodup, nodup_singleton _, ?_⟩
    refine disjoint_singleton.mpr fun hmem => ?_
    obtain ⟨present, hpres, huri⟩ := mem_map.mp hmem
    obtain ⟨entry, hentry, rfl⟩ := mem_map.mp hpres
    have hkept := (mem_filter.mp hentry).2
    simp [huri] at hkept

end NodeTable

/-- A row of `node_revisions`. -/
structure RevisionRow where
  nodeId : JsStr
  version : Nat
  uri : Option JsStr
  content : JsStr
  editorSource : Option JsStr
  editorModel : Option JsStr
  createdAt : JsStr
  importance : Option JsNumber
  disclosure : Option JsStr
  worldTs : Option JsStr
  updatedTs : Option JsStr
  anchorEntryId : Option JsStr
  anchorSessionId : Option JsStr
  deriving DecidableEq

structure AliasRow where
  targetNodeId : JsStr
  disclosure : Option JsStr
  deriving DecidableEq

/-- A row of `edges` under its key, the node and the target uri. -/
structure EdgeRow where
  kind : Option JsStr
  disclosure : Option JsStr
  deriving DecidableEq

/-- A row of `node_fts`. -/
structure FtsRow where
  nodeId : JsStr
  text : JsStr
  disclosure : JsStr
  deriving DecidableEq

/-- A row of `raw_log`. -/
structure RawRow where
  rawId : Nat
  role : JsStr
  text : JsStr
  entryId : JsStr
  sessionId : JsStr
  active : Bool
  wallTs : JsStr
  worldTs : Option JsStr
  deriving DecidableEq

/-- A row of `raw_fts`. -/
structure RawFtsRow where
  rawId : Nat
  text : JsStr
  deriving DecidableEq

structure Tables where
  nodes : NodeTable
  revisions : List RevisionRow
  aliases : JsMap JsStr AliasRow
  edges : JsMap (JsStr × JsStr) EdgeRow
  glossary : JsMap JsStr JsStr
  nodeFts : List FtsRow
  rawLog : List RawRow
  rawFts : List RawFtsRow
  /-- The next number of the `AUTOINCREMENT` key of `raw_log`. -/
  nextRawId : Nat
  kv : JsMap JsStr JsStr
  deriving DecidableEq

/-- The tables `createSchema` makes. -/
def Tables.empty : Tables where
  nodes := .empty
  revisions := []
  aliases := .empty
  edges := .empty
  glossary := .empty
  nodeFts := []
  rawLog := []
  rawFts := []
  nextRawId := 1
  kv := .empty

/-- `INSERT OR REPLACE`: the new row comes last. -/
def replaceRow {κ β : Type*} [DecidableEq κ] (table : JsMap κ β) (key : κ) (value : β) : JsMap κ β :=
  (table.delete key).set key value

/-! ### Reading the node table -/

namespace NodeTable

variable {table : NodeTable} {nodeId uri : JsStr} {row : NodeRow}

theorem byUri_eq_some : table.byUri uri = some (nodeId, row) ↔ table.get? nodeId = some row ∧ row.uri = uri := by
  have hnodup : (table.rows.entries.map fun entry => entry.2.uri).Nodup := by
    have hnodup := table.uris_nodup
    rwa [JsMap.values, map_map] at hnodup
  rw [get?, JsMap.get?_eq_some]
  exact Sql.find?_key hnodup

theorem byUri_eq_none : table.byUri uri = none ↔ ∀ nodeId row, table.get? nodeId = some row → row.uri ≠ uri := by
  constructor
  · intro hnone nodeId row hget huri
    rw [byUri_eq_some.mpr ⟨hget, huri⟩] at hnone
    exact nomatch hnone
  · intro hall
    cases hfound : table.byUri uri with
    | none => rfl
    | some entry =>
      obtain ⟨hget, huri⟩ := byUri_eq_some.mp hfound
      exact absurd huri (hall _ _ hget)

theorem mem_children {child : JsStr × NodeRow} : child ∈ table.children nodeId ↔
    table.get? child.1 = some child.2 ∧ child.2.parentId = some nodeId := by
  rw [children, mem_filter, decide_eq_true_eq, get?, JsMap.get?_eq_some]

theorem insert_eq_ok {result : NodeTable} : table.insert nodeId row = .ok result →
    table.get? nodeId = none ∧ table.byUri row.uri = none ∧
      ∀ other, result.get? other = if other = nodeId then some row else table.get? other := by
  intro hins
  rw [insert] at hins
  split_ifs at hins with hhas hnodup
  obtain rfl := Except.ok.inj hins
  have hnew : table.get? nodeId = none := JsMap.get?_eq_none.mpr (Bool.not_eq_true _ ▸ hhas)
  refine ⟨hnew, byUri_eq_none.mpr fun other present hpres huri => ?_, JsMap.get?_set _ _ _⟩
  rw [JsMap.values, JsMap.entries_set_of_new row (Bool.not_eq_true _ ▸ hhas), map_append, map_append] at hnodup
  have hmem : present.uri ∈ table.rows.values.map NodeRow.uri :=
    mem_map.mpr ⟨present, mem_map.mpr ⟨_, JsMap.get?_eq_some.mp hpres, rfl⟩, rfl⟩
  exact disjoint_singleton.mp (nodup_append'.mp hnodup).2.2 (huri ▸ hmem)

theorem update_eq_ok {change : NodeRow → NodeRow} {result : NodeTable}
    (hupd : table.update nodeId change = .ok result) (other : JsStr) :
    result.get? other = if other = nodeId then (table.get? nodeId).map change else table.get? other := by
  rw [update] at hupd
  split_ifs at hupd with hnodup
  obtain rfl := Except.ok.inj hupd
  exact JsMap.get?_modify _ _ _ _

theorem get?_modify {change : NodeRow → NodeRow} {hkeep : ∀ row, (change row).uri = row.uri}
    (other : JsStr) : (table.modify nodeId change hkeep).get? other =
      if other = nodeId then (table.get? nodeId).map change else table.get? other :=
  JsMap.get?_modify _ _ _ _

theorem get?_delete (other : JsStr) :
    (table.delete nodeId).get? other = if other = nodeId then none else table.get? other := by
  rw [delete, get?, JsMap.get?_filter]
  by_cases hother : other = nodeId
  · rw [if_pos hother, hother]
    cases table.rows.get? nodeId with
    | none => rfl
    | some row => simp [Option.filter]
  · rw [if_neg hother, get?]
    cases table.rows.get? other with
    | none => rfl
    | some row => simp [Option.filter, hother]

theorem get?_replace (other : JsStr) : (table.replace nodeId row).get? other = if other = nodeId then some row
    else (table.get? other).filter fun present => present.uri ≠ row.uri := by
  rw [replace, get?, JsMap.get?_set, JsMap.get?_filter]
  split_ifs with hother
  · rfl
  · rw [get?]
    cases table.rows.get? other with
    | none => rfl
    | some present => simp [Option.filter, hother]

end NodeTable

end PiRp.Memory

import PiRp.MemoryTables
import PiRp.JsonText

/-! The memory store, `packages/memory/src/store.ts`: a tree of nodes under uris with aliases, revisions,
a glossary and two search indexes. A method is a function of the tables and of what the call takes from
its surroundings. A method that throws inside its transaction leaves the tables as they were. -/

namespace PiRp.Memory

open JsStr

/-- `tokenizeForSearch`. -/
class Tokenizer where
  tokenizeForSearch : JsStr → JsStr

/-- What a call takes from outside the tables. -/
structure Surroundings where
  /-- `new Date().toISOString()`. -/
  now : JsStr
  /-- The stamp of the real clock; without one the world clock counts. -/
  realStamp : Option JsStr
  /-- `generateId` for the node that is inserted under the uri. -/
  generateId : JsStr → JsStr
  /-- `setRevisionRetention`. -/
  revisionRetention : Option Nat

/-! ### Uris -/

def schemeMark : JsStr := js "://"

def slash : JsStr := js "/"

def uriDomain (uri : JsStr) : JsStr := (split schemeMark uri).headD uri

/-- The scheme with its separator, when there is exactly one. -/
def uriScheme (uri : JsStr) : JsStr :=
  match split schemeMark uri with
  | [scheme, _] => scheme ++ schemeMark
  | _ => []

def uriSegments (uri : JsStr) : List JsStr :=
  split slash ((split schemeMark uri).getLast?.getD [])

/-- The uris of the ancestors, from the root. -/
def ancestorUris (uri : JsStr) : List JsStr :=
  (List.range ((uriSegments uri).length - 1)).map fun index =>
    uriScheme uri ++ join slash ((uriSegments uri).take (index + 1))

def implicitParentUri (uri : JsStr) : Option JsStr :=
  if (uriSegments uri).length < 2 then none
  else some (uriScheme uri ++ join slash (uriSegments uri).dropLast)

/-- FNV-1a. -/
def hashContent (content : JsStr) : JsStr :=
  let hash : UInt32 :=
    content.foldl (fun hash unit => (hash ^^^ UInt32.ofNat unit.toNat) * 0x01000193) 0x811c9dc5
  let digits := (Nat.toDigits 16 hash.toNat).map fun digit => UInt16.ofNat digit.toNat
  List.replicate (8 - digits.length) 0x30 ++ digits

/-! ### Addressing -/

/-- A uri of a node comes before an alias of the same text. -/
def resolveUri (tables : Tables) (uri : JsStr) : Option (JsStr × NodeRow) :=
  match tables.nodes.byUri uri with
  | some node => some node
  | none =>
    (tables.aliases.get? uri).bind fun entry =>
      (tables.nodes.get? entry.targetNodeId).map fun row => (entry.targetNodeId, row)

/-- The node an entry denotes and the condition of the alias itself. -/
inductive UriEntry where
  | canonical (nodeId : JsStr)
  | alias (nodeId : JsStr) (disclosure : Option JsStr)

def resolveEntry (tables : Tables) (uri : JsStr) : Option UriEntry :=
  match tables.nodes.byUri uri with
  | some node => some (.canonical node.1)
  | none => (tables.aliases.get? uri).map fun entry => .alias entry.targetNodeId entry.disclosure

def nodeDisclosure (tables : Tables) (nodeId : JsStr) : Option JsStr :=
  (tables.nodes.get? nodeId).bind NodeRow.disclosure

def effectiveDisclosure (tables : Tables) (uri : JsStr) : Option JsStr :=
  match resolveEntry tables uri with
  | none => none
  | some (.canonical nodeId) => nodeDisclosure tables nodeId
  | some (.alias nodeId disclosure) =>
    match disclosure with
    | some disclosure => some disclosure
    | none => nodeDisclosure tables nodeId

/-! ### The search index -/

section Index

variable [Tokenizer]

/-- The row of a node in the index: its uri, content and keywords, and its condition. Stubs have none. -/
def ftsRow (glossary : JsMap JsStr JsStr) (nodeId : JsStr) (node : NodeRow) : Option FtsRow :=
  if node.isStub then none
  else
    let keywords := (glossary.entries.filter fun entry => entry.2 = nodeId).map Prod.fst
    let text := Tokenizer.tokenizeForSearch (join (js " ") [node.uri, node.content])
    let extra := join (js " ") (keywords.filter fun keyword => trim keyword ≠ [])
    let text := if extra = [] then text else text ++ js " " ++ extra
    let disclosure := Tokenizer.tokenizeForSearch (node.disclosure.getD [])
    if text = [] ∧ disclosure = [] then none else some ⟨nodeId, text, disclosure⟩

def reindexNode (tables : Tables) (nodeId : JsStr) : Tables :=
  match tables.nodes.get? nodeId with
  | none => tables
  | some node =>
    { tables with
      nodeFts := tables.nodeFts.filter (fun row => row.nodeId ≠ nodeId) ++
        (ftsRow tables.glossary nodeId node).toList }

/-- `reindexAll`. -/
def reindexAll (tables : Tables) : Tables :=
  ((tables.nodes.rows.entries.filter fun entry => !entry.2.isStub).map Prod.fst).foldl reindexNode tables

/-! ### Revisions -/

/-- `string | null` fields of the place a write happened at. -/
structure RevisionAnchor where
  anchorEntryId : Option JsStr
  anchorSessionId : Option JsStr
  deriving DecidableEq

def currentVersion (tables : Tables) (nodeId : JsStr) : Nat :=
  ((tables.revisions.filter fun row => row.nodeId = nodeId).map RevisionRow.version).foldl max 0

/-- The versions of the node above the limit are dropped, the oldest first. -/
def applyRevisionRetention (tables : Tables) (around : Surroundings) (nodeId : JsStr) : Tables :=
  match around.revisionRetention with
  | none => tables
  | some limit =>
    let versions := (Sql.orderBy RevisionRow.version .desc
      (tables.revisions.filter fun row => row.nodeId = nodeId)).map RevisionRow.version
    { tables with
      revisions := tables.revisions.filter fun row =>
        row.nodeId ≠ nodeId || row.version ∈ versions.take limit }

/-- A revision is a snapshot of the node after the write. -/
def archiveRevision (tables : Tables) (around : Surroundings) (nodeId content : JsStr)
    (editorSource editorModel uri : Option JsStr) (snapshot : Option NodeRow)
    (anchor : Option RevisionAnchor) : Tables × Nat :=
  let version := currentVersion tables nodeId + 1
  let row : RevisionRow := {
    nodeId, version, uri, content, editorSource, editorModel
    createdAt := around.now
    importance := snapshot.map NodeRow.importance
    disclosure := snapshot.bind NodeRow.disclosure
    worldTs := snapshot.bind NodeRow.worldTs
    updatedTs := snapshot.map NodeRow.updatedTs
    anchorEntryId := anchor.bind RevisionAnchor.anchorEntryId
    anchorSessionId := anchor.bind RevisionAnchor.anchorSessionId }
  (applyRevisionRetention { tables with revisions := tables.revisions ++ [row] } around nodeId, version)

/-! ### Insertion -/

/-- Fields that can be left out; those of `Option (Option _)` can also be null. -/
structure NodeInput where
  uri : JsStr
  content : JsStr
  parentUri : Option JsStr := none
  disclosure : Option (Option JsStr) := none
  importance : Option JsNumber := none
  source : Option NodeSource := none
  model : Option (Option JsStr) := none
  anchorEntryId : Option (Option JsStr) := none
  anchorSessionId : Option (Option JsStr) := none
  firstRawId : Option (Option Nat) := none
  lastRawId : Option (Option Nat) := none
  worldTs : Option (Option JsStr) := none

/-- A text counts as a condition when it is there and not empty. -/
def textual (text : Option JsStr) : Option JsStr := text.filter fun text => text ≠ []

/-- The anchors of an input when both are there. -/
def NodeInput.anchor (input : NodeInput) : Option RevisionAnchor :=
  (textual input.anchorEntryId.join).bind fun entryId =>
    (textual input.anchorSessionId.join).map fun sessionId => ⟨some entryId, some sessionId⟩

def worldTimeKey : JsStr := js "world_time"

def nowStamp (tables : Tables) (around : Surroundings) : Option JsStr :=
  match around.realStamp with
  | some stamp => some stamp
  | none => tables.kv.get? worldTimeKey

def NodeSource.text : NodeSource → JsStr
  | .auto => js "auto"
  | .manual => js "manual"
  | .imported => js "import"

def parentOf (tables : Tables) (parentUri : Option JsStr) : Option JsStr :=
  ((textual parentUri).bind (resolveUri tables)).map Prod.fst

def newRow (tables : Tables) (around : Surroundings) (input : NodeInput) (isStub : Bool) : NodeRow where
  parentId := parentOf tables input.parentUri
  domain := uriDomain input.uri
  uri := input.uri
  content := input.content
  disclosure := input.disclosure.join
  importance := input.importance.getD (.int 5)
  source := input.source.getD .manual
  model := input.model.join
  anchorEntryId := input.anchorEntryId.join
  anchorSessionId := input.anchorSessionId.join
  firstRawId := input.firstRawId.join
  lastRawId := input.lastRawId.join
  createdAt := around.now
  worldTs := input.worldTs.join.or (nowStamp tables around)
  updatedTs := around.now
  lastAccessedAt := none
  contentHash := hashContent input.content
  isStub

/-- What follows the `INSERT`: the index, and the birth revision of an anchored node. -/
def recordInsert (tables : Tables) (around : Surroundings) (input : NodeInput) (isStub : Bool)
    (nodeId : JsStr) (row : NodeRow) : Tables :=
  if isStub then tables
  else
    match input.anchor with
    | none => reindexNode tables nodeId
    | some anchor =>
      (archiveRevision (reindexNode tables nodeId) around nodeId input.content
        (some row.source.text) input.model.join (some input.uri) (some row) (some anchor)).1

/-- `_insertNode`, with the id it uses. -/
def insertNodeAs (tables : Tables) (around : Surroundings) (input : NodeInput) (isStub : Bool)
    (nodeId : JsStr) : Except JsStr Tables := do
  let row := newRow tables around input isStub
  let nodes ← tables.nodes.insert nodeId row
  return recordInsert { tables with nodes } around input isStub nodeId row

def insertNode (tables : Tables) (around : Surroundings) (input : NodeInput) : Except JsStr Tables :=
  insertNodeAs tables around input false (around.generateId input.uri)

/-- An input with a source and nothing else. -/
def plainInput (uri content : JsStr) (source : NodeSource) : NodeInput where
  uri := uri
  content := content
  source := some source

def stubInput (uri : JsStr) (parentUri : Option JsStr) : NodeInput :=
  { plainInput uri [] .manual with parentUri }

/-- The loop of `ensureStubAncestors` over the uris of the ancestors. -/
def stubAncestors (around : Surroundings) : List JsStr → Tables → Option JsStr →
    Except JsStr Tables
  | [], tables, _ => .ok tables
  | ancestor :: rest, tables, parentUri =>
    match resolveUri tables ancestor with
    | some _ => stubAncestors around rest tables (some ancestor)
    | none => do
        let tables ← insertNodeAs tables around (stubInput ancestor parentUri) true
          (around.generateId ancestor)
        stubAncestors around rest tables (some ancestor)

def ensureStubAncestors (tables : Tables) (around : Surroundings) (uri : JsStr)
    (explicitParent : Option JsStr) : Except JsStr Tables :=
  match textual explicitParent with
  | some _ => .ok tables
  | none => stubAncestors around (ancestorUris uri) tables none

/-! ### Updates -/

structure NodePatch where
  content : Option JsStr := none
  disclosure : Option (Option JsStr) := none
  importance : Option JsNumber := none
  editorSource : Option NodeSource := none
  editorModel : Option (Option JsStr) := none
  model : Option (Option JsStr) := none
  anchorEntryId : Option (Option JsStr) := none
  anchorSessionId : Option (Option JsStr) := none
  firstRawId : Option (Option Nat) := none
  lastRawId : Option (Option Nat) := none
  worldTs : Option (Option JsStr) := none

def NodePatch.apply (patch : NodePatch) (now : JsStr) (row : NodeRow) : NodeRow :=
  { row with
    content := patch.content.getD row.content
    disclosure := patch.disclosure.getD row.disclosure
    importance := patch.importance.getD row.importance
    model := patch.model.getD row.model
    anchorEntryId := patch.anchorEntryId.getD row.anchorEntryId
    anchorSessionId := patch.anchorSessionId.getD row.anchorSessionId
    firstRawId := patch.firstRawId.getD row.firstRawId
    lastRawId := patch.lastRawId.getD row.lastRawId
    worldTs := patch.worldTs.getD row.worldTs
    updatedTs := now }

def applyPatchColumns (tables : Tables) (around : Surroundings) (nodeId : JsStr)
    (patch : NodePatch) : Tables :=
  { tables with nodes := tables.nodes.modify nodeId (patch.apply around.now) fun _ => rfl }

/-- The content is given and differs. -/
def NodePatch.changesContent (patch : NodePatch) (node : NodeRow) : Bool :=
  match patch.content with
  | none => false
  | some content => content ≠ node.content

def NodePatch.changesAttributes (patch : NodePatch) (node : NodeRow) : Bool :=
  (match patch.importance with | none => false | some importance => importance ≠ node.importance) ||
    (match patch.disclosure with | none => false | some disclosure => disclosure ≠ node.disclosure) ||
    match patch.worldTs with | none => false | some worldTs => worldTs ≠ node.worldTs

/-- A content turns a stub into a node, without a revision. -/
def promoteStub (tables : Tables) (around : Surroundings) (nodeId : JsStr) (patch : NodePatch) :
    Tables :=
  let tables := applyPatchColumns tables around nodeId patch
  reindexNode { tables with
    nodes := tables.nodes.modify nodeId (fun row => { row with
      isStub := false
      contentHash := hashContent (patch.content.getD [])
      updatedTs := around.now }) fun _ => rfl } nodeId

/-- `archiveRevision` with the state of the node after an update. -/
def archiveUpdate (tables : Tables) (around : Surroundings) (nodeId content : JsStr)
    (patch : NodePatch) (uri : JsStr) (provenance : Option RevisionAnchor) : Tables × Nat :=
  archiveRevision tables around nodeId content (patch.editorSource.map NodeSource.text)
    patch.editorModel.join (some uri) (tables.nodes.get? nodeId) provenance

/-- The content stays: a revision is archived when an attribute changes. -/
def touchNode (tables : Tables) (around : Surroundings) (nodeId : JsStr) (node : NodeRow)
    (patch : NodePatch) (provenance : Option RevisionAnchor) : Tables × Nat :=
  let tables := applyPatchColumns tables around nodeId patch
  let tables := if patch.disclosure.isSome then reindexNode tables nodeId else tables
  let tables :=
    if patch.changesAttributes node then
      (archiveUpdate tables around nodeId node.content patch node.uri provenance).1
    else tables
  (tables, currentVersion tables nodeId)

def rewriteNode (tables : Tables) (around : Surroundings) (nodeId : JsStr) (node : NodeRow)
    (patch : NodePatch) (provenance : Option RevisionAnchor) : Tables × Nat :=
  let content := patch.content.getD []
  let tables := applyPatchColumns tables around nodeId patch
  let tables := { tables with
    nodes := tables.nodes.modify nodeId (fun row => { row with
      contentHash := hashContent content
      updatedTs := around.now }) fun _ => rfl }
  archiveUpdate (reindexNode tables nodeId) around nodeId content patch node.uri provenance

/-- `_updateNode`, with the version it returns. -/
def updateNode (tables : Tables) (around : Surroundings) (nodeId : JsStr) (patch : NodePatch)
    (provenance : Option RevisionAnchor) : Except JsStr (Tables × Nat) :=
  match tables.nodes.get? nodeId with
  | none => .error (js "updateNode: unknown node " ++ nodeId)
  | some node =>
    .ok (if patch.changesContent node then
        if node.isStub then (promoteStub tables around nodeId patch, 0)
        else rewriteNode tables around nodeId node patch provenance
      else touchNode tables around nodeId node patch provenance)

/-- The patch `put` makes of its input. -/
def NodeInput.patch (input : NodeInput) : NodePatch where
  content := some input.content
  disclosure := input.disclosure
  importance := input.importance
  model := input.model
  anchorEntryId := input.anchorEntryId
  anchorSessionId := input.anchorSessionId
  firstRawId := input.firstRawId
  lastRawId := input.lastRawId
  worldTs := input.worldTs

/-- `put`: an upsert by uri that creates missing ancestors as stubs. -/
def put (tables : Tables) (around : Surroundings) (input : NodeInput) : Except JsStr Tables :=
  match resolveUri tables input.uri with
  | some existing => (updateNode tables around existing.1 input.patch input.anchor).map Prod.fst
  | none => do
      let tables ← ensureStubAncestors tables around input.uri input.parentUri
      insertNode tables around
        { input with parentUri := input.parentUri.or (implicitParentUri input.uri) }

/-! ### Deletion and recovery -/

def stackOverflow : JsStr := js "Maximum call stack size exceeded"

/-- Everything of a node but its children goes; its last state is archived. -/
def dropNode (tables : Tables) (around : Surroundings) (nodeId : JsStr) (node : NodeRow) : Tables :=
  let tables := { tables with
    nodeFts := tables.nodeFts.filter fun row => row.nodeId ≠ nodeId
    aliases := tables.aliases.filter fun _ entry => entry.targetNodeId ≠ nodeId
    edges := tables.edges.filter fun key _ => key.1 ≠ nodeId && key.2 ≠ node.uri
    glossary := tables.glossary.filter fun _ owner => owner ≠ nodeId }
  let tables := (archiveRevision tables around nodeId node.content (some node.source.text) node.model
    (some node.uri) (some node) none).1
  { tables with
    revisions := tables.revisions.map fun row =>
      if row.nodeId = nodeId then { row with uri := row.uri.or (some node.uri) } else row
    nodes := tables.nodes.delete nodeId }

/-- The loop over the children, as they were when the node was reached. -/
def deleteAll (delete : Tables → JsStr → Except JsStr Tables) :
    List JsStr → Tables → Except JsStr Tables
  | [], tables => .ok tables
  | child :: rest, tables => do
      let tables ← delete tables child
      deleteAll delete rest tables

/-- `_deleteCascade`. Deeper than there are nodes the recursion has met a cycle and does not end. -/
def deleteCascadeFrom (around : Surroundings) : Nat → Tables → JsStr → Except JsStr Tables
  | 0, _, _ => .error stackOverflow
  | depth + 1, tables, nodeId =>
    match tables.nodes.get? nodeId with
    | none => .ok tables
    | some node => do
        let tables ← deleteAll (deleteCascadeFrom around depth)
          ((tables.nodes.children nodeId).map Prod.fst) tables
        return dropNode tables around nodeId node

def deleteCascade (tables : Tables) (around : Surroundings) (nodeId : JsStr) :
    Except JsStr Tables :=
  deleteCascadeFrom around (tables.nodes.rows.entries.length + 1) tables nodeId

/-- The revision of the uri with the version, or the newest one. -/
def revisionOf (tables : Tables) (uri : JsStr) (version : Option Nat) : Option RevisionRow :=
  let rows := tables.revisions.filter fun row => row.uri = some uri
  match version with
  | none => (Sql.orderBy RevisionRow.version .desc rows).head?
  | some version => rows.find? fun row => row.version = version

def restoreDeleted (tables : Tables) (around : Surroundings) (uri : JsStr) (version : Option Nat) :
    Except JsStr Tables :=
  match resolveUri tables uri, revisionOf tables uri version with
  | some _, _ => .error (js "restoreDeleted: " ++ uri ++ js " still exists")
  | none, none => .error (match version with
      | none => js "restoreDeleted: no revisions for " ++ uri
      | some version => js "restoreDeleted: no version " ++ decimal version ++ js " for " ++ uri)
  | none, some revision => do
      let tables ← insertNodeAs tables around (plainInput uri revision.content .imported)
        false revision.nodeId
      let tables ← ensureStubAncestors tables around uri none
      let parentId := (implicitParentUri uri).bind fun parentUri => (resolveUri tables parentUri).map Prod.fst
      return { tables with
        nodes := tables.nodes.modify revision.nodeId (fun row => { row with parentId }) fun _ => rfl }

def restoreRevision (tables : Tables) (around : Surroundings) (nodeId : JsStr) (version : Nat)
    (provenance : Option RevisionAnchor) : Except JsStr Tables :=
  match tables.revisions.find? fun row => row.nodeId = nodeId ∧ row.version = version with
  | none => .error (js "restoreRevision: no version " ++ decimal version ++ js " for " ++ nodeId)
  | some revision =>
    (updateNode tables around nodeId { content := some revision.content } provenance).map Prod.fst

end Index

end PiRp.Memory

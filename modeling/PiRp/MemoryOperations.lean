import PiRp.MemoryStore

/-! The operations of the memory store: relocation, aliases, the glossary, the raw log, the projection of
a branch, import and seed, and runs of operations. -/

namespace PiRp.Memory

/-! ### Relocation -/

/-- One move; without a condition the members keep theirs. -/
structure Move where
  fromUri : JsStr
  toUri : JsStr
  condition : Option (Option JsStr) := none

/-- A node of a moved subtree with its path below the root of the subtree. -/
structure Member where
  nodeId : JsStr
  node : NodeRow
  rel : JsStr

structure Plan where
  fromUri : JsStr
  toRoot : JsStr
  condition : Option (Option JsStr)
  members : List Member

def Plan.changed (plan : Plan) : Bool := plan.toRoot ≠ plan.fromUri

/-- `newUri = toRoot + rel`. -/
def rewriteUri (toRoot rel : JsStr) : JsStr :=
  if rel = [] then toRoot
  else
    (if toRoot.getLast? = some 0x2F then toRoot.dropLast else toRoot) ++ slash ++ rel

def Plan.newUri (plan : Plan) (member : Member) : JsStr := rewriteUri plan.toRoot member.rel

def isInSubtree (uri ancestorUri : JsStr) : Bool :=
  uri = ancestorUri || JsStr.startsWith uri (ancestorUri ++ slash)

/-- `children`, in the order they were created. -/
def childNodes (tables : Tables) (nodeId : JsStr) : List (JsStr × NodeRow) :=
  Sql.orderByText (fun child => child.2.createdAt) (tables.nodes.children nodeId)

def childRel (rel uri : JsStr) : JsStr :=
  let last := ((JsStr.split slash uri).getLast?).getD []
  if rel = [] then last else rel ++ slash ++ last

/-- The results for the items of a list, joined. -/
def collect {α β ε : Type} (visit : α → Except ε (List β)) : List α → Except ε (List β)
  | [] => .ok []
  | item :: rest => do
      let first ← visit item
      let others ← collect visit rest
      return first ++ others

/-- The walk down of `_subtreeMembers`. Deeper than there are nodes it has met a cycle. -/
def walk (tables : Tables) : Nat → JsStr → JsStr → Except JsStr (List Member)
  | 0, _, _ => .error stackOverflow
  | depth + 1, nodeId, rel =>
    collect (fun child => do
      let below ← walk tables depth child.1 (childRel rel child.2.uri)
      return ⟨child.1, child.2, childRel rel child.2.uri⟩ :: below) (childNodes tables nodeId)

def subtreeMembers (tables : Tables) (root : JsStr × NodeRow) : Except JsStr (List Member) := do
  let below ← walk tables (tables.nodes.rows.entries.length + 1) root.1 []
  return ⟨root.1, root.2, []⟩ :: below

def movedIds (plans : List Plan) : List JsStr :=
  plans.flatMap fun plan => plan.members.map Member.nodeId

/-- The first pass: the sources with their subtrees. -/
def planMoves (tables : Tables) : List Move → List Plan → Except JsStr (List Plan)
  | [], plans => .ok plans
  | move :: rest, plans =>
    match resolveUri tables move.fromUri with
    | none => .error (js "relocate: unknown uri " ++ move.fromUri)
    | some node => do
        let members ← subtreeMembers tables node
        match members.find? fun member => member.nodeId ∈ movedIds plans with
        | some member =>
          .error (js "relocate: sources overlap (" ++ member.node.uri ++ js " moved twice)")
        | none =>
          planMoves tables rest (plans ++ [⟨node.2.uri, move.toUri, move.condition, members⟩])

/-- The targets do not collide and do not lie inside a source. -/
def checkTargets (sources : List JsStr) : List JsStr → List JsStr → Except JsStr Unit
  | _, [] => .ok ()
  | rewritten, newUri :: rest =>
    if newUri ∈ rewritten then .error (js "relocate: targets collide at " ++ newUri)
    else
      match sources.find? (isInSubtree newUri) with
      | some source =>
        .error (js "relocate: target " ++ newUri ++ js " nested inside source " ++ source)
      | none => checkTargets sources (newUri :: rewritten) rest

/-- A target resolves to a moved node or to none. -/
def checkOccupants (tables : Tables) (moved : List JsStr) : List JsStr → Except JsStr Unit
  | [] => .ok ()
  | newUri :: rest =>
    match resolveUri tables newUri with
    | some occupant =>
      if occupant.1 ∈ moved then checkOccupants tables moved rest
      else .error (js "relocate: target occupied by " ++ occupant.2.uri)
    | none => checkOccupants tables moved rest

def Plan.newUris (plan : Plan) : List JsStr := plan.members.map plan.newUri

/-- All checks before the first write. -/
def checkPlans (tables : Tables) (plans : List Plan) : Except JsStr Unit := do
  checkTargets (plans.map Plan.fromUri) [] ((plans.filter Plan.changed).flatMap Plan.newUris)
  checkOccupants tables (movedIds plans) (plans.flatMap Plan.newUris)

section Relocate

variable [Tokenizer]

/-- One member moves; its old uri becomes an alias that carries its condition. -/
def moveMember (around : Surroundings) (plan : Plan) (parentId : Option JsStr) (tables : Tables)
    (member : Member) : Except JsStr Tables := do
  let prior := effectiveDisclosure tables member.node.uri
  let nodes ← tables.nodes.update member.nodeId fun row => { row with
    uri := plan.newUri member
    domain := uriDomain plan.toRoot
    parentId := if member.rel = [] then parentId else row.parentId
    updatedTs := around.now }
  return reindexNode { tables with
    nodes
    aliases := tables.aliases.set member.node.uri ⟨member.nodeId, plan.condition.getD prior⟩ }
    member.nodeId

def moveMembers (around : Surroundings) (plan : Plan) (parentId : Option JsStr) :
    List Member → Tables → Except JsStr Tables
  | [], tables => .ok tables
  | member :: rest, tables => do
      let tables ← moveMember around plan parentId tables member
      moveMembers around plan parentId rest tables

variable [JsonText.NumberText]

/-- `INSERT OR REPLACE INTO memory_kv`. -/
def setKv (tables : Tables) (key value : JsStr) : Tables :=
  { tables with kv := replaceRow tables.kv key value }

def awakenKey : JsStr := js "awaken_uris"

/-- The entries of the list below the old uri move with it. -/
def remapEntry (fromPrefix toPrefix : JsStr) : Json → Json
  | .string uri =>
    if isInSubtree uri fromPrefix then .string (toPrefix ++ uri.drop fromPrefix.length)
    else .string uri
  | entry => entry

def remapAwakenUris (tables : Tables) (fromPrefix toPrefix : JsStr) : Tables :=
  match (tables.kv.get? awakenKey).bind JsonText.parse with
  | some (.array list) =>
    if list.map (remapEntry fromPrefix toPrefix) = list then tables
    else setKv tables awakenKey (JsonText.stringify (.array (list.map (remapEntry fromPrefix toPrefix))))
  | _ => tables

/-- The third pass for one plan. -/
def applyPlan (around : Surroundings) (tables : Tables) (plan : Plan) : Except JsStr Tables :=
  if plan.changed then do
    let tables ← ensureStubAncestors tables around plan.toRoot none
    let parentId :=
      (implicitParentUri plan.toRoot).bind fun parentUri => (resolveUri tables parentUri).map Prod.fst
    let tables ← moveMembers around plan parentId plan.members tables
    return remapAwakenUris tables plan.fromUri plan.toRoot
  else .ok tables

def applyPlans (around : Surroundings) : List Plan → Tables → Except JsStr Tables
  | [], tables => .ok tables
  | plan :: rest, tables => do
      let tables ← applyPlan around tables plan
      applyPlans around rest tables

def relocateMany (tables : Tables) (around : Surroundings) (moves : List Move) :
    Except JsStr Tables := do
  let plans ← planMoves tables moves []
  checkPlans tables plans
  applyPlans around plans tables

def consolidateGroup (tables : Tables) (around : Surroundings) (theme : NodeInput)
    (moves : List Move) : Except JsStr Tables := do
  let tables ← put tables around theme
  relocateMany tables around moves

end Relocate

/-! ### Aliases and the glossary -/

/-- The row of an upsert: a value that is left out keeps the present one. -/
def upsertDisclosure (present : Option (Option JsStr)) (disclosure : Option (Option JsStr)) :
    Option JsStr :=
  disclosure.getD present.join

def addAlias (tables : Tables) (aliasUri targetNodeId : JsStr)
    (disclosure : Option (Option JsStr)) : Tables :=
  { tables with
    aliases := tables.aliases.set aliasUri ⟨targetNodeId,
      upsertDisclosure ((tables.aliases.get? aliasUri).map AliasRow.disclosure) disclosure⟩ }

section Glossary

variable [Tokenizer]

def addGlossaryEntry (tables : Tables) (keyword nodeId : JsStr) : Tables :=
  reindexNode { tables with glossary := replaceRow tables.glossary keyword nodeId } nodeId

def removeGlossaryEntry (tables : Tables) (keyword : JsStr) : Tables :=
  match tables.glossary.get? keyword with
  | none => { tables with glossary := tables.glossary.delete keyword }
  | some nodeId => reindexNode { tables with glossary := tables.glossary.delete keyword } nodeId

/-! ### The raw log -/

structure RawEntry where
  role : JsStr
  text : JsStr
  entryId : JsStr
  sessionId : JsStr
  wallTs : JsStr
  worldTs : Option JsStr

/-- The row of a raw text in its index. -/
def rawFtsRow (rawId : Nat) (text : JsStr) : Option RawFtsRow :=
  let tokens := Tokenizer.tokenizeForSearch text
  if tokens = [] then none else some ⟨rawId, tokens⟩

def reindexRawFts (tables : Tables) (rawId : Nat) (text : JsStr) : Tables :=
  { tables with
    rawFts := tables.rawFts.filter (fun row => row.rawId ≠ rawId) ++ (rawFtsRow rawId text).toList }

/-- A row keeps its number and world time for good. -/
def upsertRaw (tables : Tables) (entry : RawEntry) : Tables :=
  match tables.rawLog.find? fun row => row.sessionId = entry.sessionId ∧ row.entryId = entry.entryId with
  | some existing =>
    reindexRawFts { tables with
      rawLog := tables.rawLog.map fun row =>
        if row.rawId = existing.rawId then
          { row with role := entry.role, text := entry.text, active := true, wallTs := entry.wallTs,
                     worldTs := existing.worldTs }
        else row } existing.rawId entry.text
  | none =>
    reindexRawFts { tables with
      rawLog := tables.rawLog ++ [⟨tables.nextRawId, entry.role, entry.text, entry.entryId,
        entry.sessionId, true, entry.wallTs, entry.worldTs⟩]
      nextRawId := tables.nextRawId + 1 } tables.nextRawId entry.text

def appendRaw (tables : Tables) (entries : List RawEntry) : Tables := entries.foldl upsertRaw tables

def syncRawBranch (tables : Tables) (sessionId : JsStr) (entries : List RawEntry) : Tables :=
  let tables := appendRaw tables (entries.map fun entry => { entry with sessionId })
  { tables with
    rawLog := tables.rawLog.map fun row =>
      if row.sessionId = sessionId ∧ row.entryId ∉ entries.map RawEntry.entryId then
        { row with active := false }
      else row }

/-! ### The projection of a branch -/

/-- A revision applies unless the session has written it at an entry that is not on the path. -/
def RevisionRow.applies (row : RevisionRow) (sessionId : JsStr) (active : List JsStr) : Bool :=
  match textual row.anchorSessionId, textual row.anchorEntryId with
  | some session, some entry => session ≠ sessionId || entry ∈ active
  | _, _ => true

/-- The revisions of a node, the oldest first. -/
def revisionChain (tables : Tables) (nodeId : JsStr) : List RevisionRow :=
  Sql.orderBy RevisionRow.version .asc (tables.revisions.filter fun row => row.nodeId = nodeId)

/-- The newest revision that applies, or the first one. -/
def projectionSource (chain : List RevisionRow) (sessionId : JsStr) (active : List JsStr) :
    Option RevisionRow :=
  (chain.reverse.find? fun row => row.applies sessionId active).or chain.head?

def RevisionRow.paint (source : RevisionRow) (node : NodeRow) : NodeRow :=
  { node with
    content := source.content
    importance := source.importance.getD node.importance
    disclosure := source.disclosure
    worldTs := source.worldTs
    updatedTs := source.updatedTs.getD node.updatedTs
    contentHash := hashContent source.content }

/-- The row already has the values of the revision. -/
def RevisionRow.isPainted (source : RevisionRow) (node : NodeRow) : Bool :=
  node.content = source.content && node.importance = source.importance.getD node.importance &&
    node.disclosure = source.disclosure && node.worldTs = source.worldTs &&
    node.updatedTs = source.updatedTs.getD node.updatedTs

def reconcileNode (sessionId : JsStr) (active : List JsStr) (tables : Tables)
    (nodeId : JsStr) : Tables :=
  match tables.nodes.get? nodeId, projectionSource (revisionChain tables nodeId) sessionId active with
  | some node, some source =>
    if source.isPainted node then tables
    else
      reindexNode { tables with nodes := tables.nodes.modify nodeId source.paint fun _ => rfl } nodeId
  | _, _ => tables

/-- The nodes a session has written to, each once. -/
def writtenNodes (tables : Tables) (sessionId : JsStr) : List JsStr :=
  ((tables.revisions.filter fun row => row.anchorSessionId = some sessionId).map
    RevisionRow.nodeId).dedup

def reconcileNodeProjections (tables : Tables) (sessionId : JsStr) (active : List JsStr) :
    Tables :=
  (writtenNodes tables sessionId).foldl (reconcileNode sessionId active) tables

end Glossary

/-! ### Import and seed -/

structure ExportSnapshot where
  nodes : List (JsStr × NodeRow)
  revisions : List RevisionRow
  kv : List (JsStr × JsStr)
  aliases : List (JsStr × JsStr × Option (Option JsStr))
  edges : List ((JsStr × JsStr) × Option JsStr × Option (Option JsStr))
  glossary : List (JsStr × JsStr)

section Import

variable [Tokenizer]

def importNode (tables : Tables) (node : JsStr × NodeRow) : Tables :=
  let tables := { tables with nodes := tables.nodes.replace node.1 node.2 }
  if node.2.isStub then tables else reindexNode tables node.1

def importRevision (tables : Tables) (row : RevisionRow) : Tables :=
  { tables with
    revisions := tables.revisions.filter (fun other =>
      ¬ (other.nodeId = row.nodeId ∧ other.version = row.version)) ++ [row] }

def schemaVersionKey : JsStr := js "schema_version"

def importKv (tables : Tables) (entry : JsStr × JsStr) : Tables :=
  if entry.1 = schemaVersionKey then tables else setKv tables entry.1 entry.2

def importAliases : List (JsStr × JsStr × Option (Option JsStr)) → Tables →
    Except JsStr Tables
  | [], tables => .ok tables
  | (aliasUri, targetNodeId, disclosure) :: rest, tables =>
    match tables.nodes.get? targetNodeId with
    | none =>
      .error (js "import: alias " ++ aliasUri ++ js " targets missing node " ++ targetNodeId)
    | some _ => importAliases rest (addAlias tables aliasUri targetNodeId disclosure)

def importEdges : List ((JsStr × JsStr) × Option JsStr × Option (Option JsStr)) → Tables →
    Except JsStr Tables
  | [], tables => .ok tables
  | (key, kind, disclosure) :: rest, tables =>
    match tables.nodes.get? key.1, resolveUri tables key.2 with
    | none, _ => .error (js "import: edge from missing node " ++ key.1)
    | some _, none => .error (js "import: edge target missing " ++ key.2)
    | some _, some _ =>
      importEdges rest { tables with
        edges := tables.edges.set key ⟨kind,
          upsertDisclosure ((tables.edges.get? key).map EdgeRow.disclosure) disclosure⟩ }

def importGlossary : List (JsStr × JsStr) → Tables → Except JsStr Tables
  | [], tables => .ok tables
  | (keyword, nodeId) :: rest, tables =>
    match tables.nodes.get? nodeId with
    | none => .error (js "import: glossary " ++ keyword ++ js " targets missing node " ++ nodeId)
    | some _ => importGlossary rest { tables with glossary := replaceRow tables.glossary keyword nodeId }

def importSnapshot (tables : Tables) (snapshot : ExportSnapshot) : Except JsStr Tables := do
  let tables := snapshot.nodes.foldl importNode tables
  let tables := snapshot.revisions.foldl importRevision tables
  let tables := snapshot.kv.foldl importKv tables
  let tables ← importAliases snapshot.aliases tables
  let tables ← importEdges snapshot.edges tables
  let tables ← importGlossary snapshot.glossary tables
  return ((snapshot.glossary.map Prod.snd).dedup).foldl reindexNode tables

def seedNode (around : Surroundings) (tables : Tables) (uri content : JsStr) :
    Except JsStr Tables :=
  match resolveUri tables uri with
  | some _ => .ok tables
  | none => insertNode tables around (plainInput uri content .manual)

def seed (tables : Tables) (around : Surroundings) : Except JsStr Tables := do
  let tables := setKv tables schemaVersionKey (js "4")
  let tables ← seedNode around tables (js "index://") (js "Index domain root")
  let tables ← seedNode around tables (js "history://") (js "Scene summary domain")
  seedNode around tables (js "meta://") (js "Meta domain (consolidated themes)")

end Import

/-! ### Runs -/

inductive Operation where
  | put (input : NodeInput)
  | insertNode (input : NodeInput)
  | updateNode (nodeId : JsStr) (patch : NodePatch) (provenance : Option RevisionAnchor)
  | addAlias (aliasUri targetNodeId : JsStr) (disclosure : Option (Option JsStr))
  | relocateMany (moves : List Move)
  | rename (oldUri newUri : JsStr)
  | consolidateGroup (theme : NodeInput) (moves : List Move)
  | deleteCascade (nodeId : JsStr)
  | restoreDeleted (uri : JsStr) (version : Option Nat)
  | restoreRevision (nodeId : JsStr) (version : Nat) (provenance : Option RevisionAnchor)
  | addGlossaryEntry (keyword nodeId : JsStr)
  | removeGlossaryEntry (keyword : JsStr)
  | reconcileNodeProjections (sessionId : JsStr) (activeEntryIds : List JsStr)
  | appendRaw (entries : List RawEntry)
  | syncRawBranch (sessionId : JsStr) (entries : List RawEntry)
  | importSnapshot (snapshot : ExportSnapshot)

section Perform

variable [Tokenizer] [JsonText.NumberText]

/-- An operation returns or throws. -/
def Operation.run (tables : Tables) (around : Surroundings) : Operation → Except JsStr Tables
  | .put input => Memory.put tables around input
  | .insertNode input => Memory.insertNode tables around input
  | .updateNode nodeId patch provenance =>
    (Memory.updateNode tables around nodeId patch provenance).map Prod.fst
  | .addAlias aliasUri targetNodeId disclosure =>
    .ok (Memory.addAlias tables aliasUri targetNodeId disclosure)
  | .relocateMany moves => Memory.relocateMany tables around moves
  | .rename oldUri newUri => Memory.relocateMany tables around [⟨oldUri, newUri, none⟩]
  | .consolidateGroup theme moves => Memory.consolidateGroup tables around theme moves
  | .deleteCascade nodeId => Memory.deleteCascade tables around nodeId
  | .restoreDeleted uri version => Memory.restoreDeleted tables around uri version
  | .restoreRevision nodeId version provenance =>
    Memory.restoreRevision tables around nodeId version provenance
  | .addGlossaryEntry keyword nodeId => .ok (Memory.addGlossaryEntry tables keyword nodeId)
  | .removeGlossaryEntry keyword => .ok (Memory.removeGlossaryEntry tables keyword)
  | .reconcileNodeProjections sessionId active =>
    .ok (Memory.reconcileNodeProjections tables sessionId active)
  | .appendRaw entries => .ok (Memory.appendRaw tables entries)
  | .syncRawBranch sessionId entries => .ok (Memory.syncRawBranch tables sessionId entries)
  | .importSnapshot snapshot => Memory.importSnapshot tables snapshot

/-- The tables after a call: those of the result, or the old ones when the transaction is rolled back. -/
def perform (tables : Tables) (call : Surroundings × Operation) : Tables :=
  match call.2.run tables call.1 with
  | .ok result => result
  | .error _ => tables

/-- The tables after a sequence of calls. -/
def performAll (tables : Tables) (calls : List (Surroundings × Operation)) : Tables :=
  calls.foldl perform tables

/-- The tables a seeded store can come to. -/
def Reachable (tables : Tables) : Prop :=
  ∃ around start calls, seed Tables.empty around = .ok start ∧ tables = performAll start calls

end Perform

/-! ### A store for examples -/

@[reducible] def plainTokenizer : Tokenizer := ⟨fun text => text⟩

/-- Every node has its uri for its id. -/
def sampleAround : Surroundings := ⟨js "t", none, fun uri => uri, none⟩

def sampleStart [Tokenizer] : Tables := (seed Tables.empty sampleAround).toOption.getD Tables.empty

/-- The tables after calls on a fresh store. -/
def sampleRun [Tokenizer] [JsonText.NumberText] (calls : List Operation) : Tables :=
  performAll sampleStart (calls.map fun call => (sampleAround, call))

def samplePut (uri content : String) : Operation := .put (plainInput (js uri) (js content) .manual)

theorem reachable_sampleRun [Tokenizer] [JsonText.NumberText] (calls : List Operation)
    (hseed : seed Tables.empty sampleAround = .ok sampleStart) : Reachable (sampleRun calls) :=
  ⟨sampleAround, sampleStart, _, hseed, rfl⟩

end PiRp.Memory

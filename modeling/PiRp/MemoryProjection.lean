import PiRp.MemoryIndex
import PiRp.ParentForest

/-! The projection of a branch. A session creates nodes and writes to them at entries of its tree; the
rows are repainted when its path changes. A row should be the creation with the writes of the path
applied in order. It is, while every write happens on the path above the changes that other branches have
made below it, and while no path leaves behind all revisions of a node whose creation was not archived. -/

namespace PiRp.Memory

open List ParentForest

/-! ### Values -/

/-- The columns that follow a branch. -/
structure Values where
  content : JsStr
  importance : JsNumber
  disclosure : Option JsStr
  worldTs : Option JsStr
  deriving DecidableEq

def NodeRow.values (row : NodeRow) : Values := ⟨row.content, row.importance, row.disclosure, row.worldTs⟩

/-- What a write does to the values. -/
def NodePatch.onValues (patch : NodePatch) (values : Values) : Values where
  content := patch.content.getD values.content
  importance := patch.importance.getD values.importance
  disclosure := patch.disclosure.getD values.disclosure
  worldTs := patch.worldTs.getD values.worldTs

/-- The revision is a snapshot of the values. -/
def RevisionRow.Holds (revision : RevisionRow) (values : Values) : Prop :=
  revision.content = values.content ∧ revision.importance = some values.importance ∧
    revision.disclosure = values.disclosure ∧ revision.worldTs = values.worldTs

/-- The write changes a value. -/
def NodePatch.changes (patch : NodePatch) (node : NodeRow) : Bool :=
  patch.changesContent node || patch.changesAttributes node

variable {node : NodeRow}

theorem content_of_not_changes {patch : NodePatch}
    (hcont : patch.changesContent node = false) : patch.content.getD node.content = node.content := by
  rw [NodePatch.changesContent] at hcont
  cases hpatch : patch.content with
  | none => rfl
  | some content =>
    rw [hpatch] at hcont
    simpa using hcont

theorem onValues_of_not_changes {patch : NodePatch} (hchan : patch.changes node = false) :
    patch.onValues node.values = node.values := by
  rw [NodePatch.changes, Bool.or_eq_false_iff] at hchan
  obtain ⟨hcont, hatt⟩ := hchan
  rw [NodePatch.changesAttributes, Bool.or_eq_false_iff, Bool.or_eq_false_iff] at hatt
  obtain ⟨⟨himp, hdis⟩, hworld⟩ := hatt
  rw [NodePatch.onValues, NodeRow.values, Values.mk.injEq]
  refine ⟨content_of_not_changes hcont, ?_, ?_, ?_⟩
  · cases hpatch : patch.importance with
    | none => rfl
    | some value => simpa [hpatch] using himp
  · cases hpatch : patch.disclosure with
    | none => rfl
    | some value => simpa [hpatch] using hdis
  · cases hpatch : patch.worldTs with
    | none => rfl
    | some value => simpa [hpatch] using hworld

theorem values_paint {revision : RevisionRow} {values : Values} (hholds : revision.Holds values)
    (node : NodeRow) : (revision.paint node).values = values := by
  obtain ⟨hcont, himp, hdis, hworld⟩ := hholds
  rw [RevisionRow.paint, NodeRow.values]
  dsimp only
  rw [hcont, himp, hdis, hworld]
  rfl

theorem values_of_isPainted {revision : RevisionRow} {values : Values} (hholds : revision.Holds values)
    (hpain : revision.isPainted node = true) : node.values = values := by
  obtain ⟨hcont, himp, hdis, hworld⟩ := hholds
  simp only [RevisionRow.isPainted, Bool.and_eq_true, decide_eq_true_eq] at hpain
  obtain ⟨⟨⟨⟨hc, hi⟩, hd⟩, hw⟩, _⟩ := hpain
  rw [NodeRow.values, hc, hi, hd, hw, hcont, himp, hdis, hworld]
  rfl

/-! ### What a write archives -/

section Writes

variable [Tokenizer] {tables result : Tables} {around : Surroundings} {nodeId : JsStr}

/-- The revisions of a node in the order they were written. -/
def revisionsOf (tables : Tables) (nodeId : JsStr) : List RevisionRow :=
  tables.revisions.filter fun row => row.nodeId = nodeId

/-- The write has archived the revision. -/
structure Archived (before : Tables) (nodeId : JsStr) (values : Values)
    (provenance : Option RevisionAnchor) (revision : RevisionRow) : Prop where
  owner : revision.nodeId = nodeId
  version : revision.version = currentVersion before nodeId + 1
  holds : revision.Holds values
  entry : revision.anchorEntryId = provenance.bind RevisionAnchor.anchorEntryId
  session : revision.anchorSessionId = provenance.bind RevisionAnchor.anchorSessionId

variable {node : NodeRow} {provenance : Option RevisionAnchor}

omit [Tokenizer] in
theorem archiveRevision_spec {content : JsStr} {editorSource editorModel uri : Option JsStr}
    {node : NodeRow} {provenance : Option RevisionAnchor} (hret : around.revisionRetention = none)
    (hcont : content = node.content) : ∃ revision,
      (archiveRevision tables around nodeId content editorSource editorModel uri (some node) provenance).1 =
        { tables with revisions := tables.revisions ++ [revision] } ∧
      Archived tables nodeId node.values provenance revision := by
  simp only [archiveRevision, applyRevisionRetention, hret]
  exact ⟨_, rfl, ⟨rfl, rfl, ⟨hcont, rfl, rfl, rfl⟩, rfl, rfl⟩⟩

/-- What an update does to the row and the revisions of its node; everything else of these tables
stays. -/
structure Writes (before : Tables) (nodeId : JsStr) (patch : NodePatch)
    (provenance : Option RevisionAnchor) (node : NodeRow) (after : Tables) : Prop where
  row : ∃ written, after.nodes.get? nodeId = some written ∧ written.isStub = false ∧
    written.values = patch.onValues node.values
  others : ∀ other, other ≠ nodeId → after.nodes.get? other = before.nodes.get? other
  kept : patch.changes node = false ∨ node.isStub = true → after.revisions = before.revisions
  archived : patch.changes node = true → node.isStub = false → ∃ revision,
    after.revisions = before.revisions ++ [revision] ∧
      Archived before nodeId (patch.onValues node.values) provenance revision

variable {patch : NodePatch}

theorem writes_promoteStub (hnode : tables.nodes.get? nodeId = some node) (hstub : node.isStub = true) :
    Writes tables nodeId patch provenance node (promoteStub tables around nodeId patch) := by
  have hget : ∀ other, (promoteStub tables around nodeId patch).nodes.get? other =
      if other = nodeId then some { patch.apply around.now node with
        isStub := false
        contentHash := hashContent (patch.content.getD [])
        updatedTs := around.now }
      else tables.nodes.get? other := by
    intro other
    rw [promoteStub, nodes_reindexNode]
    dsimp only
    rw [NodeTable.get?_modify, get?_applyPatchColumns, get?_applyPatchColumns, if_pos rfl, hnode]
    split_ifs <;> rfl
  refine ⟨⟨_, (hget nodeId).trans (if_pos rfl), rfl, rfl⟩, fun other hne => (hget other).trans (if_neg hne),
    fun _ => ?_, fun _ hreal => absurd (hstub.symm.trans hreal) nofun⟩
  rw [promoteStub, revisions_reindexNode]
  rfl

omit [Tokenizer] in
theorem currentVersion_eq {other : Tables} (hrevs : other.revisions = tables.revisions) :
    currentVersion other nodeId = currentVersion tables nodeId := by
  rw [currentVersion, currentVersion, hrevs]

omit [Tokenizer] in
theorem archiveUpdate_spec {written : NodeRow} {content : JsStr} (patch : NodePatch) (uri : JsStr)
    (provenance : Option RevisionAnchor) (hret : around.revisionRetention = none)
    (hwrt : tables.nodes.get? nodeId = some written) (hcont : content = written.content) :
    ∃ revision, (archiveUpdate tables around nodeId content patch uri provenance).1 =
        { tables with revisions := tables.revisions ++ [revision] } ∧
      Archived tables nodeId written.values provenance revision := by
  rw [archiveUpdate, hwrt]
  exact archiveRevision_spec hret hcont

variable (hret : around.revisionRetention = none)

include hret

section

variable (hnode : tables.nodes.get? nodeId = some node)

include hnode

theorem writes_rewriteNode (hstub : node.isStub = false) (hcont : patch.changesContent node = true) :
    Writes tables nodeId patch provenance node (rewriteNode tables around nodeId node patch provenance).1 := by
  have hnew : patch.content.getD [] = patch.content.getD node.content := by
    rw [NodePatch.changesContent] at hcont
    cases hpatch : patch.content with
    | none =>
      rw [hpatch] at hcont
      cases hcont
    | some content => rfl
  -- The tables that are archived, with their rows and revisions.
  obtain ⟨indexed, hind, hrevs, hget⟩ : ∃ indexed : Tables,
      rewriteNode tables around nodeId node patch provenance =
        archiveUpdate indexed around nodeId (patch.content.getD []) patch node.uri provenance ∧
      indexed.revisions = tables.revisions ∧
      ∀ other, indexed.nodes.get? other =
        if other = nodeId then some { patch.apply around.now node with
          contentHash := hashContent (patch.content.getD [])
          updatedTs := around.now }
        else tables.nodes.get? other := by
    refine ⟨_, rfl, ?_, fun other => ?_⟩
    · rw [revisions_reindexNode]
      rfl
    · rw [nodes_reindexNode]
      dsimp only
      rw [NodeTable.get?_modify, get?_applyPatchColumns, get?_applyPatchColumns, if_pos rfl, hnode]
      split_ifs <;> rfl
  obtain ⟨revision, harch, harc⟩ :=
    archiveUpdate_spec patch node.uri provenance hret ((hget nodeId).trans (if_pos rfl)) hnew
  rw [hind, harch]
  refine ⟨⟨_, (hget nodeId).trans (if_pos rfl), hstub, rfl⟩,
    fun other hne => (hget other).trans (if_neg hne), ?_, fun _ _ => ⟨revision, ?_, ?_⟩⟩
  · rintro (hsame | hreal)
    · rw [NodePatch.changes, hcont] at hsame
      cases hsame
    · cases hstub.symm.trans hreal
  · dsimp only
    rw [hrevs]
  · exact { harc with version := harc.version.trans (by rw [currentVersion_eq hrevs]) }

theorem writes_touchNode (hstub : node.isStub = false) (hcont : patch.changesContent node = false) :
    Writes tables nodeId patch provenance node (touchNode tables around nodeId node patch provenance).1 := by
  obtain ⟨indexed, hind, hrevs, hget⟩ : ∃ indexed : Tables,
      (touchNode tables around nodeId node patch provenance).1 =
        (if patch.changesAttributes node then
          (archiveUpdate indexed around nodeId node.content patch node.uri provenance).1 else indexed) ∧
      indexed.revisions = tables.revisions ∧
      ∀ other, indexed.nodes.get? other =
        if other = nodeId then some (patch.apply around.now node) else tables.nodes.get? other := by
    refine ⟨_, rfl, ?_, fun other => ?_⟩
    · split_ifs
      · rw [revisions_reindexNode]
        rfl
      · rfl
    · have hcol : (applyPatchColumns tables around nodeId patch).nodes.get? other = _ :=
        get?_applyPatchColumns patch other
      rw [hnode, Option.map_some] at hcol
      by_cases hdis : patch.disclosure.isSome = true
      · rw [if_pos hdis, nodes_reindexNode]
        exact hcol
      · rw [if_neg hdis]
        exact hcol
  rw [hind]
  by_cases hatt : patch.changesAttributes node = true
  · rw [if_pos hatt]
    obtain ⟨revision, harch, harc⟩ := archiveUpdate_spec patch node.uri provenance hret
      ((hget nodeId).trans (if_pos rfl)) (content_of_not_changes hcont).symm
    rw [harch]
    refine ⟨⟨_, (hget nodeId).trans (if_pos rfl), hstub, rfl⟩,
      fun other hne => (hget other).trans (if_neg hne), ?_, fun _ _ => ⟨revision, ?_, ?_⟩⟩
    · rintro (hsame | hreal)
      · rw [NodePatch.changes, hatt, Bool.or_true] at hsame
        exact nomatch hsame
      · exact absurd (hstub.symm.trans hreal) nofun
    · dsimp only
      rw [hrevs]
    · exact { harc with version := harc.version.trans (by rw [currentVersion_eq hrevs]) }
  · rw [if_neg hatt]
    refine ⟨⟨_, (hget nodeId).trans (if_pos rfl), hstub, rfl⟩,
      fun other hne => (hget other).trans (if_neg hne), fun _ => hrevs, fun hchan _ => ?_⟩
    rw [NodePatch.changes, hcont, Bool.false_or] at hchan
    exact absurd hchan hatt

theorem writes_updateNode (hstub : node.isStub = true → patch.changesContent node = true) :
    ∃ after, (updateNode tables around nodeId patch provenance).map Prod.fst = .ok after ∧
      Writes tables nodeId patch provenance node after := by
  rw [updateNode, hnode]
  refine ⟨_, rfl, ?_⟩
  split_ifs with hcont hreal
  · exact writes_promoteStub hnode hreal
  · exact writes_rewriteNode hret hnode (Bool.not_eq_true _ ▸ hreal) hcont
  · refine writes_touchNode hret hnode ?_ (Bool.not_eq_true _ ▸ hcont)
    exact Bool.eq_false_iff.mpr fun hreal => hcont (hstub hreal)

end

omit hret in
theorem revisions_insert_plain {input : NodeInput} {isStub : Bool} (hplain : isStub = true ∨ input.anchor = none)
    (hins : insertNodeAs tables around input isStub nodeId = .ok result) : result.revisions = tables.revisions := by
  obtain ⟨nodes, _, hres⟩ := bind_eq_ok.mp hins
  obtain rfl := Except.ok.inj hres
  rw [recordInsert]
  split_ifs with hstub
  · rfl
  · rw [hplain.resolve_left hstub]
    exact revisions_reindexNode

theorem revisions_insert_anchored {input : NodeInput} {anchor : RevisionAnchor} (hanc : input.anchor = some anchor)
    (hins : insertNodeAs tables around input false nodeId = .ok result) : ∃ revision,
      result.revisions = tables.revisions ++ [revision] ∧
        Archived tables nodeId (newRow tables around input false).values (some anchor) revision := by
  obtain ⟨nodes, _, hres⟩ := bind_eq_ok.mp hins
  obtain rfl := Except.ok.inj hres
  rw [recordInsert, if_neg Bool.false_ne_true, hanc]
  obtain ⟨revision, harch, harc⟩ := @archiveRevision_spec
    (reindexNode { tables with nodes } nodeId) around nodeId input.content
    (some (newRow tables around input false).source.text) input.model.join (some input.uri)
    (newRow tables around input false) (some anchor) hret rfl
  have hrevs : (reindexNode { tables with nodes } nodeId).revisions = tables.revisions := by
    rw [revisions_reindexNode]
  refine ⟨revision, ?_, { harc with version := ?_ }⟩
  · dsimp only
    rw [harch, hrevs]
  · rw [harc.version, currentVersion_eq hrevs]

end Writes

/-! ### The branches of a session -/

/-- The entries of a path are an entry and those above it. -/
def IsPath (link : JsStr → Option (Option JsStr)) (path : List JsStr) : Prop :=
  path = [] ∨ ∃ leaf, ∀ entry, entry ∈ path ↔ Inside link entry leaf

theorem IsPath.mem_iff {link : JsStr → Option (Option JsStr)} {left right : List JsStr}
    (hleft : IsPath link left) (hright : IsPath link right) {through entry : JsStr}
    (hinl : through ∈ left) (hinr : through ∈ right)
    (hnotb : ¬ (Inside link through entry ∧ entry ≠ through)) : entry ∈ left ↔ entry ∈ right := by
  have hone : ∀ {first second : List JsStr}, IsPath link first → IsPath link second →
      through ∈ first → through ∈ second → entry ∈ first → entry ∈ second := by
    intro first second hfirst hsnd hthr hother hentry
    rcases hfirst with rfl | ⟨leaf, hfirst⟩
    · exact absurd hentry not_mem_nil
    · rcases hsnd with rfl | ⟨other, hsnd⟩
      · exact absurd hother not_mem_nil
      · rcases ((hfirst entry).mp hentry).total ((hfirst through).mp hthr) with habove | hbelow
        · exact (hsnd entry).mpr (habove.trans ((hsnd through).mp hother))
        · by_cases hsame : entry = through
          · exact hsame ▸ hother
          · exact absurd ⟨hbelow, hsame⟩ hnotb
  exact ⟨hone hleft hright hinl hinr, hone hright hleft hinr hinl⟩

/-- The writes whose entries are on the path, in order. -/
def applyOn (path : List JsStr) (base : Values) (writes : List (JsStr × NodePatch)) : Values :=
  (writes.filter fun write => write.1 ∈ path).foldl (fun values write => write.2.onValues values) base

theorem applyOn_append (path : List JsStr) (base : Values) (writes : List (JsStr × NodePatch))
    (entry : JsStr) (patch : NodePatch) : applyOn path base (writes ++ [(entry, patch)]) =
      if entry ∈ path then patch.onValues (applyOn path base writes) else applyOn path base writes := by
  rw [applyOn, filter_append, foldl_append]
  by_cases hentry : entry ∈ path
  · rw [if_pos hentry, filter_cons_of_pos (by simpa using hentry)]
    rfl
  · rw [if_neg hentry, filter_cons_of_neg (by simpa using hentry)]
    rfl

theorem applyOn_congr {left right : List JsStr} {base : Values}
    {writes : List (JsStr × NodePatch)} (hsame : ∀ write ∈ writes, write.1 ∈ left ↔ write.1 ∈ right) :
    applyOn left base writes = applyOn right base writes := by
  rw [applyOn, applyOn]
  refine congrArg (List.foldl _ base) (filter_congr fun write hwrite => ?_)
  simp only [hsame write hwrite]

theorem applyOn_missed {path : List JsStr} {base : Values} {writes : List (JsStr × NodePatch)}
    (hmis : ∀ write ∈ writes, write.1 ∉ path) : applyOn path base writes = base := by
  rw [applyOn, filter_eq_nil_iff.mpr fun write hwrite => by simpa using hmis write hwrite]
  rfl

/-- The life of a node: its creation, whether that was archived, and the writes with those among them
that changed a value. -/
structure Life where
  base : Values
  born : Bool
  writes : List (JsStr × NodePatch)
  changes : List (JsStr × NodePatch)

def Life.write (life : Life) (entry : JsStr) (patch : NodePatch) (changed : Bool) : Life :=
  { life with
    writes := life.writes ++ [(entry, patch)]
    changes := if changed then life.changes ++ [(entry, patch)] else life.changes }

/-- A node that was created and not written to yet. -/
def NodeRow.birth (row : NodeRow) (born : Bool) : Life := ⟨row.values, born, [], []⟩

/-- The row and the revisions of a node fit its life. -/
structure Tracked (session : JsStr) (link : JsStr → Option (Option JsStr)) (path : List JsStr)
    (row : Option NodeRow) (revisions : List RevisionRow) (life : Life) : Prop where
  row : ∃ node, row = some node ∧ node.isStub = false ∧
    node.values = applyOn path life.base life.changes
  increasing : Sql.Increasing RevisionRow.version revisions
  found : ∀ other, IsPath link other → ∀ revision,
    (revisions.reverse.find? fun row => row.applies session other) = some revision →
      revision.Holds (applyOn other life.base life.changes)
  missed : ∀ other, IsPath link other →
    (revisions.reverse.find? fun row => row.applies session other) = none →
      ∀ write ∈ life.changes, write.1 ∉ other
  birth : life.born = true → ∃ revision, revisions.head? = some revision ∧ revision.Holds life.base
  empty : life.born = false → life.changes = [] → revisions = []
  written : life.changes ≠ [] → ∃ revision ∈ revisions, revision.anchorSessionId = some session
  all : ∀ other, IsPath link other →
    applyOn other life.base life.writes = applyOn other life.base life.changes

section Tracking

variable {session : JsStr} {link : JsStr → Option (Option JsStr)} {path : List JsStr}
  {node written : NodeRow} {revisions : List RevisionRow} {life : Life} {entry : JsStr}
  {patch : NodePatch}

variable {revision : RevisionRow}

theorem applies_anchored (hsess : session ≠ []) (hentry : entry ≠ [])
    (hentryId : revision.anchorEntryId = some entry) (hsessionId : revision.anchorSessionId = some session)
    (other : List JsStr) : revision.applies session other = decide (entry ∈ other) := by
  have htex : ∀ {text : JsStr}, text ≠ [] → textual (some text) = some text := by
    intro text htext
    rw [textual, Option.filter_some_pos (by simpa using htext)]
  rw [RevisionRow.applies, hentryId, hsessionId, htex hsess, htex hentry]
  simp

theorem find?_append_singleton {α : Type} (condition : α → Bool) (items : List α) (item : α) :
    (items ++ [item]).reverse.find? condition =
      if condition item then some item else items.reverse.find? condition := by
  rw [reverse_append, reverse_singleton, singleton_append, find?_cons]
  cases condition item <;> rfl

section

variable (htrac : Tracked session link path (some node) revisions life)

include htrac

variable (hpath : IsPath link path)

include hpath

theorem Tracked.same (hentry : entry ∈ path)
    (habove : ∀ write ∈ life.changes, ¬ (Inside link entry write.1 ∧ write.1 ≠ entry))
    {other : List JsStr} (hother : IsPath link other) (hin : entry ∈ other) :
    applyOn other life.base life.changes = node.values := by
  obtain ⟨present, hpres, _, hval⟩ := htrac.row
  obtain rfl := Option.some.inj hpres
  rw [hval]
  exact applyOn_congr fun write hwrite => hother.mem_iff hpath hin hentry (habove write hwrite)

theorem Tracked.change (hsess : session ≠ []) (hnon : entry ≠ []) (hentry : entry ∈ path)
    (habove : ∀ write ∈ life.changes, ¬ (Inside link entry write.1 ∧ write.1 ≠ entry))
    (hreal : written.isStub = false) (hval : written.values = patch.onValues node.values)
    (hver : ∀ row ∈ revisions, row.version < revision.version)
    (hholds : revision.Holds (patch.onValues node.values)) (hentryId : revision.anchorEntryId = some entry)
    (hsessionId : revision.anchorSessionId = some session) :
    Tracked session link path (some written) (revisions ++ [revision]) (life.write entry patch true) := by
  have hsame : ∀ {other : List JsStr}, IsPath link other → entry ∈ other →
      applyOn other life.base life.changes = node.values :=
    fun hother hin => htrac.same hpath hentry habove hother hin
  have happl := applies_anchored hsess hnon hentryId hsessionId
  have hafter : ∀ other, applyOn other life.base (life.write entry patch true).changes =
      if entry ∈ other then patch.onValues (applyOn other life.base life.changes)
      else applyOn other life.base life.changes := fun other =>
    applyOn_append other life.base life.changes entry patch
  refine ⟨⟨written, rfl, hreal, ?_⟩, ?_, fun other hother found hfound => ?_,
    fun other hother hnone write hwrite => ?_, fun hborn => ?_, fun _ hnil => ?_, fun _ => ?_,
    fun other hother => ?_⟩
  · rw [hval]
    exact ((hafter path).trans (by rw [if_pos hentry, hsame hpath hentry])).symm
  · refine pairwise_append.mpr ⟨htrac.increasing, pairwise_singleton _ _, ?_⟩
    intro row hrow last hlast
    exact mem_singleton.mp hlast ▸ hver row hrow
  · rw [find?_append_singleton, happl] at hfound
    refine (hafter other).symm ▸ ?_
    by_cases hin : entry ∈ other
    · rw [if_pos (decide_eq_true hin)] at hfound
      rw [if_pos hin, hsame hother hin, ← Option.some.inj hfound]
      exact hholds
    · rw [if_neg (by simpa using hin)] at hfound
      rw [if_neg hin]
      exact htrac.found other hother found hfound
  · rw [find?_append_singleton, happl] at hnone
    split_ifs at hnone with hin
    rcases mem_append.mp hwrite with hwrite | hwrite
    · exact htrac.missed other hother hnone write hwrite
    · rw [mem_singleton.mp hwrite]
      simpa using hin
  · obtain ⟨first, hfirst, hbase⟩ := htrac.birth hborn
    refine ⟨first, ?_, hbase⟩
    rw [head?_append, hfirst, Option.some_or]
  · exact absurd hnil (append_ne_nil_of_right_ne_nil _ (cons_ne_nil _ _))
  · exact ⟨revision, mem_append_right _ (mem_singleton_self _), hsessionId⟩
  · refine (applyOn_append other life.base life.writes entry patch).trans ?_
    rw [htrac.all other hother]
    exact (hafter other).symm

theorem Tracked.noChange (hentry : entry ∈ path)
    (habove : ∀ write ∈ life.changes, ¬ (Inside link entry write.1 ∧ write.1 ≠ entry))
    (hreal : written.isStub = false) (hval : written.values = patch.onValues node.values)
    (hunc : patch.onValues node.values = node.values) :
    Tracked session link path (some written) revisions (life.write entry patch false) := by
  obtain ⟨present, hpres, _, hcur⟩ := htrac.row
  obtain rfl := Option.some.inj hpres
  refine { htrac with row := ⟨written, rfl, hreal, (hval.trans hunc).trans hcur⟩, all := fun other hother => ?_ }
  refine (applyOn_append other life.base life.writes entry patch).trans ?_
  rw [htrac.all other hother]
  split_ifs with hin
  · rw [htrac.same hpath hentry habove hother hin, hunc]
    exact (htrac.same hpath hentry habove hother hin).symm
  · rfl

end

theorem tracked_born (hreal : node.isStub = false) (hholds : revision.Holds node.values) :
    Tracked session link path (some node) [revision] (node.birth true) := by
  refine ⟨⟨node, rfl, hreal, rfl⟩, pairwise_singleton _ _, fun other _ found hfound => ?_,
    fun _ _ _ write hwrite => absurd hwrite not_mem_nil, fun _ => ⟨revision, rfl, hholds⟩,
    fun hborn => absurd hborn nofun, fun hchan => absurd rfl hchan, fun _ _ => rfl⟩
  have hmem := mem_of_find?_eq_some hfound
  rw [reverse_singleton, mem_singleton] at hmem
  exact hmem ▸ hholds

theorem tracked_unborn (hreal : node.isStub = false) :
    Tracked session link path (some node) [] (node.birth false) := by
  refine ⟨⟨node, rfl, hreal, rfl⟩, List.Pairwise.nil, fun _ _ found hfound => absurd hfound nofun,
    fun _ _ _ write hwrite => absurd hwrite not_mem_nil, fun hborn => absurd hborn nofun,
    fun _ _ => rfl, fun hchan => absurd rfl hchan, fun _ _ => rfl⟩

end Tracking

/-! ### Repainting -/

section Repaint

variable [Tokenizer] {tables : Tables} {session nodeId : JsStr} {path : List JsStr}

theorem revisions_reconcileNode (other : JsStr) :
    (reconcileNode session path tables other).revisions = tables.revisions := by
  unfold reconcileNode
  split
  · split_ifs
    · rfl
    · rw [revisions_reindexNode]
  · rfl

theorem get?_reconcileNode_of_ne {other : JsStr} (hne : nodeId ≠ other) :
    (reconcileNode session path tables other).nodes.get? nodeId = tables.nodes.get? nodeId := by
  unfold reconcileNode
  split
  · rename_i node source _ _
    split_ifs
    · rfl
    · rw [nodes_reindexNode]
      exact (@NodeTable.get?_modify tables.nodes other source.paint (fun _ => rfl) nodeId).trans
        (if_neg hne)
  · rfl

theorem get?_reconcileNode_self {node : NodeRow} {revision : RevisionRow} {values : Values}
    (hnode : tables.nodes.get? nodeId = some node) (hreal : node.isStub = false)
    (hsrc : projectionSource (revisionChain tables nodeId) session path = some revision)
    (hholds : revision.Holds values) : ∃ painted,
      (reconcileNode session path tables nodeId).nodes.get? nodeId = some painted ∧
        painted.isStub = false ∧ painted.values = values := by
  unfold reconcileNode
  rw [hnode, hsrc]
  dsimp only
  split_ifs with hpain
  · exact ⟨node, hnode, hreal, values_of_isPainted hholds hpain⟩
  · refine ⟨revision.paint node, ?_, hreal, values_paint hholds node⟩
    rw [nodes_reindexNode]
    refine (@NodeTable.get?_modify tables.nodes nodeId revision.paint (fun _ => rfl) nodeId).trans ?_
    rw [if_pos rfl, hnode, Option.map_some]

omit [Tokenizer] in
theorem revisionChain_congr {other : Tables} (hrevs : other.revisions = tables.revisions) :
    revisionChain other nodeId = revisionChain tables nodeId := by
  rw [revisionChain, revisionChain, hrevs]

theorem revisions_reconcile (ids : List JsStr) :
    (ids.foldl (reconcileNode session path) tables).revisions = tables.revisions := by
  induction ids generalizing tables with
  | nil => rfl
  | cons id rest ih => rw [foldl_cons, ih, revisions_reconcileNode]

theorem get?_reconcile_of_not_mem {ids : List JsStr} (hnot : nodeId ∉ ids) :
    (ids.foldl (reconcileNode session path) tables).nodes.get? nodeId = tables.nodes.get? nodeId := by
  induction ids generalizing tables with
  | nil => rfl
  | cons id rest ih =>
    rw [mem_cons, not_or] at hnot
    rw [foldl_cons, ih hnot.2, get?_reconcileNode_of_ne hnot.1]

theorem get?_reconcile {ids : List JsStr} {node : NodeRow} {revision : RevisionRow} {values : Values}
    (hnode : tables.nodes.get? nodeId = some node) (hreal : node.isStub = false)
    (hsrc : projectionSource (revisionChain tables nodeId) session path = some revision)
    (hholds : revision.Holds values) (hmem : nodeId ∈ ids ∨ node.values = values) : ∃ painted,
      (ids.foldl (reconcileNode session path) tables).nodes.get? nodeId = some painted ∧
        painted.isStub = false ∧ painted.values = values := by
  induction ids generalizing tables node with
  | nil => exact ⟨node, hnode, hreal, hmem.resolve_left not_mem_nil⟩
  | cons id rest ih =>
    rw [foldl_cons]
    have hkept : projectionSource (revisionChain (reconcileNode session path tables id) nodeId) session
        path = some revision := by
      rw [revisionChain_congr (revisions_reconcileNode id), hsrc]
    by_cases hid : nodeId = id
    · subst hid
      obtain ⟨painted, hpain, hstill, hval⟩ := get?_reconcileNode_self hnode hreal hsrc hholds
      exact ih hpain hstill hkept (.inr hval)
    · have hsame : (reconcileNode session path tables id).nodes.get? nodeId = some node := by
        rw [get?_reconcileNode_of_ne hid, hnode]
      refine ih hsame hreal hkept (hmem.imp_left fun hmem => ?_)
      exact (mem_cons.mp hmem).resolve_left hid

end Repaint

/-! ### Histories -/

/-- The store with the lives of its nodes and the active path of the session. -/
structure Branch where
  tables : Tables
  lives : JsStr → Option Life
  path : List JsStr

/-- A node that is new and no stub was created. -/
def recordCreate (before after : Tables) (lives : JsStr → Option Life) (input : NodeInput) :
    JsStr → Option Life := fun nodeId =>
  match before.nodes.get? nodeId, after.nodes.get? nodeId with
  | none, some row => if row.isStub then lives nodeId else some (row.birth input.anchor.isSome)
  | _, _ => lives nodeId

def entryOf (provenance : Option RevisionAnchor) : JsStr :=
  (provenance.bind RevisionAnchor.anchorEntryId).getD []

/-- A write to a stub is a creation, any other one is part of the life. -/
def recordWrite (before after : Tables) (lives : JsStr → Option Life) (nodeId : JsStr)
    (patch : NodePatch) (provenance : Option RevisionAnchor) : JsStr → Option Life := fun other =>
  if other = nodeId then
    match before.nodes.get? nodeId with
    | none => lives nodeId
    | some node =>
      if node.isStub then (after.nodes.get? nodeId).map fun row => row.birth false
      else (lives nodeId).map fun life => life.write (entryOf provenance) patch (patch.changes node)
  else lives other

def record (before after : Tables) (lives : JsStr → Option Life) :
    Operation → JsStr → Option Life
  | .put input =>
    match resolveUri before input.uri with
    | none => recordCreate before after lives input
    | some existing => recordWrite before after lives existing.1 input.patch input.anchor
  | .insertNode input => recordCreate before after lives input
  | .updateNode nodeId patch provenance => recordWrite before after lives nodeId patch provenance
  | _ => lives

section Histories

variable [Tokenizer]

/-- A stub is filled; any other write carries an entry of the session. -/
def FitsWrite (session : JsStr) (link : JsStr → Option (Option JsStr)) (node : NodeRow)
    (patch : NodePatch) (provenance : Option RevisionAnchor) : Prop :=
  if node.isStub then patch.changesContent node = true
  else ∃ entry, entry ≠ [] ∧ link entry ≠ none ∧ provenance = some ⟨some entry, some session⟩

/-- The call is one of a history of the session without a limit on revisions: a creation, the filling of
a stub, a write at an entry, or the projection of a path. -/
def Fits (session : JsStr) (link : JsStr → Option (Option JsStr)) (branch : Branch)
    (call : Surroundings × Operation) : Prop :=
  call.1.revisionRetention = none ∧
    match call.2 with
    | .put input => ∀ existing, resolveUri branch.tables input.uri = some existing →
        FitsWrite session link existing.2 input.patch input.anchor
    | .insertNode _ => True
    | .updateNode nodeId patch provenance => ∀ node, branch.tables.nodes.get? nodeId = some node →
        FitsWrite session link node patch provenance
    | .reconcileNodeProjections sessionId active => sessionId = session ∧ IsPath link active
    | _ => False

/-- The entry of the write is on the active path and no change of the node was made below it. -/
def OnPath (link : JsStr → Option (Option JsStr)) (branch : Branch) (nodeId : JsStr)
    (node : NodeRow) (provenance : Option RevisionAnchor) : Prop :=
  node.isStub = false → entryOf provenance ∈ branch.path ∧ ∀ life, branch.lives nodeId = some life →
    ∀ write ∈ life.changes,
      ¬ (Inside link (entryOf provenance) write.1 ∧ write.1 ≠ entryOf provenance)

/-- The condition of a call on the store and the history before it. -/
def Projectable (link : JsStr → Option (Option JsStr)) (branch : Branch) : Operation → Prop
  | .put input => ∀ existing, resolveUri branch.tables input.uri = some existing →
      OnPath link branch existing.1 existing.2 input.anchor
  | .updateNode nodeId _ provenance => ∀ node, branch.tables.nodes.get? nodeId = some node →
      OnPath link branch nodeId node provenance
  | .reconcileNodeProjections _ active => ∀ nodeId life, branch.lives nodeId = some life →
      life.born = true ∨ life.changes = [] ∨ ∃ write ∈ life.changes, write.1 ∈ active
  | _ => True

/-- The seeded store: its nodes were created without anchors. -/
def seededBranch (start : Tables) (path : List JsStr) : Branch :=
  ⟨start, fun nodeId => (start.nodes.get? nodeId).map fun row => row.birth false, path⟩

/-- Every node has the values of its creation and of the writes on the path, in order. -/
def Projected (branch : Branch) : Prop :=
  ∀ nodeId life, branch.lives nodeId = some life →
    (branch.tables.nodes.get? nodeId).map NodeRow.values =
      some (applyOn branch.path life.base life.writes)

/-- The invariant of a history. -/
structure Good (session : JsStr) (link : JsStr → Option (Option JsStr)) (branch : Branch) :
    Prop where
  path : IsPath link branch.path
  tracked : ∀ nodeId life, branch.lives nodeId = some life → Tracked session link branch.path
    (branch.tables.nodes.get? nodeId) (revisionsOf branch.tables nodeId) life
  untracked : ∀ nodeId, branch.lives nodeId = none → revisionsOf branch.tables nodeId = [] ∧
    ∀ node, branch.tables.nodes.get? nodeId = some node → node.isStub = true

variable {session : JsStr} {link : JsStr → Option (Option JsStr)} {branch : Branch}
  {around : Surroundings} {after : Tables} {nodeId : JsStr}

omit [Tokenizer] in
theorem Good.projected (hgood : Good session link branch) : Projected branch := by
  intro nodeId life hlife
  have htrac := hgood.tracked nodeId life hlife
  obtain ⟨node, hnode, _, hval⟩ := htrac.row
  rw [hnode, Option.map_some, hval, htrac.all branch.path hgood.path]

omit [Tokenizer] in
theorem Good.life_of_real (hgood : Good session link branch) {node : NodeRow}
    (hnode : branch.tables.nodes.get? nodeId = some node) (hreal : node.isStub = false) :
    ∃ life, branch.lives nodeId = some life := by
  cases hlife : branch.lives nodeId with
  | some life => exact ⟨life, rfl⟩
  | none =>
    have hstub := (hgood.untracked nodeId hlife).2 node hnode
    exact absurd (hreal.symm.trans hstub) nofun

omit [Tokenizer] in
theorem Good.no_life (hgood : Good session link branch)
    (hstub : ∀ node, branch.tables.nodes.get? nodeId = some node → node.isStub = true) :
    branch.lives nodeId = none := by
  cases hlife : branch.lives nodeId with
  | none => rfl
  | some life =>
    obtain ⟨node, hnode, hreal, _⟩ := (hgood.tracked nodeId life hlife).row
    exact absurd (hreal.symm.trans (hstub node hnode)) nofun

omit [Tokenizer] in
theorem revisionsOf_append {tables : Tables} {revision : RevisionRow}
    (hrevs : after.revisions = tables.revisions ++ [revision]) (other : JsStr) : revisionsOf after other =
      if revision.nodeId = other then revisionsOf tables other ++ [revision] else revisionsOf tables other := by
  rw [revisionsOf, hrevs, filter_append]
  split_ifs with hother
  · rw [filter_cons_of_pos (by simpa using hother)]
    rfl
  · rw [filter_cons_of_neg (by simpa using hother), filter_nil, append_nil]
    rfl

omit [Tokenizer] in
theorem version_le_currentVersion {tables : Tables} {row : RevisionRow}
    (hrow : row ∈ revisionsOf tables nodeId) : row.version ≤ currentVersion tables nodeId := by
  have hle : ∀ (versions : List Nat) (start : Nat), start ≤ versions.foldl max start ∧
      ∀ version ∈ versions, version ≤ versions.foldl max start := by
    intro versions
    induction versions with
    | nil => exact fun start => ⟨le_rfl, fun _ hver => absurd hver not_mem_nil⟩
    | cons version rest ih =>
      intro start
      obtain ⟨hstart, hrest⟩ := ih (max start version)
      refine ⟨(le_max_left _ _).trans hstart, forall_mem_cons.mpr ⟨?_, hrest⟩⟩
      exact (le_max_right _ _).trans hstart
  exact (hle _ 0).2 _ (mem_map_of_mem hrow)

omit [Tokenizer] in
theorem Good.write (hgood : Good session link branch) (hsess : session ≠ []) {node : NodeRow}
    {patch : NodePatch} {provenance : Option RevisionAnchor} (hnode : branch.tables.nodes.get? nodeId = some node)
    (hwrit : Writes branch.tables nodeId patch provenance node after)
    (hfits : FitsWrite session link node patch provenance) (honp : OnPath link branch nodeId node provenance) :
    Good session link ⟨after, recordWrite branch.tables after branch.lives nodeId patch provenance, branch.path⟩ := by
  obtain ⟨written, hwrt, hreal, hval⟩ := hwrit.row
  have hother : ∀ other, other ≠ nodeId → revisionsOf after other = revisionsOf branch.tables other := by
    intro other hne
    by_cases hcases : patch.changes node = false ∨ node.isStub = true
    · rw [revisionsOf, hwrit.kept hcases, revisionsOf]
    · push Not at hcases
      obtain ⟨revision, hrevs, harc⟩ := hwrit.archived (Bool.eq_true_of_not_eq_false hcases.1)
        (Bool.eq_false_iff.mpr hcases.2)
      rw [revisionsOf_append hrevs, if_neg]
      exact fun heq => hne (heq.symm.trans harc.owner)
  -- The node that is written to.
  have hself : ∃ life, recordWrite branch.tables after branch.lives nodeId patch provenance nodeId =
      some life ∧ Tracked session link branch.path (after.nodes.get? nodeId) (revisionsOf after nodeId)
        life := by
    rw [recordWrite, if_pos rfl, hnode, hwrt]
    dsimp only
    rw [FitsWrite] at hfits
    by_cases hstub : node.isStub = true
    · rw [if_pos hstub]
      have hnone : branch.lives nodeId = none := by
        refine hgood.no_life fun present hpres => ?_
        rw [hnode] at hpres
        exact Option.some.inj hpres ▸ hstub
      have hempty : revisionsOf after nodeId = [] := by
        rw [revisionsOf, hwrit.kept (.inr hstub)]
        exact (hgood.untracked nodeId hnone).1
      rw [hempty]
      exact ⟨_, rfl, tracked_unborn hreal⟩
    · rw [if_neg hstub] at hfits ⊢
      have hsolid := Bool.eq_false_iff.mpr hstub
      obtain ⟨life, hlife⟩ := hgood.life_of_real hnode hsolid
      have htrac := hgood.tracked nodeId life hlife
      rw [hnode] at htrac
      obtain ⟨entry, hentry, _, hprov⟩ := hfits
      obtain ⟨hin, habove⟩ := honp hsolid
      have hentryOf : entryOf provenance = entry := by rw [hprov]; rfl
      rw [hentryOf] at hin habove
      rw [hlife, Option.map_some, hentryOf]
      refine ⟨_, rfl, ?_⟩
      cases hchan : patch.changes node with
      | true =>
        obtain ⟨revision, hrevs, harc⟩ := hwrit.archived hchan hsolid
        rw [revisionsOf_append hrevs, if_pos harc.owner]
        refine htrac.change hgood.path hsess hentry hin (habove life hlife) hreal hval
          (fun row hrow => ?_) harc.holds ?_ ?_
        · rw [harc.version]
          exact Nat.lt_succ_of_le (version_le_currentVersion hrow)
        · rw [harc.entry, hprov]
          rfl
        · rw [harc.session, hprov]
          rfl
      | false =>
        rw [revisionsOf, hwrit.kept (.inl hchan), ← revisionsOf]
        exact htrac.noChange hgood.path hin (habove life hlife) hreal hval
          (onValues_of_not_changes hchan)
  obtain ⟨selfLife, hselfLife, hselfTracked⟩ := hself
  refine ⟨hgood.path, fun other life hlife => ?_, fun other hnone => ?_⟩
  · dsimp only at hlife ⊢
    by_cases hid : other = nodeId
    · rw [hid, hselfLife] at hlife
      exact hid ▸ Option.some.inj hlife ▸ hselfTracked
    · rw [recordWrite, if_neg hid] at hlife
      rw [hwrit.others other hid, hother other hid]
      exact hgood.tracked other life hlife
  · dsimp only at hnone ⊢
    by_cases hid : other = nodeId
    · rw [hid, hselfLife] at hnone
      exact nomatch hnone
    · rw [recordWrite, if_neg hid] at hnone
      rw [hwrit.others other hid, hother other hid]
      exact hgood.untracked other hnone

variable {input : NodeInput}

theorem Good.stub (hgood : Good session link branch)
    (hins : insertNodeAs branch.tables around input true nodeId = .ok after) :
    Good session link ⟨after, branch.lives, branch.path⟩ := by
  have hinser := inserts_of_insertNodeAs hins
  have hrevs : ∀ other, revisionsOf after other = revisionsOf branch.tables other := by
    intro other
    rw [revisionsOf, revisions_insert_plain (.inl rfl) hins, revisionsOf]
  have hfresh : branch.lives nodeId = none := hgood.no_life fun node hnode => by
    rw [hinser.fresh] at hnode
    exact nomatch hnode
  refine ⟨hgood.path, fun other life hlife => ?_, fun other hnone => ?_⟩
  · dsimp only at hlife ⊢
    have hne : other ≠ nodeId := by
      rintro rfl
      exact absurd (hfresh.symm.trans hlife) nofun
    rw [hrevs, hinser.nodes, if_neg hne]
    exact hgood.tracked other life hlife
  · dsimp only at hnone ⊢
    rw [hrevs, hinser.nodes]
    refine ⟨(hgood.untracked other hnone).1, fun node hnode => ?_⟩
    split_ifs at hnode
    · rw [← Option.some.inj hnode]
      rfl
    · exact (hgood.untracked other hnone).2 node hnode

theorem Good.create (hgood : Good session link branch) (hret : around.revisionRetention = none)
    (hins : insertNodeAs branch.tables around input false nodeId = .ok after) :
    Good session link ⟨after, fun other => if other = nodeId then
      some ((newRow branch.tables around input false).birth input.anchor.isSome) else branch.lives other,
      branch.path⟩ := by
  have hinser := inserts_of_insertNodeAs hins
  have hempty : revisionsOf branch.tables nodeId = [] := by
    refine (hgood.untracked nodeId (hgood.no_life fun node hnode => ?_)).1
    rw [hinser.fresh] at hnode
    exact nomatch hnode
  have hself : Tracked session link branch.path (some (newRow branch.tables around input false))
      (revisionsOf after nodeId) ((newRow branch.tables around input false).birth input.anchor.isSome) := by
    cases hanc : input.anchor with
    | none =>
      rw [revisionsOf, revisions_insert_plain (.inr hanc) hins, ← revisionsOf, hempty]
      exact tracked_unborn rfl
    | some anchor =>
      obtain ⟨revision, hrevs, hrev⟩ := revisions_insert_anchored hret hanc hins
      rw [revisionsOf_append hrevs, if_pos hrev.owner, hempty]
      exact tracked_born rfl hrev.holds
  have hother : ∀ other, other ≠ nodeId → revisionsOf after other = revisionsOf branch.tables other := by
    intro other hne
    cases hanc : input.anchor with
    | none => rw [revisionsOf, revisions_insert_plain (.inr hanc) hins, revisionsOf]
    | some anchor =>
      obtain ⟨revision, hrevs, hrev⟩ := revisions_insert_anchored hret hanc hins
      rw [revisionsOf_append hrevs, if_neg]
      exact fun heq => hne (heq.symm.trans hrev.owner)
  refine ⟨hgood.path, fun other life hlife => ?_, fun other hnone => ?_⟩
  · dsimp only at hlife ⊢
    rw [hinser.nodes]
    split_ifs at hlife ⊢ with hid
    · exact hid ▸ Option.some.inj hlife ▸ hself
    · rw [hother other hid]
      exact hgood.tracked other life hlife
  · dsimp only at hnone ⊢
    rw [hinser.nodes]
    split_ifs at hnone ⊢ with hid
    rw [hother other hid]
    exact hgood.untracked other hnone

/-- The tables with more stubs. -/
structure Stubbed (before after : Tables) : Prop where
  kept : ∀ nodeId row, before.nodes.get? nodeId = some row → after.nodes.get? nodeId = some row
  new : ∀ nodeId row, before.nodes.get? nodeId = none → after.nodes.get? nodeId = some row →
    row.isStub = true

theorem Good.stubs (hgood : Good session link branch) {uri : JsStr} {explicitParent : Option JsStr}
    (hstubs : ensureStubAncestors branch.tables around uri explicitParent = .ok after) :
    Good session link ⟨after, branch.lives, branch.path⟩ ∧ Stubbed branch.tables after := by
  refine @ensureStubAncestors_rule branch.tables after around _ (fun tables =>
    Good session link ⟨tables, branch.lives, branch.path⟩ ∧ Stubbed branch.tables tables) ?_ uri
    explicitParent hstubs ⟨hgood, fun _ _ hrow => hrow, fun _ _ hnone hsome =>
      absurd (hnone.symm.trans hsome) nofun⟩
  intro tables result ancestor parentUri hholds _ hins
  obtain ⟨hmid, hstubb⟩ := hholds
  have hinser := inserts_of_insertNodeAs hins
  refine ⟨hmid.stub hins, fun other row hrow => ?_, fun other row hnone hrow => ?_⟩
  · have hpres := hstubb.kept other row hrow
    rw [hinser.nodes, if_neg, hpres]
    rintro rfl
    exact absurd (hinser.fresh.symm.trans hpres) nofun
  · rw [hinser.nodes] at hrow
    split_ifs at hrow
    · rw [← Option.some.inj hrow]
      rfl
    · exact hstubb.new other row hnone hrow

omit [Tokenizer] in
theorem Good.congr_lives {tables : Tables} {lives other : JsStr → Option Life} {path : List JsStr}
    (hgood : Good session link ⟨tables, lives, path⟩) (hlives : other = lives) :
    Good session link ⟨tables, other, path⟩ := hlives ▸ hgood

theorem Good.inserted {stubbed : Tables} (hstubb : Stubbed branch.tables stubbed)
    (hmid : Good session link ⟨stubbed, branch.lives, branch.path⟩) (hret : around.revisionRetention = none)
    (hins : insertNode stubbed around input = .ok after) (source : NodeInput) (hsrc : source.anchor = input.anchor) :
    Good session link ⟨after, recordCreate branch.tables after branch.lives source, branch.path⟩ := by
  have hinser := inserts_of_insertNodeAs hins
  refine (hmid.create hret hins).congr_lives (funext fun other => ?_)
  have habs : branch.tables.nodes.get? (around.generateId input.uri) = none := by
    cases hrow : branch.tables.nodes.get? (around.generateId input.uri) with
    | none => rfl
    | some row => exact absurd (hinser.fresh.symm.trans (hstubb.kept _ row hrow)) nofun
  rw [recordCreate]
  by_cases hid : other = around.generateId input.uri
  · rw [if_pos hid, hid, habs, hinser.nodes, if_pos rfl, hsrc]
    rfl
  · rw [if_neg hid, hinser.nodes, if_neg hid]
    split
    · rename_i row hnone hsome
      rw [if_pos (hstubb.new other row hnone hsome)]
    · rfl

theorem Good.reconcile (hgood : Good session link branch) {active : List JsStr} (hact : IsPath link active)
    (hcov : ∀ nodeId life, branch.lives nodeId = some life →
      life.born = true ∨ life.changes = [] ∨ ∃ write ∈ life.changes, write.1 ∈ active) :
    Good session link ⟨reconcileNodeProjections branch.tables session active, branch.lives, active⟩ := by
  have hrevs : ∀ other, revisionsOf (reconcileNodeProjections branch.tables session active) other =
      revisionsOf branch.tables other := by
    intro other
    rw [revisionsOf, reconcileNodeProjections, revisions_reconcile, revisionsOf]
  have hmem : ∀ other, other ∈ writtenNodes branch.tables session ↔
      ∃ revision ∈ revisionsOf branch.tables other, revision.anchorSessionId = some session := by
    intro other
    simp only [writtenNodes, revisionsOf, mem_dedup, mem_map, mem_filter, decide_eq_true_eq]
    constructor
    · rintro ⟨revision, ⟨hmem, hsess⟩, howner⟩
      exact ⟨revision, ⟨hmem, howner⟩, hsess⟩
    · rintro ⟨revision, ⟨hmem, howner⟩, hsess⟩
      exact ⟨revision, ⟨hmem, hsess⟩, howner⟩
  refine ⟨hact, fun other life hlife => ?_, fun other hnone => ?_⟩
  · have htrac := hgood.tracked other life hlife
    obtain ⟨node, hnode, hreal, hval⟩ := htrac.row
    dsimp only
    rw [hrevs]
    refine { htrac with row := ?_ }
    by_cases hwrt : other ∈ writtenNodes branch.tables session
    · -- The source is the newest revision of the path, or the birth when the path has none.
      have hchain : revisionChain branch.tables other = revisionsOf branch.tables other :=
        htrac.increasing.orderBy_asc
      obtain ⟨source, hsrc, hholds⟩ : ∃ source,
          projectionSource (revisionChain branch.tables other) session active = some source ∧
            source.Holds (applyOn active life.base life.changes) := by
        rw [projectionSource, hchain]
        cases hfound : (revisionsOf branch.tables other).reverse.find? fun row =>
            row.applies session active with
        | some revision => exact ⟨revision, rfl, htrac.found active hact revision hfound⟩
        | none =>
          have hmis := htrac.missed active hact hfound
          rw [applyOn_missed hmis]
          rcases hcov other life hlife with hborn | hnoc | ⟨write, hwrite, hin⟩
          · obtain ⟨first, hfirst, hbase⟩ := htrac.birth hborn
            exact ⟨first, by rw [Option.none_or, hfirst], hbase⟩
          · cases hborn : life.born with
            | true =>
              obtain ⟨first, hfirst, hbase⟩ := htrac.birth hborn
              exact ⟨first, by rw [Option.none_or, hfirst], hbase⟩
            | false =>
              obtain ⟨revision, hrev, _⟩ := (hmem other).mp hwrt
              rw [htrac.empty hborn hnoc] at hrev
              exact absurd hrev not_mem_nil
          · exact absurd hin (hmis write hwrite)
      exact get?_reconcile hnode hreal hsrc hholds (.inl hwrt)
    · -- Without a revision of the session nothing was changed.
      have hnoc : life.changes = [] := by
        by_contra hchan
        exact hwrt ((hmem other).mpr (htrac.written hchan))
      rw [hnoc] at hval ⊢
      refine ⟨node, ?_, hreal, hval⟩
      rw [reconcileNodeProjections, get?_reconcile_of_not_mem hwrt, hnode]
  · dsimp only at hnone ⊢
    have hempty := (hgood.untracked other hnone).1
    rw [hrevs, reconcileNodeProjections, get?_reconcile_of_not_mem]
    · exact hgood.untracked other hnone
    · intro hwrt
      obtain ⟨revision, hrev, _⟩ := (hmem other).mp hwrt
      rw [hempty] at hrev
      exact absurd hrev not_mem_nil

/-! ### Runs -/

variable [JsonText.NumberText]

def Branch.step (branch : Branch) (call : Surroundings × Operation) : Branch where
  tables := perform branch.tables call
  lives := record branch.tables (perform branch.tables call) branch.lives call.2
  path := match call.2 with
    | .reconcileNodeProjections _ active => active
    | _ => branch.path

/-- Calls one after the other, each with its property. -/
def Along (condition : Branch → Surroundings × Operation → Prop) :
    Branch → List (Surroundings × Operation) → Prop
  | _, [] => True
  | branch, call :: rest => condition branch call ∧ Along condition (branch.step call) rest

theorem Good.step (hgood : Good session link branch) (hsess : session ≠ [])
    {call : Surroundings × Operation} (hfits : Fits session link branch call)
    (hproj : Projectable link branch call.2) : Good session link (branch.step call) := by
  obtain ⟨around, operation⟩ := call
  obtain ⟨hret, hfits⟩ := hfits
  have hret : around.revisionRetention = none := hret
  -- A write that is not rejected, and a creation that is.
  have hwrite : ∀ {nodeId : JsStr} {node : NodeRow} {patch : NodePatch}
      {provenance : Option RevisionAnchor}, branch.tables.nodes.get? nodeId = some node →
      FitsWrite session link node patch provenance → OnPath link branch nodeId node provenance →
      ∃ after, (updateNode branch.tables around nodeId patch provenance).map Prod.fst = .ok after ∧
        Good session link ⟨after, recordWrite branch.tables after branch.lives nodeId patch provenance,
          branch.path⟩ := by
    intro nodeId node patch provenance hnode hfits honp
    have hstub : node.isStub = true → patch.changesContent node = true := by
      intro hstub
      rwa [FitsWrite, if_pos hstub] at hfits
    obtain ⟨after, hafter, hwrit⟩ := writes_updateNode hret hnode hstub
    exact ⟨after, hafter, hgood.write hsess hnode hwrit hfits honp⟩
  have hrej : ∀ input, Good session link
      ⟨branch.tables, recordCreate branch.tables branch.tables branch.lives input, branch.path⟩ := by
    intro input
    refine hgood.congr_lives (funext fun other => ?_)
    rw [recordCreate]
    split
    · rename_i row hnone hsome
      exact absurd (hnone.symm.trans hsome) nofun
    · rfl
  have hsame : Stubbed branch.tables branch.tables :=
    ⟨fun _ _ hrow => hrow, fun _ _ hnone hsome => absurd (hnone.symm.trans hsome) nofun⟩
  cases operation with
  | put input =>
    rw [Branch.step, record]
    dsimp only
    cases hresol : resolveUri branch.tables input.uri with
    | some existing =>
      have hnode := (resolveUri_eq_some.mp hresol).1
      obtain ⟨after, hafter, hres⟩ :=
        hwrite hnode (hfits existing hresol) (hproj existing hresol)
      have hrun : put branch.tables around input = .ok after := by rw [put, hresol]; exact hafter
      rw [perform, Operation.run, hrun]
      exact hres
    | none =>
      cases hrun : put branch.tables around input with
      | error error =>
        rw [perform, Operation.run, hrun]
        exact hrej input
      | ok after =>
        rw [perform, Operation.run, hrun]
        rw [put, hresol] at hrun
        obtain ⟨stubbed, hstubs, hins⟩ := bind_eq_ok.mp hrun
        obtain ⟨hmid, hstubb⟩ := hgood.stubs hstubs
        exact Good.inserted hstubb hmid hret hins input rfl
  | insertNode input =>
    rw [Branch.step, record]
    dsimp only
    cases hrun : insertNode branch.tables around input with
    | error error =>
      rw [perform, Operation.run, hrun]
      exact hrej input
    | ok after =>
      rw [perform, Operation.run, hrun]
      exact Good.inserted hsame hgood hret hrun input rfl
  | updateNode nodeId patch provenance =>
    rw [Branch.step, record]
    dsimp only
    cases hnode : branch.tables.nodes.get? nodeId with
    | none =>
      have hrun : updateNode branch.tables around nodeId patch provenance =
          .error (js "updateNode: unknown node " ++ nodeId) := by rw [updateNode, hnode]
      rw [perform, Operation.run, hrun]
      refine hgood.congr_lives (funext fun other => ?_)
      rw [recordWrite, hnode]
      split_ifs with hid
      · rw [hid]
      · rfl
    | some node =>
      obtain ⟨after, hafter, hres⟩ := hwrite hnode (hfits node hnode) (hproj node hnode)
      rw [perform, Operation.run, hafter]
      exact hres
  | reconcileNodeProjections sessionId active =>
    obtain ⟨rfl, hact⟩ := hfits
    exact hgood.reconcile hact hproj
  | addAlias => exact hfits.elim
  | relocateMany => exact hfits.elim
  | rename => exact hfits.elim
  | consolidateGroup => exact hfits.elim
  | deleteCascade => exact hfits.elim
  | restoreDeleted => exact hfits.elim
  | restoreRevision => exact hfits.elim
  | addGlossaryEntry => exact hfits.elim
  | removeGlossaryEntry => exact hfits.elim
  | appendRaw => exact hfits.elim
  | syncRawBranch => exact hfits.elim
  | importSnapshot => exact hfits.elim

theorem Good.run (hgood : Good session link branch) (hsess : session ≠ [])
    {calls : List (Surroundings × Operation)} (hfits : Along (Fits session link) branch calls)
    (hproj : Along (fun branch call => Projectable link branch call.2) branch calls) :
    Good session link (calls.foldl Branch.step branch) := by
  induction calls generalizing branch with
  | nil => exact hgood
  | cons call rest ih => exact ih (hgood.step hsess hfits.1 hproj.1) hfits.2 hproj.2

omit [JsonText.NumberText] in
theorem good_seeded {start : Tables} {path : List JsStr} (hpath : IsPath link path)
    (hseed : seed Tables.empty around = .ok start) : Good session link (seededBranch start path) := by
  have hnode : ∀ {tables result : Tables} {uri content : JsStr}, tables.revisions = [] ∧
      (∀ id node, tables.nodes.get? id = some node → node.isStub = false) →
      seedNode around tables uri content = .ok result → result.revisions = [] ∧
        ∀ id node, result.nodes.get? id = some node → node.isStub = false := by
    intro tables result uri content hbef hseed
    rw [seedNode] at hseed
    split at hseed
    · exact Except.ok.inj hseed ▸ hbef
    · have hinser := inserts_of_insertNodeAs hseed
      refine ⟨(revisions_insert_plain (.inr rfl) hseed).trans hbef.1, fun id node hget => ?_⟩
      rw [hinser.nodes] at hget
      split_ifs at hget
      · exact Option.some.inj hget ▸ rfl
      · exact hbef.2 id node hget
  obtain ⟨first, hfirst, hseed⟩ := bind_eq_ok.mp hseed
  obtain ⟨second, hsnd, hthird⟩ := bind_eq_ok.mp hseed
  have hempty : (setKv Tables.empty schemaVersionKey (js "4")).revisions = [] ∧ ∀ id node,
      (setKv Tables.empty schemaVersionKey (js "4")).nodes.get? id = some node → node.isStub = false :=
    ⟨rfl, fun _ _ hget => by cases hget⟩
  obtain ⟨hrevs, hreal⟩ := hnode (hnode (hnode hempty hfirst) hsnd) hthird
  have hnone : ∀ id, revisionsOf start id = [] := fun id => by rw [revisionsOf, hrevs]; rfl
  refine ⟨hpath, fun id life hlife => ?_, fun id hlife => ⟨hnone id, fun node hget => ?_⟩⟩
  · obtain ⟨row, hrow, rfl⟩ := Option.map_eq_some_iff.mp hlife
    dsimp only [seededBranch]
    rw [hrow, hnone]
    exact tracked_unborn (hreal id row hrow)
  · dsimp only [seededBranch] at hlife hget
    rw [hget] at hlife
    cases hlife

/-- In every history of a session from a seeded store whose steps meet the condition, the rows are the
projection of the active path. -/
theorem memory_projection {start : Tables} {path : List JsStr}
    {calls : List (Surroundings × Operation)} (hsess : session ≠ []) (hpath : IsPath link path)
    (hseed : seed Tables.empty around = .ok start) (hfits : Along (Fits session link) (seededBranch start path) calls)
    (hproj : Along (fun branch call => Projectable link branch call.2) (seededBranch start path)
      calls) : Projected (calls.foldl Branch.step (seededBranch start path)) :=
  ((good_seeded hpath hseed).run hsess hfits hproj).projected

end Histories

section Sample

local instance projectionTokenizer : Tokenizer := plainTokenizer

local instance projectionNumbers : JsonText.NumberText := JsonText.decimalNumbers

/-- A session with an entry and one below it. -/
def sampleLink (entry : JsStr) : Option (Option JsStr) :=
  if entry = js "e1" then some none else if entry = js "e2" then some (some (js "e1")) else none

theorem inside_first {entry : JsStr} : Inside sampleLink entry (js "e1") ↔ entry = js "e1" := by
  have hroot : sampleLink (js "e1") = some none := by decide
  rw [inside_iff, hroot]
  constructor
  · rintro (heq | ⟨parent, hpar, _⟩)
    · exact heq.symm
    · exact nomatch hpar
  · exact fun heq => .inl heq.symm

theorem inside_second {entry : JsStr} : Inside sampleLink entry (js "e2") ↔ entry = js "e1" ∨ entry = js "e2" := by
  have hchild : sampleLink (js "e2") = some (some (js "e1")) := by decide
  rw [inside_iff, hchild]
  constructor
  · rintro (heq | ⟨parent, hpar, hinside⟩)
    · exact .inr heq.symm
    · obtain rfl := Option.some.inj (Option.some.inj hpar)
      exact .inl (inside_first.mp hinside)
  · rintro (heq | heq)
    · exact .inr ⟨_, rfl, inside_first.mpr heq⟩
    · exact .inl heq.symm

theorem isPath_first : IsPath sampleLink [js "e1"] :=
  .inr ⟨js "e1", fun _ => mem_singleton.trans inside_first.symm⟩

theorem isPath_second : IsPath sampleLink [js "e1", js "e2"] := by
  refine .inr ⟨js "e2", fun _ => ?_⟩
  rw [mem_cons, mem_singleton, inside_second]

def sampleWrite (uri content entry : String) : Operation :=
  .put { plainInput (js uri) (js content) .manual with
    anchorEntryId := some (some (js entry))
    anchorSessionId := some (some (js "s")) }

/-- A node without an archived creation is written to on one branch. -/
def exposedCalls : List (Surroundings × Operation) :=
  [(sampleAround, samplePut "history://a" "one"),
    (sampleAround, .reconcileNodeProjections (js "s") [js "e1", js "e2"]),
    (sampleAround, sampleWrite "history://a" "two" "e2"),
    (sampleAround, .reconcileNodeProjections (js "s") [js "e1"])]

theorem fitsWrite_sample {session : JsStr} {link : JsStr → Option (Option JsStr)}
    {tables : Tables} {uri : JsStr} {patch : NodePatch} {provenance : Option RevisionAnchor}
    (entry : JsStr) (hreal : (resolveUri tables uri).map (fun found => found.2.isStub) = some false)
    (hentry : entry ≠ []) (hlink : link entry ≠ none) (hprov : provenance = some ⟨some entry, some session⟩) :
    ∀ existing, resolveUri tables uri = some existing → FitsWrite session link existing.2 patch provenance := by
  intro existing hexis
  rw [hexis, Option.map_some] at hreal
  rw [FitsWrite, if_neg (by simpa using hreal)]
  exact ⟨entry, hentry, hlink, hprov⟩

/-- Off the branch the row has what was written on it. -/
theorem memory_projection_exposed : seed Tables.empty sampleAround = .ok sampleStart ∧ IsPath sampleLink [js "e1"] ∧
      Along (Fits (js "s") sampleLink) (seededBranch sampleStart [js "e1"]) exposedCalls ∧
        ¬ Projected (exposedCalls.foldl Branch.step (seededBranch sampleStart [js "e1"])) := by
  refine ⟨by decide +kernel, isPath_first, ⟨⟨rfl, fun existing hexis => ?_⟩, ⟨rfl, rfl, isPath_second⟩,
    ⟨rfl, ?_⟩, ⟨rfl, rfl, isPath_first⟩, trivial⟩, fun hprojec => ?_⟩
  · have hfree : resolveUri sampleStart (js "history://a") = none := by decide +kernel
    exact absurd (hfree.symm.trans hexis) nofun
  · exact fitsWrite_sample (js "e2") (by decide +kernel) (by decide) (by decide) (by decide)
  · have hlife : ((exposedCalls.foldl Branch.step (seededBranch sampleStart [js "e1"])).lives
        (js "history://a")).map (fun life => applyOn [js "e1"] life.base life.writes) =
          some ⟨js "one", .int 5, none, none⟩ := by decide +kernel
    obtain ⟨life, hsome, hval⟩ := Option.map_eq_some_iff.mp hlife
    have hrow := hprojec (js "history://a") life hsome
    have hpath : (exposedCalls.foldl Branch.step (seededBranch sampleStart [js "e1"])).path = [js "e1"] := rfl
    rw [hpath, hval] at hrow
    exact absurd hrow (by decide +kernel)

/-- A node with an archived creation is written to and left behind. -/
def bornCalls : List (Surroundings × Operation) :=
  [(sampleAround, sampleWrite "history://a" "one" "e1"), (sampleAround, sampleWrite "history://a" "two" "e1"),
    (sampleAround, .reconcileNodeProjections (js "s") [])]

theorem changes_recordCreate {before after : Tables} {lives : JsStr → Option Life} {input : NodeInput}
    (hlives : ∀ nodeId life, lives nodeId = some life → life.changes = []) :
    ∀ nodeId life, recordCreate before after lives input nodeId = some life → life.changes = [] := by
  intro nodeId life hlife
  unfold recordCreate at hlife
  split at hlife
  · split_ifs at hlife
    · exact hlives nodeId life hlife
    · exact Option.some.inj hlife ▸ rfl
  · exact hlives nodeId life hlife

theorem memory_projection_sample : Projected (bornCalls.foldl Branch.step (seededBranch sampleStart [js "e1"])) ∧
      ((bornCalls.foldl Branch.step (seededBranch sampleStart [js "e1"])).tables.nodes.get?
        (js "history://a")).map NodeRow.content = some (js "one") := by
  have hseed : seed Tables.empty sampleAround = .ok sampleStart := by decide +kernel
  have hfree : resolveUri sampleStart (js "history://a") = none := by decide +kernel
  refine ⟨memory_projection (by decide : js "s" ≠ []) isPath_first hseed ?_ ?_, by decide +kernel⟩
  · refine ⟨⟨rfl, fun existing hexis => ?_⟩, ⟨rfl, ?_⟩, ⟨rfl, rfl, .inl rfl⟩, trivial⟩
    · exact absurd (hfree.symm.trans hexis) nofun
    · exact fitsWrite_sample (js "e1") (by decide +kernel) (by decide) (by decide) (by decide)
  · have hseeded : ∀ nodeId life, (seededBranch sampleStart [js "e1"]).lives nodeId = some life →
        life.changes = [] := by
      intro nodeId life hlife
      obtain ⟨row, _, rfl⟩ := Option.map_eq_some_iff.mp hlife
      rfl
    have hcreat : ∀ nodeId life, ((seededBranch sampleStart [js "e1"]).step
        (sampleAround, sampleWrite "history://a" "one" "e1")).lives nodeId = some life →
          life.changes = [] := by
      intro nodeId life hlife
      simp only [Branch.step, record, sampleWrite, plainInput] at hlife
      have hfree : resolveUri (seededBranch sampleStart [js "e1"]).tables (js "history://a") = none := hfree
      rw [hfree] at hlife
      exact changes_recordCreate hseeded nodeId life hlife
    refine ⟨fun existing hexis => ?_, fun existing hexis _ => ⟨by decide +kernel, ?_⟩, ?_, trivial⟩
    · exact absurd (hfree.symm.trans hexis) nofun
    · intro life hlife write hwrite
      rw [hcreat existing.1 life hlife] at hwrite
      exact absurd hwrite not_mem_nil
    · intro nodeId life hlife
      by_cases hid : nodeId = js "history://a"
      · subst hid
        refine .inl ?_
        have hborn : ((((seededBranch sampleStart [js "e1"]).step
            (sampleAround, sampleWrite "history://a" "one" "e1")).step
              (sampleAround, sampleWrite "history://a" "two" "e1")).lives (js "history://a")).map
                Life.born = some true := by decide +kernel
        rw [hlife] at hborn
        exact Option.some.inj hborn
      · refine .inr (.inl (hcreat nodeId life ?_))
        have hfound : (resolveUri ((seededBranch sampleStart [js "e1"]).step
            (sampleAround, sampleWrite "history://a" "one" "e1")).tables (js "history://a")).map
              Prod.fst = some (js "history://a") := by decide +kernel
        obtain ⟨existing, hexis, hnode⟩ := Option.map_eq_some_iff.mp hfound
        generalize (seededBranch sampleStart [js "e1"]).step
          (sampleAround, sampleWrite "history://a" "one" "e1") = created at hexis hlife ⊢
        simp only [Branch.step, record, sampleWrite, plainInput] at hlife
        rw [hexis] at hlife
        dsimp only at hlife
        rw [recordWrite, hnode, if_neg hid] at hlife
        exact hlife

end Sample

end PiRp.Memory

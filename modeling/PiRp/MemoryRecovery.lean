import PiRp.MemorySnapshots

/-! Deletion and recovery. A deletion archives the node under its uri; `restoreDeleted` takes the
revision of the uri with the highest version, whichever node it belongs to, and brings back that node.
When no other node has a version as high under the uri and nothing else answers to it, this is the node
that was deleted last, with the revisions its retention limit has kept. -/

namespace PiRp.Memory

open List ParentForest

variable {tables result start : Tables} {around : Surroundings} {nodeId uri : JsStr} {node row : NodeRow}

/-! ### The revisions of a deletion -/

/-- A row without a uri is given one. -/
def RevisionRow.addressed (row : RevisionRow) (uri : JsStr) : RevisionRow :=
  { row with uri := row.uri.or (some uri) }

/-- The revision a deletion archives. -/
def lastRevision (tables : Tables) (around : Surroundings) (nodeId : JsStr) (node : NodeRow) :
    RevisionRow where
  nodeId
  version := currentVersion tables nodeId + 1
  uri := some node.uri
  content := node.content
  editorSource := some node.source.text
  editorModel := node.model
  createdAt := around.now
  importance := some node.importance
  disclosure := node.disclosure
  worldTs := node.worldTs
  updatedTs := some node.updatedTs
  anchorEntryId := none
  anchorSessionId := none

/-- The limit keeps a revision of the node. -/
def Retained (rows : List RevisionRow) (limit : Option Nat) (row : RevisionRow) : Prop :=
  ∀ count, limit = some count →
    (rows.filter fun other => other.nodeId = row.nodeId ∧ row.version < other.version).length < count

theorem mem_take_orderBy {versions : List Nat} {version count : Nat} (hmem : version ∈ versions)
    (hcount : (versions.filter fun other => version < other).length < count) :
    version ∈ (versions.insertionSort fun left right => right ≤ left).take count := by
  by_contra hnot
  have hperm := perm_insertionSort (fun left right : Nat => right ≤ left) versions
  have hsor := pairwise_insertionSort (fun left right : Nat => right ≤ left) versions
  generalize versions.insertionSort (fun left right => right ≤ left) = sorted at hnot hperm hsor
  have hsplit := take_append_drop count sorted
  have hdrop : version ∈ sorted.drop count := by
    have hall := hperm.mem_iff.mpr hmem
    rw [← hsplit, mem_append] at hall
    exact hall.resolve_left hnot
  -- Everything that is taken is newer, so there are too many newer ones.
  have hnewer : ∀ other ∈ sorted.take count, version < other := by
    intro other hother
    rw [← hsplit, pairwise_append] at hsor
    refine lt_of_le_of_ne (hsor.2.2 other hother version hdrop) fun heq => hnot (heq ▸ hother)
  have hlen : (sorted.take count).length = count := by
    rw [length_take, min_eq_left]
    by_contra hshort
    rw [drop_eq_nil_of_le (Nat.le_of_not_le hshort)] at hdrop
    exact absurd hdrop not_mem_nil
  have hle : (sorted.take count).length ≤ (sorted.filter fun other => version < other).length := by
    rw [← filter_eq_self.mpr fun other hother => decide_eq_true (hnewer other hother)]
    exact ((take_sublist count sorted).filter _).length_le
  rw [(hperm.filter _).length_eq, hlen] at hle
  omega

theorem revisions_dropNode (tables : Tables) (around : Surroundings) (nodeId : JsStr) (node : NodeRow) :
    ∃ kept, (dropNode tables around nodeId node).revisions =
        ((tables.revisions ++ [lastRevision tables around nodeId node]).filter kept).map (fun row =>
          if row.nodeId = nodeId then row.addressed node.uri else row) ∧
      (∀ row, row.nodeId ≠ nodeId → kept row = true) ∧
      ∀ row ∈ tables.revisions ++ [lastRevision tables around nodeId node], row.nodeId = nodeId →
        Retained (tables.revisions ++ [lastRevision tables around nodeId node]) around.revisionRetention row →
          kept row = true := by
  cases hlimit : around.revisionRetention with
  | none =>
    refine ⟨fun _ => true, ?_, fun _ _ => rfl, fun _ _ _ _ => rfl⟩
    dsimp only [dropNode, archiveRevision, applyRevisionRetention]
    rw [hlimit, filter_eq_self.mpr fun _ _ => rfl]
    rfl
  | some limit =>
    have hrows : (dropNode tables around nodeId node).revisions =
        ((tables.revisions ++ [lastRevision tables around nodeId node]).filter fun row =>
          row.nodeId ≠ nodeId || row.version ∈ ((Sql.orderBy RevisionRow.version .desc
            ((tables.revisions ++ [lastRevision tables around nodeId node]).filter fun row =>
              row.nodeId = nodeId)).map RevisionRow.version).take limit).map (fun row =>
            if row.nodeId = nodeId then row.addressed node.uri else row) := by
      dsimp only [dropNode, archiveRevision, applyRevisionRetention]
      rw [hlimit]
      rfl
    generalize tables.revisions ++ [lastRevision tables around nodeId node] = rows at hrows ⊢
    refine ⟨_, hrows, fun row hne => ?_, fun row hrow hid hret => ?_⟩
    · rw [Bool.or_eq_true]
      exact .inl (decide_eq_true hne)
    · rw [Bool.or_eq_true]
      refine .inr (decide_eq_true ?_)
      have hvers : (Sql.orderBy RevisionRow.version .desc (rows.filter fun row =>
          row.nodeId = nodeId)).map RevisionRow.version =
            ((rows.filter fun row => row.nodeId = nodeId).map RevisionRow.version).insertionSort
              fun left right => right ≤ left :=
        map_insertionSort _ _ _ _ fun _ _ _ _ => Iff.rfl
      rw [hvers]
      refine mem_take_orderBy ?_ ?_
      · exact mem_map_of_mem (mem_filter.mpr ⟨hrow, decide_eq_true hid⟩)
      · rw [filter_map, length_map, filter_filter]
        refine lt_of_eq_of_lt (congrArg List.length (filter_congr fun other _ => ?_))
          (hret limit rfl)
        rw [Function.comp_apply, hid, Bool.decide_and, Bool.and_comm]

theorem revisionsOf_dropNode {other : JsStr} (hother : other ≠ nodeId) :
    revisionsOf (dropNode tables around other node) nodeId = revisionsOf tables nodeId := by
  obtain ⟨kept, hrevs, hkept, _⟩ := revisions_dropNode tables around other node
  have hown : ((tables.revisions ++ [lastRevision tables around other node]).filter kept).filter
      (fun row => row.nodeId = nodeId) = tables.revisions.filter fun row => row.nodeId = nodeId := by
    rw [filter_filter, filter_append]
    have hlast : [lastRevision tables around other node].filter
        (fun row => decide (row.nodeId = nodeId) && kept row) = [] := by
      refine filter_eq_nil_iff.mpr fun row hrow => ?_
      rw [mem_singleton.mp hrow, Bool.and_eq_true, decide_eq_true_eq]
      exact fun hboth => hother hboth.1
    rw [hlast, append_nil]
    refine filter_congr fun row _ => ?_
    by_cases hid : row.nodeId = nodeId
    · rw [hkept row (hid ▸ hother.symm), Bool.and_true]
    · rw [decide_eq_false hid, Bool.false_and]
  have hid : ∀ row : RevisionRow,
      (if row.nodeId = other then row.addressed node.uri else row).nodeId = row.nodeId := by
    intro row
    split_ifs <;> rfl
  unfold revisionsOf
  rw [hrevs, filter_map]
  simp only [Function.comp_def, hid]
  rw [hown]
  refine (map_congr_left fun row hrow => ?_).trans (map_id _)
  rw [if_neg]
  · rfl
  · rw [of_decide_eq_true (mem_filter.mp hrow).2]
    exact hother.symm

theorem mem_revisions_dropNode {revision : RevisionRow} (huri : node.uri ≠ uri)
    (hmem : revision ∈ (dropNode tables around nodeId node).revisions) (hrev : revision.uri = some uri) :
    revision ∈ tables.revisions := by
  obtain ⟨kept, hrevs, _, _⟩ := revisions_dropNode tables around nodeId node
  rw [hrevs] at hmem
  obtain ⟨source, hsrc, heq⟩ := mem_map.mp hmem
  have hsame : source.uri = some uri ∧ revision = source := by
    split_ifs at heq
    · rw [← heq, RevisionRow.addressed] at hrev
      cases hown : source.uri with
      | none =>
        rw [hown] at hrev
        exact absurd (Option.some.inj hrev) huri
      | some present =>
        rw [hown] at hrev
        refine ⟨hrev, ?_⟩
        rw [← heq, RevisionRow.addressed, hown, Option.some_or, ← hown]
    · rw [heq]
      exact ⟨hrev, rfl⟩
  rw [hsame.2]
  rcases mem_append.mp (mem_filter.mp hsrc).1 with hold | hlast
  · exact hold
  · rw [mem_singleton.mp hlast] at hsame
    exact absurd (Option.some.inj hsame.1) huri

/-! ### The cascade below the node -/

/-- The deletion of descendants so far. -/
structure Undisturbed (start : Tables) (nodeId uri : JsStr) (tables : Tables) : Prop where
  rows : ∀ id row, tables.nodes.get? id = some row → start.nodes.get? id = some row
  present : tables.nodes.get? nodeId = start.nodes.get? nodeId
  own : revisionsOf tables nodeId = revisionsOf start nodeId
  uris : ∀ revision ∈ tables.revisions, revision.uri = some uri → revision ∈ start.revisions
  aliases : ∀ aliasUri entry, tables.aliases.get? aliasUri = some entry → start.aliases.get? aliasUri = some entry

theorem undisturbed_start (tables : Tables) (nodeId uri : JsStr) : Undisturbed tables nodeId uri tables :=
  ⟨fun _ _ hrow => hrow, rfl, rfl, fun _ hmem _ => hmem, fun _ _ hentry => hentry⟩

theorem get?_nodes_dropNode (id : JsStr) : (dropNode tables around nodeId node).nodes.get? id =
    if id = nodeId then none else tables.nodes.get? id := by
  obtain ⟨revisions, heq⟩ := dropNode_eq tables around nodeId node
  rw [heq]
  exact NodeTable.get?_delete id

theorem get?_aliases_dropNode {aliasUri : JsStr} {entry : AliasRow}
    (hentry : (dropNode tables around nodeId node).aliases.get? aliasUri = some entry) :
    tables.aliases.get? aliasUri = some entry ∧ entry.targetNodeId ≠ nodeId := by
  obtain ⟨revisions, heq⟩ := dropNode_eq tables around nodeId node
  rw [heq] at hentry
  dsimp only at hentry
  rw [JsMap.get?_filter, Option.filter_eq_some_iff] at hentry
  exact ⟨hentry.1, of_decide_eq_true hentry.2⟩

theorem Undisturbed.drop {other : JsStr} (hund : Undisturbed start nodeId uri tables)
    (around : Surroundings) (hother : other ≠ nodeId) (huri : node.uri ≠ uri) :
    Undisturbed start nodeId uri (dropNode tables around other node) where
  rows id row hrow := by
    rw [get?_nodes_dropNode] at hrow
    split_ifs at hrow
    exact hund.rows id row hrow
  present := by rw [get?_nodes_dropNode, if_neg hother.symm, hund.present]
  own := (revisionsOf_dropNode hother).trans hund.own
  uris revision hmem hrev :=
    hund.uris revision (mem_revisions_dropNode huri hmem hrev) hrev
  aliases aliasUri entry hentry := hund.aliases aliasUri entry (get?_aliases_dropNode hentry).1

theorem deleteCascade_split (hfor : Forest (link tables)) (hnode : tables.nodes.get? nodeId = some node)
    (around : Surroundings) : ∃ middle, deleteCascade tables around nodeId =
      .ok (dropNode middle around nodeId node) ∧ Undisturbed tables nodeId node.uri middle := by
  obtain ⟨after, hafter, _⟩ := deleteCascade_cut hfor around nodeId
  have hdel := hafter
  rw [deleteCascade, deleteCascadeFrom, hnode] at hdel
  obtain ⟨middle, hall, hresult⟩ := bind_eq_ok.mp hdel
  refine ⟨middle, hafter.trans hresult.symm, ?_⟩
  refine deleteAll_rule (fun {state child next} hstate hchild hend => ?_) hall (undisturbed_start _ _ _)
  -- Everything that is reached lies below the node and is not the node itself.
  have hbelow : ∀ {id}, Inside (link tables) nodeId id → ∀ {item row}, tables.nodes.get? item = some row →
      row.parentId = some id → Inside (link tables) nodeId item ∧ item ≠ nodeId := by
    intro id hid item row hrow hpar
    have hlink : link tables item = some (some id) := by rw [link, hrow, Option.map_some, hpar]
    refine ⟨.under hlink hid, ?_⟩
    rintro rfl
    exact (hfor id (hfor.parent_present hlink)).not_inside_child hlink hid
  have hreac : Inside (link tables) nodeId child ∧ child ≠ nodeId := by
    obtain ⟨entry, hentry, rfl⟩ := mem_map.mp hchild
    obtain ⟨hrow, hpar⟩ := NodeTable.mem_children.mp hentry
    exact hbelow .self hrow hpar
  refine @deleteCascadeFrom_rule _ _ _ _ (Undisturbed tables nodeId node.uri)
    (fun id => Inside (link tables) nodeId id ∧ id ≠ nodeId) ?_ ?_ _ hend hreac hstate
  · exact fun hstate hid hrow hpar => hbelow hid.1 (hstate.rows _ _ hrow) hpar
  · intro before state id present hbef hpres hstate hid
    refine hstate.drop around hid.2 fun huri => hid.2 ?_
    have hfound := NodeTable.byUri_eq_some.mpr ⟨hbef.rows _ _ hpres, huri⟩
    rw [NodeTable.byUri_eq_some.mpr ⟨hnode, rfl⟩] at hfound
    exact (Prod.mk.inj (Option.some.inj hfound)).1.symm

/-! ### The revision that is brought back -/

theorem head?_orderBy_desc {α : Type*} {key : α → Nat} {rows : List α} {first : α} (hfirst : first ∈ rows)
    (hgreat : ∀ other ∈ rows, other = first ∨ key other < key first) :
    (Sql.orderBy key .desc rows).head? = some first := by
  have htotal : Std.Total fun left right : α => key right ≤ key left :=
    ⟨fun left right => Nat.le_total _ _⟩
  have htrans : IsTrans α fun left right => key right ≤ key left :=
    ⟨fun _ _ _ hleft hright => hright.trans hleft⟩
  have hperm := perm_insertionSort (fun left right : α => key right ≤ key left) rows
  have hsor := pairwise_insertionSort (fun left right : α => key right ≤ key left) rows
  show (rows.insertionSort fun left right => key right ≤ key left).head? = some first
  cases hord : rows.insertionSort fun left right => key right ≤ key left with
  | nil =>
    rw [hord] at hperm
    exact absurd (hperm.mem_iff.mpr hfirst) not_mem_nil
  | cons head rest =>
    rw [hord] at hperm hsor
    rcases hgreat head (hperm.mem_iff.mp mem_cons_self) with rfl | hless
    · rfl
    · rcases mem_cons.mp (hperm.mem_iff.mpr hfirst) with rfl | hrest
      · rfl
      · exact absurd ((pairwise_cons.mp hsor).1 first hrest) (Nat.not_le_of_lt hless)

section

variable (hown : revisionsOf tables nodeId = revisionsOf start nodeId)

include hown

theorem currentVersion_of_own : currentVersion tables nodeId = currentVersion start nodeId := by
  unfold revisionsOf at hown
  rw [currentVersion, currentVersion, hown]

theorem lastRevision_of_own : lastRevision tables around nodeId node = lastRevision start around nodeId node := by
  rw [lastRevision, lastRevision, currentVersion_of_own hown]

theorem retained_of_own {last row : RevisionRow} {limit : Option Nat} (hrow : row.nodeId = nodeId)
    (hret : Retained (start.revisions ++ [last]) limit row) : Retained (tables.revisions ++ [last]) limit row := by
  intro count hcount
  refine lt_of_eq_of_lt ?_ (hret count hcount)
  have hnewer : ∀ rows : List RevisionRow, (rows.filter fun other =>
      decide (other.nodeId = row.nodeId ∧ row.version < other.version)) =
        (rows.filter fun other => decide (other.nodeId = nodeId)).filter fun other =>
          decide (row.version < other.version) := by
    intro rows
    rw [filter_filter]
    refine filter_congr fun other _ => ?_
    rw [hrow, Bool.decide_and, Bool.and_comm]
  unfold revisionsOf at hown
  rw [hnewer, hnewer, filter_append, filter_append start.revisions, hown]

end

/-- No other node has a revision under the uri that is as new as the next one of the node. -/
def Unrivalled (tables : Tables) (nodeId uri : JsStr) : Prop :=
  ∀ revision ∈ tables.revisions, revision.uri = some uri → revision.nodeId ≠ nodeId →
    revision.version ≤ currentVersion tables nodeId

theorem retained_last (hlimit : around.revisionRetention ≠ some 0) :
    Retained (tables.revisions ++ [lastRevision tables around nodeId node]) around.revisionRetention
      (lastRevision tables around nodeId node) := by
  intro count hcount
  have hnone : (tables.revisions ++ [lastRevision tables around nodeId node]).filter (fun other =>
      other.nodeId = (lastRevision tables around nodeId node).nodeId ∧
        (lastRevision tables around nodeId node).version < other.version) = [] := by
    refine filter_eq_nil_iff.mpr fun other hother hnewer => ?_
    obtain ⟨hid, hver⟩ := of_decide_eq_true hnewer
    rcases mem_append.mp hother with hold | hlast
    · have hle := version_le_currentVersion (mem_filter.mpr ⟨hold, decide_eq_true hid⟩)
      exact absurd (hle.trans (Nat.le_succ _)) (Nat.not_le_of_lt hver)
    · rw [mem_singleton.mp hlast] at hver
      exact absurd hver (Nat.lt_irrefl _)
  rw [hnone]
  refine Nat.pos_of_ne_zero ?_
  rintro rfl
  exact hlimit hcount

theorem revisionOf_dropNode (hlimit : around.revisionRetention ≠ some 0) (hunr : Unrivalled tables nodeId node.uri) :
    revisionOf (dropNode tables around nodeId node) node.uri none =
      some (lastRevision tables around nodeId node) := by
  obtain ⟨kept, hrevs, _, hkept⟩ := revisions_dropNode tables around nodeId node
  have hlast : (lastRevision tables around nodeId node) ∈ tables.revisions ++ [lastRevision tables around nodeId node] :=
    mem_append_right _ (mem_singleton_self _)
  have hadd : (if (lastRevision tables around nodeId node).nodeId = nodeId then
      (lastRevision tables around nodeId node).addressed node.uri
      else lastRevision tables around nodeId node) = lastRevision tables around nodeId node := if_pos rfl
  refine head?_orderBy_desc ?_ ?_
  · rw [mem_filter, hrevs]
    refine ⟨mem_map.mpr ⟨_, mem_filter.mpr ⟨hlast, ?_⟩, ?_⟩, decide_eq_true rfl⟩
    · exact hkept _ hlast rfl (retained_last hlimit)
    · exact hadd
  · intro other hother
    rw [mem_filter, hrevs] at hother
    obtain ⟨hmem, huri⟩ := hother
    obtain ⟨source, hsrc, rfl⟩ := mem_map.mp hmem
    rcases mem_append.mp (mem_filter.mp hsrc).1 with hold | hnew
    · refine .inr (Nat.lt_succ_of_le ?_)
      split_ifs with hid
      · have hown : source ∈ revisionsOf tables nodeId := mem_filter.mpr ⟨hold, decide_eq_true hid⟩
        have hle : source.version ≤ currentVersion tables nodeId := version_le_currentVersion hown
        exact hle
      · rw [if_neg hid] at huri
        exact hunr source hold (of_decide_eq_true huri) hid
    · rw [mem_singleton.mp hnew]
      exact .inl hadd

/-! ### The node that is brought back -/

/-- The ids of new ancestors are new and differ. -/
structure FreshIds (tables : Tables) (around : Surroundings) (uri : JsStr) : Prop where
  unused : ∀ ancestor ∈ ancestorUris uri, tables.nodes.get? (around.generateId ancestor) = none
  distinct : ∀ left ∈ ancestorUris uri, ∀ right ∈ ancestorUris uri,
    around.generateId left = around.generateId right → left = right

section Insertion

variable [Tokenizer]

theorem insertNodeAs_eq_ok {input : NodeInput} {isStub : Bool} (hid : tables.nodes.get? nodeId = none)
    (huri : tables.nodes.byUri input.uri = none) (hanch : input.anchor = none) :
    ∃ after, insertNodeAs tables around input isStub nodeId = .ok after ∧ after.revisions = tables.revisions := by
  have hinsert : ∃ nodes, tables.nodes.insert nodeId (newRow tables around input isStub) = .ok nodes := by
    have hnew : tables.nodes.rows.has nodeId = false := JsMap.get?_eq_none.mp hid
    rw [NodeTable.insert, if_neg (Bool.eq_false_iff.mp hnew), dif_pos]
    · exact ⟨_, rfl⟩
    · rw [JsMap.values, JsMap.entries_set_of_new _ hnew, map_append, map_append]
      refine nodup_append'.mpr ⟨tables.nodes.uris_nodup, nodup_singleton _, ?_⟩
      refine disjoint_singleton.mpr fun hmem => ?_
      obtain ⟨present, hpres, hsame⟩ := mem_map.mp hmem
      obtain ⟨entry, hentry, rfl⟩ := mem_map.mp hpres
      exact NodeTable.byUri_eq_none.mp huri entry.1 entry.2 (JsMap.get?_eq_some.mpr hentry) hsame
  obtain ⟨nodes, hnodes⟩ := hinsert
  refine ⟨_, bind_eq_ok.mpr ⟨nodes, hnodes, rfl⟩, ?_⟩
  rw [recordInsert, hanch]
  split_ifs
  · rfl
  · exact revisions_reindexNode

omit [Tokenizer] in
theorem byUri_of_resolveUri (hresol : resolveUri tables uri = none) : tables.nodes.byUri uri = none := by
  rw [resolveUri] at hresol
  cases hfound : tables.nodes.byUri uri with
  | none => rfl
  | some found =>
    rw [hfound] at hresol
    cases hresol

theorem stubAncestors_eq_ok {uris : List JsStr} {parentUri : Option JsStr}
    (hunus : ∀ ancestor ∈ uris, resolveId tables ancestor = none →
      tables.nodes.get? (around.generateId ancestor) = none)
    (hdist : ∀ left ∈ uris, ∀ right ∈ uris, around.generateId left = around.generateId right → left = right) :
    ∃ after, stubAncestors around uris tables parentUri = .ok after ∧ after.revisions = tables.revisions ∧
      (∀ id row, tables.nodes.get? id = some row → after.nodes.get? id = some row) ∧
      (∀ other id, resolveId tables other = some id → resolveId after other = some id) ∧
      ∀ ancestor ∈ uris, resolveId after ancestor ≠ none := by
  induction uris generalizing tables parentUri with
  | nil => exact ⟨tables, rfl, rfl, fun _ _ hrow => hrow, fun _ _ hid => hid, (by rintro _ ⟨⟩)⟩
  | cons ancestor rest ih =>
    have hrest : ∀ left ∈ rest, ∀ right ∈ rest,
        around.generateId left = around.generateId right → left = right := fun left hleft right hright =>
      hdist left (mem_cons_of_mem _ hleft) right (mem_cons_of_mem _ hright)
    rw [stubAncestors]
    cases hresol : resolveUri tables ancestor with
    | some found =>
      have hfound : resolveId tables ancestor = some found.1 := by rw [resolveId, hresol, Option.map_some]
      obtain ⟨after, hafter, hrevs, hrows, hkept, hall⟩ := @ih tables (some ancestor)
        (fun other hother => hunus other (mem_cons_of_mem _ hother)) hrest
      refine ⟨after, hafter, hrevs, hrows, hkept, fun other hother => ?_⟩
      rcases mem_cons.mp hother with rfl | hother
      · rw [hkept _ _ hfound]
        exact Option.some_ne_none _
      · exact hall other hother
    | none =>
      have hnone : resolveId tables ancestor = none := by rw [resolveId, hresol, Option.map_none]
      obtain ⟨stubbed, hstub, hsame⟩ := @insertNodeAs_eq_ok tables around (around.generateId ancestor) _
        (stubInput ancestor parentUri) true (hunus ancestor mem_cons_self hnone)
        (byUri_of_resolveUri hresol) rfl
      have hins := inserts_of_insertNodeAs hstub
      have hold : ∀ other id, resolveId tables other = some id → resolveId stubbed other = some id :=
        fun other id hother => hins.resolveId_of_old hnone hother
      have hstan : resolveId stubbed ancestor = some (around.generateId ancestor) :=
        resolveId_eq_some.mpr ⟨_, by rw [hins.nodes, if_pos rfl], .inl rfl⟩
      -- What does not resolve yet is another ancestor, so its id is still unused.
      have hnext : ∀ other ∈ rest, resolveId stubbed other = none →
          stubbed.nodes.get? (around.generateId other) = none := by
        intro other hother hfree
        rw [hins.nodes, if_neg]
        · refine hunus other (mem_cons_of_mem _ hother) ?_
          by_contra hres
          obtain ⟨id, hid⟩ := Option.ne_none_iff_exists'.mp hres
          rw [hold other id hid] at hfree
          cases hfree
        · intro hsameId
          rw [hdist other (mem_cons_of_mem _ hother) ancestor mem_cons_self hsameId, hstan] at hfree
          cases hfree
      obtain ⟨after, hafter, hrevs, hrows, hkept, hall⟩ := @ih stubbed (some ancestor) hnext hrest
      refine ⟨after, bind_eq_ok.mpr ⟨stubbed, hstub, hafter⟩, hrevs.trans hsame, ?_, ?_, ?_⟩
      · intro id row hrow
        refine hrows id row ?_
        rw [hins.nodes, if_neg, hrow]
        rintro rfl
        rw [hins.fresh] at hrow
        cases hrow
      · exact fun other id hother => hkept other id (hold other id hother)
      · intro other hother
        rcases mem_cons.mp hother with rfl | hother
        · rw [hkept _ _ hstan]
          exact Option.some_ne_none _
        · exact hall other hother

end Insertion

/-! ### Deletion and recovery together -/

/-- `deleteCascade` followed by `restoreDeleted`. -/
def forgetAndRestore [Tokenizer] (tables : Tables) (forgetting restoring : Surroundings)
    (nodeId uri : JsStr) : Except JsStr Tables := do
  let forgotten ← deleteCascade tables forgetting nodeId
  restoreDeleted forgotten restoring uri none

/-- What a recovery has brought back of a node: its id, uri and content, its place below the implicit
parent, and the revisions that were to be kept. -/
structure Recovered (before after : Tables) (nodeId : JsStr) (node : NodeRow)
    (keeps : RevisionRow → Prop) : Prop where
  back : ∃ row, after.nodes.get? nodeId = some row ∧ row.uri = node.uri ∧ row.content = node.content ∧
    row.parentId = (implicitParentUri node.uri).bind (resolveId after)
  parent : ∀ parentUri, implicitParentUri node.uri = some parentUri → resolveId after parentUri ≠ none
  chain : ∀ revision ∈ before.revisions, revision.nodeId = nodeId → keeps revision →
    revision.addressed node.uri ∈ after.revisions

/-- The node comes back after its deletion. -/
def Recoverable [Tokenizer] (tables : Tables) (forgetting restoring : Surroundings) (nodeId : JsStr)
    (node : NodeRow) (keeps : RevisionRow → Prop) : Prop :=
  ∃ restored, forgetAndRestore tables forgetting restoring nodeId node.uri = .ok restored ∧
    Recovered tables restored nodeId node keeps

/-- The revisions of the node that are within the limit after the deletion. -/
def KeptBy (tables : Tables) (around : Surroundings) (nodeId : JsStr) (node : NodeRow) :
    RevisionRow → Prop :=
  Retained (tables.revisions ++ [lastRevision tables around nodeId node]) around.revisionRetention

/-- The uri is not an alias of a node that stays. -/
def Unaliased (tables : Tables) (nodeId uri : JsStr) : Prop :=
  ∀ entry, tables.aliases.get? uri = some entry → tables.nodes.get? entry.targetNodeId ≠ none →
    Inside (link tables) nodeId entry.targetNodeId

section Recovery

variable [Tokenizer] {forgetting restoring : Surroundings}

omit [Tokenizer] in
theorem resolveUri_forgotten {middle forgotten : Tables} (hnode : tables.nodes.get? nodeId = some node)
    (hund : Undisturbed tables nodeId node.uri middle)
    (hforg : forgotten = dropNode middle around nodeId node) (hcut : Cut tables forgotten [nodeId])
    (hunal : Unaliased tables nodeId node.uri) : resolveUri forgotten node.uri = none := by
  have hrows : ∀ id row, forgotten.nodes.get? id = some row → tables.nodes.get? id = some row ∧ id ≠ nodeId := by
    intro id row hrow
    rw [hforg, get?_nodes_dropNode] at hrow
    split_ifs at hrow with hid
    exact ⟨hund.rows id row hrow, hid⟩
  by_contra hres
  obtain ⟨found, hfound⟩ := Option.ne_none_iff_exists'.mp hres
  have hid : resolveId forgotten node.uri = some found.1 := by rw [resolveId, hfound, Option.map_some]
  obtain ⟨row, hrow, huri | ⟨_, halias⟩⟩ := resolveId_eq_some.mp hid
  · obtain ⟨hbef, hne⟩ := hrows _ _ hrow
    have hsame := NodeTable.byUri_eq_some.mpr ⟨hbef, huri⟩
    rw [NodeTable.byUri_eq_some.mpr ⟨hnode, rfl⟩] at hsame
    exact hne (Prod.mk.inj (Option.some.inj hsame)).1.symm
  · obtain ⟨entry, hentry, htgt⟩ := Option.map_eq_some_iff.mp halias
    rw [hforg] at hentry
    have hbef := hund.aliases _ _ (get?_aliases_dropNode hentry).1
    rw [← htgt] at hrow
    have hinside := hunal entry hbef (by rw [(hrows _ _ hrow).1]; exact Option.some_ne_none _)
    have hgone := (hcut entry.targetNodeId).1 ⟨nodeId, mem_singleton_self _, hinside⟩
    rw [link, hrow] at hgone
    cases hgone

/-- `UPDATE nodes SET parent_id = ? WHERE node_id = ?`. -/
def relink (tables : Tables) (nodeId : JsStr) (parentId : Option JsStr) : Tables :=
  { tables with nodes := tables.nodes.modify nodeId (fun row => { row with parentId }) fun _ => rfl }

omit [Tokenizer] in
theorem resolveId_of_uris {other : Tables} {found : JsStr}
    (huris : ∀ id, (other.nodes.get? id).map NodeRow.uri = (tables.nodes.get? id).map NodeRow.uri)
    (haliases : other.aliases = tables.aliases) (hfound : resolveId tables uri = some found) :
    resolveId other uri = some found := by
  have hback : ∀ {id row}, other.nodes.get? id = some row →
      ∃ present, tables.nodes.get? id = some present ∧ present.uri = row.uri := by
    intro id row hrow
    have hsame := huris id
    rw [hrow, Option.map_some] at hsame
    exact Option.map_eq_some_iff.mp hsame.symm
  obtain ⟨row, hrow, hway⟩ := resolveId_eq_some.mp hfound
  have hsame := huris found
  rw [hrow, Option.map_some] at hsame
  obtain ⟨present, hpres, huri⟩ := Option.map_eq_some_iff.mp hsame
  refine resolveId_eq_some.mpr ⟨present, hpres, ?_⟩
  rcases hway with hown | ⟨hnone, halias⟩
  · exact .inl (huri.trans hown)
  · refine .inr ⟨NodeTable.byUri_eq_none.mpr fun id rival hrival hrivalUri => ?_, by rw [haliases, halias]⟩
    obtain ⟨old, hold, holdUri⟩ := hback hrival
    exact NodeTable.byUri_eq_none.mp hnone id old hold (holdUri.trans hrivalUri)

omit [Tokenizer] in
theorem get?_nodes_relink (parentId : Option JsStr) (id : JsStr) : (relink tables nodeId parentId).nodes.get? id =
      if id = nodeId then (tables.nodes.get? nodeId).map fun row => { row with parentId }
      else tables.nodes.get? id := by
  rw [relink]
  dsimp only
  rw [NodeTable.get?_modify]

omit [Tokenizer] in
theorem resolveId_relink (parentId : Option JsStr) :
    resolveId (relink tables nodeId parentId) = resolveId tables := by
  have huris : ∀ id, ((relink tables nodeId parentId).nodes.get? id).map NodeRow.uri =
      (tables.nodes.get? id).map NodeRow.uri := by
    intro id
    rw [get?_nodes_relink]
    split_ifs with hid
    · rw [hid, Option.map_map]
      rfl
    · rfl
  funext uri
  ext found
  exact ⟨resolveId_of_uris (fun id => (huris id).symm) rfl, resolveId_of_uris huris rfl⟩

theorem restoreDeleted_eq_ok {revision : RevisionRow} (hresol : resolveUri tables uri = none)
    (hrev : revisionOf tables uri none = some revision) (hid : tables.nodes.get? revision.nodeId = none)
    (hfresh : FreshIds tables around uri)
    (hother : ∀ ancestor ∈ ancestorUris uri, around.generateId ancestor ≠ revision.nodeId) :
    ∃ restored, restoreDeleted tables around uri none = .ok restored ∧ restored.revisions = tables.revisions ∧
      (∃ row, restored.nodes.get? revision.nodeId = some row ∧ row.uri = uri ∧ row.content = revision.content ∧
        row.parentId = (implicitParentUri uri).bind (resolveId restored)) ∧
      ∀ parentUri, implicitParentUri uri = some parentUri → resolveId restored parentUri ≠ none := by
  obtain ⟨inserted, hinsert, hsame⟩ := @insertNodeAs_eq_ok tables around revision.nodeId _
    (plainInput uri revision.content .imported) false hid (byUri_of_resolveUri hresol) rfl
  have hins := inserts_of_insertNodeAs hinsert
  obtain ⟨stubbed, hstubs, hrevs, hrows, _, hall⟩ := @stubAncestors_eq_ok inserted around _
    (ancestorUris uri) none (fun ancestor hanc _ => by
      rw [hins.nodes, if_neg (hother ancestor hanc), hfresh.unused ancestor hanc])
    hfresh.distinct
  have hrow := hrows revision.nodeId _ (by rw [hins.nodes, if_pos rfl])
  refine ⟨relink stubbed revision.nodeId ((implicitParentUri uri).bind fun parentUri =>
    (resolveUri stubbed parentUri).map Prod.fst), ?_, hrevs.trans hsame, ?_, ?_⟩
  · rw [restoreDeleted, hresol, hrev]
    exact bind_eq_ok.mpr ⟨inserted, hinsert, bind_eq_ok.mpr ⟨stubbed, hstubs, rfl⟩⟩
  · rw [resolveId_relink]
    refine ⟨{ newRow tables around (plainInput uri revision.content .imported) false with parentId := _ },
      ?_, rfl, rfl, rfl⟩
    rw [get?_nodes_relink, if_pos rfl, hrow, Option.map_some]
    rfl
  · intro parentUri hpar
    rw [resolveId_relink]
    exact hall parentUri (implicitParentUri_mem hpar)

/-- In a state whose parent links form a forest, a node that is deleted and restored comes back under
its id, uri and content, below its implicit parent, with the revisions the limit keeps. -/
theorem forgotten_restored (hfor : Forest (link tables)) (hnode : tables.nodes.get? nodeId = some node)
    (hlimit : forgetting.revisionRetention ≠ some 0) (hunr : Unrivalled tables nodeId node.uri)
    (hunal : Unaliased tables nodeId node.uri) (hfresh : FreshIds tables restoring node.uri) :
    Recoverable tables forgetting restoring nodeId node (KeptBy tables forgetting nodeId node) := by
  obtain ⟨middle, hforget, hund⟩ := deleteCascade_split hfor hnode forgetting
  obtain ⟨forgotten, hforg, hcut⟩ := deleteCascade_cut hfor forgetting nodeId
  obtain rfl : forgotten = dropNode middle forgetting nodeId node :=
    Except.ok.inj (hforg.symm.trans hforget)
  have hlast := @lastRevision_of_own _ _ forgetting _ node hund.own
  have hriv : Unrivalled middle nodeId node.uri := fun revision hrev huri hother => by
    rw [currentVersion_of_own hund.own]
    exact hunr revision (hund.uris revision hrev huri) huri hother
  have hgone : (dropNode middle forgetting nodeId node).nodes.get? nodeId = none := by
    rw [get?_nodes_dropNode, if_pos rfl]
  have hunus : ∀ ancestor ∈ ancestorUris node.uri,
      (dropNode middle forgetting nodeId node).nodes.get? (restoring.generateId ancestor) = none := by
    intro ancestor hanc
    rw [get?_nodes_dropNode]
    split_ifs
    · rfl
    · by_contra hpres
      obtain ⟨row, hrow⟩ := Option.ne_none_iff_exists'.mp hpres
      exact nomatch (hund.rows _ _ hrow).symm.trans (hfresh.unused ancestor hanc)
  have hother : ∀ ancestor ∈ ancestorUris node.uri, restoring.generateId ancestor ≠ nodeId := by
    intro ancestor hanc hsame
    have hfree := hfresh.unused ancestor hanc
    rw [hsame] at hfree
    exact nomatch hfree.symm.trans hnode
  obtain ⟨restored, hrestor, hrevs, hback, hpar⟩ := restoreDeleted_eq_ok
    (resolveUri_forgotten hnode hund rfl hcut hunal) (revisionOf_dropNode hlimit hriv)
    hgone ⟨hunus, hfresh.distinct⟩ hother
  refine ⟨restored, bind_eq_ok.mpr ⟨_, hforg, hrestor⟩, hback, hpar, ?_⟩
  intro revision hrev hown hkept
  obtain ⟨kept, hrows, _, hretains⟩ := revisions_dropNode middle forgetting nodeId node
  have hpres : revision ∈ revisionsOf middle nodeId := by
    rw [hund.own]
    exact mem_filter.mpr ⟨hrev, decide_eq_true hown⟩
  have hmem : revision ∈ middle.revisions ++ [lastRevision middle forgetting nodeId node] :=
    mem_append_left _ (mem_of_mem_filter hpres)
  rw [hrevs, hrows]
  refine mem_map.mpr ⟨revision, mem_filter.mpr ⟨hmem, hretains _ hmem hown ?_⟩, if_pos hown⟩
  rw [hlast]
  exact retained_of_own hund.own hown hkept

end Recovery

section Sample

local instance recoveryTokenizer : Tokenizer := plainTokenizer

local instance recoveryNumbers : JsonText.NumberText := JsonText.decimalNumbers

/-- Ids of other nodes than those of `sampleAround`. -/
def otherAround : Surroundings := { sampleAround with generateId := fun uri => uri ++ js "2" }

def lastOnly : Surroundings := { sampleAround with revisionRetention := some 1 }

def contentPatch (content : String) : NodePatch := { content := some (js content) }

/-- A node is written twice and deleted, and its uri is used again. -/
def reused : Tables :=
  actAll Tables.fresh [(sampleAround, .operation (samplePut "history://a" "one")),
    (sampleAround, .operation (.updateNode (js "history://a") (contentPatch "two") none)),
    (sampleAround, .operation (.deleteCascade (js "history://a"))),
    (otherAround, .operation (samplePut "history://a" "three"))]

def rewritten : Tables :=
  actAll Tables.fresh [(sampleAround, .operation (samplePut "history://a" "one")),
    (sampleAround, .operation (.updateNode (js "history://a") (contentPatch "two") none))]

/-- The uri of a node is an alias of another node. -/
def shadowed : Tables :=
  actAll Tables.fresh [(sampleAround, .operation (samplePut "history://a" "one")),
    (sampleAround, .operation (samplePut "history://b" "two")),
    (sampleAround, .operation (.addAlias (js "history://a") (js "history://b") none))]

/-- A node that has become its own parent. -/
def cyclic : Tables := sampleActions (aliasCycle.map .operation)

/-- The node is not there after the recovery, or one of its revisions is not. -/
def loses (tables : Tables) (forgetting restoring : Surroundings) (nodeId uri : JsStr) : Bool :=
  match forgetAndRestore tables forgetting restoring nodeId uri with
  | .error _ => true
  | .ok restored =>
    restored.nodes.get? nodeId = none ||
      tables.revisions.any fun revision =>
        revision.nodeId = nodeId && revision.addressed uri ∉ restored.revisions

/-- Some live node with the id does not come back with everything. -/
def Unrecoverable (tables : Tables) (forgetting restoring : Surroundings) (nodeId : JsStr) : Prop :=
  ∃ node, tables.nodes.get? nodeId = some node ∧ forgetting.revisionRetention ≠ some 0 ∧
    FreshIds tables restoring node.uri ∧
    ¬ Recoverable tables forgetting restoring nodeId node fun _ => True

theorem unrecoverable_of_loses {forgetting restoring : Surroundings} (uri : JsStr)
    (huri : (tables.nodes.get? nodeId).map NodeRow.uri = some uri) (hlimit : forgetting.revisionRetention ≠ some 0)
    (hunus : ∀ ancestor ∈ ancestorUris uri, tables.nodes.get? (restoring.generateId ancestor) = none)
    (hdist : ∀ left ∈ ancestorUris uri, ∀ right ∈ ancestorUris uri,
      restoring.generateId left = restoring.generateId right → left = right)
    (hloses : loses tables forgetting restoring nodeId uri = true) :
    Unrecoverable tables forgetting restoring nodeId := by
  obtain ⟨node, hnode, rfl⟩ := Option.map_eq_some_iff.mp huri
  refine ⟨node, hnode, hlimit, ⟨hunus, hdist⟩, ?_⟩
  rintro ⟨restored, hrestor, ⟨row, hrow, _⟩, _, hchain⟩
  rw [loses, hrestor, Bool.or_eq_true, decide_eq_true_eq, hrow, any_eq_true] at hloses
  rcases hloses with habs | ⟨revision, hmem, hlost⟩
  · exact nomatch habs
  · rw [Bool.and_eq_true, decide_eq_true_eq, decide_eq_true_eq] at hlost
    exact hlost.2 (hchain revision hmem hlost.1 trivial)

/-- A node does not come back after another node under its uri with a newer revision, nor whole with a
limit on its revisions, nor when its uri is an alias of another node or it is its own parent. -/
theorem recovery_lost : (StoreReachable reused ∧ Unrecoverable reused sampleAround sampleAround (js "history://a2")) ∧
    (StoreReachable rewritten ∧ Unrecoverable rewritten lastOnly sampleAround (js "history://a")) ∧
    (StoreReachable shadowed ∧ Unrecoverable shadowed sampleAround sampleAround (js "history://a")) ∧
    StoreReachable cyclic ∧ Unrecoverable cyclic sampleAround otherAround (js "history://a") := by
  refine ⟨⟨⟨_, rfl⟩, ?_⟩, ⟨⟨_, rfl⟩, ?_⟩, ⟨⟨_, rfl⟩, ?_⟩, storeReachable_sampleActions _, ?_⟩
  · apply unrecoverable_of_loses (js "history://a") <;> decide +kernel
  · apply unrecoverable_of_loses (js "history://a") <;> decide +kernel
  · apply unrecoverable_of_loses (js "history://a") <;> decide +kernel
  · apply unrecoverable_of_loses (js "history://a/c") <;> decide +kernel

/-- A node below a stub, with two revisions. -/
def sampleWrites : List Operation :=
  [samplePut "history://x/a" "one", .updateNode (js "history://x/a") (contentPatch "two") none,
    .updateNode (js "history://x/a") (contentPatch "three") none, .deleteCascade (js "history://x"),
    samplePut "history://x/a" "four"]

/-- With a limit of two the deletion keeps the revision before it. -/
def lastTwo : Surroundings := { sampleAround with revisionRetention := some 2 }

theorem forgotten_restored_sample : ∃ node,
    (sampleRun sampleWrites).nodes.get? (js "history://x/a") = some node ∧ node.content = js "four" ∧
      Recoverable (sampleRun sampleWrites) lastTwo otherAround (js "history://x/a") node
        (KeptBy (sampleRun sampleWrites) lastTwo (js "history://x/a") node) := by
  have hseed : seed Tables.empty sampleAround = .ok sampleStart := by decide +kernel
  have hfor : Forest (link (sampleRun sampleWrites)) :=
    forest_performAll (forest_seed hseed) (by decide +kernel) (by decide +kernel)
  have hfound : ((sampleRun sampleWrites).nodes.get? (js "history://x/a")).map
      (fun row => (row.uri, row.content)) = some (js "history://x/a", js "four") := by decide +kernel
  obtain ⟨node, hnode, hrow⟩ := Option.map_eq_some_iff.mp hfound
  obtain ⟨huri, hcont⟩ := Prod.mk.inj hrow
  refine ⟨node, hnode, hcont, forgotten_restored hfor hnode (by decide) ?_ ?_ ⟨?_, ?_⟩⟩
  · rw [huri]
    have hriv : ∀ revision ∈ (sampleRun sampleWrites).revisions, revision.uri = some (js "history://x/a") →
        revision.nodeId ≠ js "history://x/a" →
          revision.version ≤ currentVersion (sampleRun sampleWrites) (js "history://x/a") := by
      decide +kernel
    exact hriv
  · rw [huri]
    intro entry hentry
    have hnone : (sampleRun sampleWrites).aliases.get? (js "history://x/a") = none := by decide +kernel
    exact nomatch hnone.symm.trans hentry
  · rw [huri]
    decide +kernel
  · rw [huri]
    decide +kernel

end Sample

end PiRp.Memory

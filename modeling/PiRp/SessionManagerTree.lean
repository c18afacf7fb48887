import PiRp.RootPath
import PiRp.SessionManagerOperations

/-! The tree of a session. Every call of the session manager, failing or not, leaves a list of entries
with distinct ids in which a parent stands before its children; the index holds exactly these entries. So
every entry has one branch, and `getBranch` finds it. -/

namespace PiRp.Manager

open List Json

open Jsonl (newline nullable)

/-! ### Entries -/

/-- The keys of an entry around those of its place. -/
def ordered (front back : List String) : Prop :=
  ((js "type" :: front.map js) ++ [js "id", js "parentId", js "timestamp"] ++ back.map js).Pairwise KeyOrder

instance (front back : List String) : Decidable (ordered front back) :=
  inferInstanceAs (Decidable (List.Pairwise _ _))

section

variable (content : Content)

include content

theorem keys_members (base : Base) : ((content.members base).map Prod.fst).Pairwise KeyOrder := by
  cases content with
  | message => exact (by decide : ordered [] ["message"])
  | thinkingLevelChange => exact (by decide : ordered [] ["thinkingLevel"])
  | presetChange => exact (by decide : ordered [] ["presetId"])
  | modelChange => exact (by decide : ordered [] ["provider", "modelId"])
  | state => exact (by decide : ordered [] ["state"])
  | schemaChange => exact (by decide : ordered [] ["action", "schemaId", "namespace"])
  | strictChange => exact (by decide : ordered [] ["enabled"])
  | compaction => exact (by decide : ordered [] ["summary", "firstKeptEntryId", "tokensBefore", "details", "usage", "fromHook"])
  | custom => exact (by decide : ordered ["customType", "data"] [])
  | sessionInfo => exact (by decide : ordered [] ["name"])
  | customMessage => exact (by decide : ordered ["customType", "content", "display", "details"] [])
  | label => exact (by decide : ordered [] ["targetId", "label"])
  | branchSummary => exact (by decide : ordered [] ["fromId", "summary", "details", "usage", "fromHook"])

theorem member_entry (base : Base) (key : JsStr) :
    (content.entry base).member key = (content.members base).find key :=
  member_objectOf (keys_members content base) key

theorem type_entry (base : Base) :
    (content.entry base).member (js "type") = some (.string content.type) := member_entry content base _

theorem idOf_entry (base : Base) : idOf (content.entry base) = base.id := by
  rw [idOf, textOf, member_entry]
  cases content <;> rfl

theorem parentId_entry (base : Base) :
    (content.entry base).member (js "parentId") = some (nullable base.parentId) := by
  rw [member_entry]
  cases content <;> rfl

omit content in
theorem parentIdOf_of_member {entry : Json} {parentId : Option JsStr}
    (hmemb : entry.member (js "parentId") = some (nullable parentId)) :
    parentIdOf entry = parentId.bind SessionManager.nonEmpty := by
  rw [parentIdOf, textOf, hmemb]
  rcases parentId with _ | _ | _ <;> rfl

omit content in
theorem parent_of_bind_nonEmpty {parentId : Option JsStr} {id : JsStr}
    (hpar : parentId.bind SessionManager.nonEmpty = some id) : parentId = some id := by
  rcases parentId with _ | _ | ⟨unit, rest⟩
  · exact hpar
  · exact nomatch hpar
  · exact hpar

theorem isType_entry (base : Base) (type : JsStr) :
    isType (content.entry base) type = decide (content.type = type) := by
  refine decide_eq_decide.mpr ?_
  rw [type_entry, Option.some.injEq, Json.string.injEq]

theorem isHeader_entry (base : Base) : isHeader (content.entry base) = false := by
  rw [isHeader, isType_entry]
  cases content <;> rfl

theorem isLabel_entry (base : Base) : isLabel (content.entry base) = match content with
      | .label _ _ => true
      | _ => false := by
  rw [isLabel, isType_entry]
  cases content <;> rfl

theorem wellFormed_members (base : Base) :
    ∀ member ∈ content.members base, ∀ value, member.2 = some value → value.WellFormed := by
  have hload : ∀ {payload : Option Payload} {value : Json},
      payload.map Subtype.val = some value → value.WellFormed := by
    intro payload value hvalue
    obtain ⟨found, _, rfl⟩ := Option.map_eq_some_iff.mp hvalue
    exact found.2
  have hflag : ∀ {flag : Option Bool} {value : Json}, flag.map Json.bool = some value → value.WellFormed := by
    intro flag value hvalue
    obtain ⟨found, _, rfl⟩ := Option.map_eq_some_iff.mp hvalue
    exact wellFormed_bool found
  have htext : ∀ {text : Option JsStr} {value : Json},
      text.map string = some value → value.WellFormed := by
    intro text value hvalue
    obtain ⟨found, _, rfl⟩ := Option.map_eq_some_iff.mp hvalue
    exact wellFormed_string found
  have hnul : (nullable base.parentId).WellFormed := by
    cases base.parentId with
    | none => exact wellFormed_null
    | some parentId => exact wellFormed_string parentId
  rintro ⟨key, member⟩ hmemb value rfl
  cases content <;>
    simp only [Content.members, Content.front, Content.back, cons_append, nil_append, mem_cons,
      append_nil, not_mem_nil, or_false, Prod.mk.injEq, Option.some.injEq] at hmemb <;>
    grind [wellFormed_string, wellFormed_bool, wellFormed_number]

theorem wellFormed_entry (base : Base) : (content.entry base).WellFormed :=
  wellFormed_objectOf (keys_members content base) (wellFormed_members content base)

end

/-! ### Trees -/

/-- An entry of a tree. -/
structure IsEntry (entry : Json) : Prop where
  notHeader : isHeader entry = false
  named : idOf entry ≠ []
  object : ∃ props, entry = .object props
  wellFormed : entry.WellFormed

theorem isEntry_entry {content : Content} {base : Base} (hnamed : base.id ≠ []) : IsEntry (content.entry base) where
  notHeader := isHeader_entry content base
  named := (idOf_entry content base).symm ▸ hnamed
  object := ⟨_, rfl⟩
  wellFormed := wellFormed_entry content base

/-- Entries one after the other, each with a new id and a parent that is there. -/
inductive Grows : List Json → Prop
  | nil : Grows []
  | concat {entries : List Json} {entry : Json} (hents : Grows entries) (hentry : IsEntry entry)
      (hnew : idOf entry ∉ entries.map idOf)
      (hpar : ∀ parentId, parentIdOf entry = some parentId → parentId ∈ entries.map idOf) :
      Grows (entries ++ [entry])

/-- The links between entries; the list itself has the parents first. -/
def entryLinks : ParentLinks Json JsStr := ⟨idOf, parentIdOf, fun _ => 0⟩

/-- The branch from the root to an entry. -/
abbrev IsBranch (entries : List Json) (id : JsStr) (path : List Json) : Prop :=
  entryLinks.RootPath entries (some id) path

namespace Grows

variable {entries : List Json}

variable (hgrows : Grows entries)

include hgrows

theorem isEntry : ∀ entry ∈ entries, IsEntry entry := by
  induction hgrows with
  | nil => exact fun _ hentry => absurd hentry not_mem_nil
  | concat _ hentry _ _ ih =>
    intro other hother
    rcases mem_append.mp hother with hother | hother
    · exact ih other hother
    · exact mem_singleton.mp hother ▸ hentry

theorem nodup : (entries.map idOf).Nodup := by
  induction hgrows with
  | nil => exact nodup_nil
  | concat _ _ hnew _ ih =>
    rw [map_append]
    exact nodup_append'.mpr ⟨ih, nodup_singleton _, disjoint_singleton.mpr hnew⟩

theorem exists_branch : ∀ entry ∈ entries, ∃ path,
    IsBranch entries (idOf entry) path ∧ path.Sublist entries := by
  induction hgrows with
  | nil => exact fun _ hentry => absurd hentry not_mem_nil
  | @concat entries last hents _ _ hpar ih =>
    intro entry hentry
    have hkept : ∀ node ∈ entries, node ∈ entries ++ [last] := fun _ => mem_append_left _
    rcases mem_append.mp hentry with hentry | hentry
    · obtain ⟨path, hpath, hsub⟩ := ih entry hentry
      exact ⟨path, hpath.mono hkept, hsub.trans (sublist_append_left _ _)⟩
    · obtain rfl := mem_singleton.mp hentry
      have hlast : entry ∈ entries ++ [entry] := mem_append_right _ (mem_singleton_self _)
      cases hlink : parentIdOf entry with
      | none =>
        have hroot : entryLinks.RootPath (entries ++ [entry]) (entryLinks.parent entry) [] :=
          (show entryLinks.parent entry = none from hlink).symm ▸ .nil
        exact ⟨[] ++ [entry], .concat hlast hroot, sublist_append_right _ _⟩
      | some parentId =>
        obtain ⟨parent, hmem, rfl⟩ := mem_map.mp (hpar parentId hlink)
        obtain ⟨path, hpath, hsub⟩ := ih parent hmem
        refine ⟨path ++ [entry], .concat hlast ?_, hsub.append_right _⟩
        exact (show entryLinks.parent entry = _ from hlink).symm ▸ hpath.mono hkept

end Grows

/-! ### The index -/

theorem byId_setLabel (index : Index) (targetId label timestamp : JsStr) :
    (index.setLabel targetId label timestamp).byId = index.byId := by
  rw [Index.setLabel]
  split_ifs <;> rfl

theorem byId_add (index : Index) {entry : Json} (hentry : isHeader entry = false) :
    (index.add entry).byId = index.byId.set (idOf entry) entry := by
  rw [Index.add, hentry, if_neg Bool.false_ne_true]
  split_ifs
  · exact byId_setLabel _ _ _ _
  · rfl

/-- Each entry with its id. -/
def named (entries : List Json) : List (JsStr × Json) := entries.map fun entry => (idOf entry, entry)

theorem keys_named (entries : List Json) : (named entries).map Prod.fst = entries.map idOf := by
  rw [named, map_map]
  rfl

theorem entries_set_named {byId : JsMap JsStr Json} {entries : List Json} {entry : Json}
    (hbyId : byId.entries = named entries) (hnew : idOf entry ∉ entries.map idOf) :
    (byId.set (idOf entry) entry).entries = named (entries ++ [entry]) := by
  have hfree : byId.has (idOf entry) = false := by
    rw [← Bool.not_eq_true, JsMap.has_iff, JsMap.keys, hbyId, keys_named]
    exact hnew
  rw [JsMap.entries_set_of_new entry hfree, hbyId, named, named, map_append]
  rfl

theorem byId_foldl {entries : List Json} (hgrows : Grows entries) :
    (entries.foldl Index.add .empty).byId.entries = named entries := by
  induction hgrows with
  | nil => rfl
  | concat _ hentry hnew _ ih =>
    rw [foldl_append, foldl_cons, foldl_nil, byId_add _ hentry.notHeader]
    exact entries_set_named ih hnew

section Lookup

variable {byId : JsMap JsStr Json} {entries : List Json}

variable (hbyId : byId.entries = named entries)

include hbyId

theorem get?_of_named {entry : Json} (hentry : entry ∈ entries) : byId.get? (idOf entry) = some entry :=
  JsMap.get?_eq_some.mpr (hbyId ▸ mem_map_of_mem hentry)

theorem mem_of_get?_named {id : JsStr} {entry : Json}
    (hget : byId.get? id = some entry) : entry ∈ entries ∧ idOf entry = id := by
  have hmem := JsMap.get?_eq_some.mp hget
  rw [hbyId] at hmem
  obtain ⟨source, hsrc, heq⟩ := mem_map.mp hmem
  obtain ⟨rfl, rfl⟩ := Prod.mk.inj heq
  exact ⟨hsrc, rfl⟩

theorem has_named {id : JsStr} : byId.has id = true ↔ id ∈ entries.map idOf := by
  rw [JsMap.has_iff, JsMap.keys, hbyId, keys_named]

theorem climb_eq {leaf : Option JsStr} {path : List Json}
    (hpath : entryLinks.RootPath entries leaf path) {rounds : Nat} (hroun : path.length ≤ rounds) :
    SessionManager.climb byId rounds (leaf.bind byId.get?) = path.reverse := by
  induction hpath generalizing rounds with
  | nil => cases rounds <;> rfl
  | @concat node path hnode _ ih =>
    rw [length_append, length_singleton] at hroun
    cases rounds with
    | zero => exact absurd hroun (Nat.not_succ_le_zero _)
    | succ rounds =>
      rw [Option.bind_some, show entryLinks.key node = idOf node from rfl, get?_of_named hbyId hnode,
        SessionManager.climb, reverse_append]
      exact congrArg (node :: ·) (ih (Nat.le_of_succ_le_succ hroun))

end Lookup

/-! ### New ids -/

theorem taken_generateId {taken : JsStr → Bool} {draws : Nat → JsStr}
    (hlast : taken (draws 100) = false) : taken (generateId taken draws) = false := by
  rw [generateId]
  cases hfound : ((List.range 100).map fun attempt => (draws attempt).take 8).find? fun id => !taken id with
  | none => exact hlast
  | some id => simpa using find?_some hfound

theorem generateId_ne_nil (taken : JsStr → Bool) {draws : Nat → JsStr}
    (hlen : ∀ attempt, (draws attempt).length = 36) : generateId taken draws ≠ [] := by
  rw [generateId]
  cases hfound : ((List.range 100).map fun attempt => (draws attempt).take 8).find? fun id => !taken id with
  | none =>
    intro hnil
    rw [Option.getD_none] at hnil
    have := hlen 100
    rw [hnil] at this
    exact nomatch this
  | some id =>
    obtain ⟨attempt, _, hid⟩ := mem_map.mp (mem_of_find?_eq_some hfound)
    rw [Option.getD_some, ← hid, Ne, take_eq_nil_iff]
    rintro (hzero | hnil)
    · exact nomatch hzero
    · have := hlen attempt
      rw [hnil] at this
      exact nomatch this

/-- What `randomUUID` promises: its texts have 36 characters and do not repeat ids; a call draws an id for
each label at most. -/
structure NewIds (manager : SessionManager) (uuid : Nat → Nat → JsStr) : Prop where
  length : ∀ count attempt, (uuid count attempt).length = 36
  fresh : ∀ count, manager.byId.has (uuid count 100) = false
  distinct : ∀ count < manager.labelsById.entries.length, ∀ other < manager.labelsById.entries.length,
    uuid count 100 = uuid other 100 → count = other

/-! ### Sound managers -/

/-- The first line of a session file. -/
structure IsSessionHeader (entry : Json) : Prop where
  isHeader : isHeader entry = true
  object : ∃ props, entry = .object props
  id : ∃ id, entry.member (js "id") = some (.string id)
  version : entry.member (js "version") = some (.number currentSessionVersion)
  wellFormed : entry.WellFormed

/-- No label is empty. -/
def Index.Labelled (index : Index) : Prop :=
  ∀ targetId label, index.labelsById.get? targetId = some label → label ≠ []

/-- The manager holds a header and a tree of entries, which its index finds. -/
structure Sound (manager : SessionManager) (body : List Json) : Prop where
  entries : ∃ head, manager.fileEntries = head :: body ∧ IsSessionHeader head
  grows : Grows body
  byId : manager.byId.entries = named body
  leaf : ∀ id, manager.leafId = some id → id ∈ body.map idOf
  labelled : manager.toIndex.Labelled

theorem isSessionHeader_header (id timestamp cwd : JsStr) (parentSession : Option JsStr) :
    IsSessionHeader (header id timestamp cwd parentSession) := by
  have hkeys : [js "type", js "version", js "id", js "timestamp", js "cwd", js "parentSession"].Pairwise
      KeyOrder := by decide
  have hmemb : ∀ key, (header id timestamp cwd parentSession).member key =
      (headerMembers id timestamp cwd parentSession).find key := member_objectOf hkeys
  refine ⟨decide_eq_true (hmemb (js "type")), ⟨_, rfl⟩, ⟨id, hmemb _⟩, hmemb _, wellFormed_objectOf hkeys ?_⟩
  rintro ⟨key, member⟩ hmem value rfl
  simp only [headerMembers, mem_cons, not_mem_nil, or_false, Prod.mk.injEq, Option.some.injEq] at hmem
  rcases hmem with ⟨_, rfl⟩ | ⟨_, rfl⟩ | ⟨_, rfl⟩ | ⟨_, rfl⟩ | ⟨_, rfl⟩ | ⟨_, hvalue⟩
  · exact wellFormed_string _
  · exact wellFormed_number _
  · exact wellFormed_string _
  · exact wellFormed_string _
  · exact wellFormed_string _
  · obtain ⟨text, _, rfl⟩ := Option.map_eq_some_iff.mp hvalue.symm
    exact wellFormed_string text

namespace Index

variable {index : Index}

theorem Labelled.setLabel (hlab : index.Labelled) (targetId label timestamp : JsStr) :
    (index.setLabel targetId label timestamp).Labelled := by
  intro other found hfound
  rw [Index.setLabel] at hfound
  split_ifs at hfound with hempty
  · dsimp only at hfound
    rw [JsMap.get?_delete] at hfound
    split_ifs at hfound
    exact hlab other found hfound
  · dsimp only at hfound
    rw [JsMap.get?_set] at hfound
    split_ifs at hfound
    · exact Option.some.inj hfound ▸ hempty
    · exact hlab other found hfound

theorem Labelled.add (hlab : index.Labelled) (entry : Json) : (index.add entry).Labelled := by
  rw [Index.add]
  split_ifs
  · exact hlab
  · exact Labelled.setLabel (show (index.push entry).Labelled from hlab) _ _ _
  · exact hlab

theorem labelled_foldl (entries : List Json) (hlab : index.Labelled) : (entries.foldl Index.add index).Labelled := by
  induction entries generalizing index with
  | nil => exact hlab
  | cons entry rest ih => exact ih (hlab.add entry)

theorem labelled_empty : Index.empty.Labelled := fun _ _ hfound => nomatch hfound

theorem leafId_setLabel (index : Index) (targetId label timestamp : JsStr) :
    (index.setLabel targetId label timestamp).leafId = index.leafId := by
  rw [Index.setLabel]
  split_ifs <;> rfl

theorem leafId_add (index : Index) {entry : Json} (hentry : isHeader entry = false) :
    (index.add entry).leafId = some (idOf entry) := by
  rw [Index.add, hentry, if_neg Bool.false_ne_true]
  split_ifs
  · exact leafId_setLabel _ _ _ _
  · rfl

theorem leafId_foldl {entries : List Json} (hgrows : Grows entries) :
    (entries.foldl Index.add .empty).leafId = entries.getLast?.map idOf := by
  cases hgrows with
  | nil => rfl
  | concat _ hentry _ _ =>
    rw [foldl_append, foldl_cons, foldl_nil, leafId_add _ hentry.notHeader, getLast?_concat]
    rfl

end Index

namespace Sound

variable {manager changed : SessionManager} {body : List Json}

variable (hsound : Sound manager body)

include hsound

theorem congr (hents : changed.fileEntries = manager.fileEntries)
    (hindex : changed.toIndex = manager.toIndex) : Sound changed body where
  entries := hents ▸ hsound.entries
  grows := hsound.grows
  byId := hindex ▸ hsound.byId
  leaf := hindex ▸ hsound.leaf
  labelled := hindex ▸ hsound.labelled

theorem getBranch_eq {id : JsStr} (hid : id ≠ []) : manager.getBranch (some id) =
      (SessionManager.climb manager.byId body.length (manager.byId.get? id)).reverse := by
  have hnamed : SessionManager.nonEmpty id = some id := by
    cases id with
    | nil => exact absurd rfl hid
    | cons unit rest => rfl
  have hsize : manager.byId.entries.length = body.length := by rw [hsound.byId, named, length_map]
  rw [SessionManager.getBranch, Option.orElse_some, Option.bind_some, hnamed, hsize, Option.bind_some]

theorem getBranch_of_isBranch {id : JsStr} {path : List Json} (hid : id ≠ [])
    (hpath : IsBranch body id path) (hlen : path.length ≤ body.length) : manager.getBranch (some id) = path := by
  have hclimb := climb_eq hsound.byId hpath hlen
  rw [Option.bind_some] at hclimb
  rw [hsound.getBranch_eq hid, hclimb, reverse_reverse]

theorem branch {entry : Json} (hentry : entry ∈ body) : ∃ path,
    IsBranch body (idOf entry) path ∧ path.Sublist body ∧ manager.getBranch (some (idOf entry)) = path := by
  obtain ⟨path, hpath, hsub⟩ := hsound.grows.exists_branch entry hentry
  exact ⟨path, hpath, hsub,
    hsound.getBranch_of_isBranch (hsound.grows.isEntry entry hentry).named hpath hsub.length_le⟩

theorem exists_of_getBranch {id : JsStr}
    (hbran : manager.getBranch (some id) ≠ []) : ∃ entry ∈ body, idOf entry = id := by
  cases hget : manager.byId.get? id with
  | some entry =>
    obtain ⟨hentry, hid⟩ := mem_of_get?_named hsound.byId hget
    exact ⟨entry, hentry, hid⟩
  | none =>
    refine absurd ?_ hbran
    by_cases hid : id = []
    · subst hid
      rw [SessionManager.getBranch]
      cases manager.byId.entries.length <;> rfl
    · rw [hsound.getBranch_eq hid, hget]
      cases body.length <;> rfl

end Sound

/-! ### Calls on the tree -/

variable [JsonText.NumberText]

namespace SessionManager

/-- A label that is written is recorded. -/
def recordLabel (appended : SessionManager × Except JsStr Unit) (timestamp : JsStr) :
    Content → SessionManager
  | .label targetId label =>
    match appended.2 with
    | .ok () =>
      { appended.1 with toIndex := appended.1.toIndex.setLabel targetId (label.getD []) timestamp }
    | .error _ => appended.1
  | _ => appended.1

/-- An entry is appended. -/
def grow (manager : SessionManager) (fault : Option Fault) (content : Content) (base : Base) : SessionManager :=
  recordLabel (manager.appendEntry fault (content.entry base)) base.timestamp content

/-- The parent of the entry that a call appends. -/
def parentOf (manager : SessionManager) : TreeCall → Option JsStr
  | .branchWithSummary branchFromId _ _ _ _ => branchFromId
  | _ => manager.leafId

/-- What a call on the tree can do, with the parent of the entry that it appends. -/
inductive TreeStep (manager : SessionManager) (fault : Option Fault) (parentId : Option JsStr) :
    SessionManager → Prop
  | stay : TreeStep manager fault parentId manager
  | move {leaf : Option JsStr} (hleaf : ∀ id, leaf = some id → manager.byId.has id = true) :
      TreeStep manager fault parentId { manager with leafId := leaf }
  | append {content : Content} {base : Base} (hbase : base.parentId = parentId)
      (hpar : base.parentId = manager.leafId ∨
        ∀ id, base.parentId = some id → manager.byId.has id = true)
      (hnew : manager.byId.has base.id = false) (hnamed : base.id ≠ []) :
      TreeStep manager fault parentId (manager.grow fault content base)

theorem append_eq_grow (manager : SessionManager) (around : Surroundings) {content : Content}
    (hlabel : ∀ targetId label, content ≠ .label targetId label) : (manager.append around content).1 =
      manager.grow around.fault content
        ⟨generateId manager.byId.has (around.uuid 0), manager.leafId, around.now⟩ := by
  cases content with
  | label targetId label => exact absurd rfl (hlabel targetId label)
  | _ => rfl

theorem treeStep_append {manager : SessionManager} {around : Surroundings}
    (hids : NewIds manager around.uuid) {content : Content}
    (hlabel : ∀ targetId label, content ≠ .label targetId label) :
    TreeStep manager around.fault manager.leafId (manager.append around content).1 := by
  rw [append_eq_grow manager around hlabel]
  exact .append rfl (.inl rfl) (taken_generateId (hids.fresh 0)) (generateId_ne_nil _ (hids.length 0))

theorem treeStep_performTree {manager : SessionManager} {around : Surroundings}
    (hids : NewIds manager around.uuid) (call : TreeCall) :
    TreeStep manager around.fault (manager.parentOf call) (manager.performTree around call) := by
  have hfresh := taken_generateId (hids.fresh 0)
  have hnamed := generateId_ne_nil manager.byId.has (hids.length 0)
  cases call with
  | appendMessage message => exact treeStep_append hids (by rintro _ _ ⟨⟩)
  | appendThinkingLevelChange thinkingLevel => exact treeStep_append hids (by rintro _ _ ⟨⟩)
  | appendPresetChange presetId => exact treeStep_append hids (by rintro _ _ ⟨⟩)
  | appendModelChange provider modelId => exact treeStep_append hids (by rintro _ _ ⟨⟩)
  | appendSchemaChange action schemaId namespaceName => exact treeStep_append hids (by rintro _ _ ⟨⟩)
  | appendStrictChange enabled => exact treeStep_append hids (by rintro _ _ ⟨⟩)
  | appendCompaction summary firstKeptEntryId tokensBefore details fromHook usage =>
    exact treeStep_append hids (by rintro _ _ ⟨⟩)
  | appendCustomEntry customType data => exact treeStep_append hids (by rintro _ _ ⟨⟩)
  | appendSessionInfo name => exact treeStep_append hids (by rintro _ _ ⟨⟩)
  | appendState snapshot =>
    rw [performTree, appendState]
    cases manager.snapshotPayload snapshot with
    | error error => exact .stay
    | ok payload => exact @treeStep_append _ manager { around with now := snapshot.ts.getD around.now } hids (.state payload) (by rintro _ _ ⟨⟩)
  | appendCustomMessageEntry customType content display details id =>
    have hgrow : ∀ entryId, manager.byId.has entryId = false → entryId ≠ [] →
        TreeStep manager around.fault manager.leafId (manager.appendEntry around.fault
          ((Content.customMessage customType content display details).entry
            ⟨entryId, manager.leafId, around.now⟩)).1 := by
      intro entryId hnew hnamed
      exact @TreeStep.append _ manager around.fault manager.leafId (.customMessage customType content display details)
        ⟨entryId, manager.leafId, around.now⟩ rfl (.inl rfl) hnew hnamed
    rw [performTree]
    unfold appendCustomMessageEntry
    dsimp only
    split
    · exact hgrow _ hfresh hnamed
    · exact hgrow _ hfresh hnamed
    · rename_i id hid
      split_ifs with htaken
      · exact hgrow _ hfresh hnamed
      · exact hgrow id (Bool.not_eq_true _ ▸ htaken) hid
  | appendLabelChange targetId label =>
    rw [performTree, appendLabelChange]
    split_ifs with htgt
    · have hgrow := @TreeStep.append _ manager around.fault manager.leafId (.label targetId label)
        ⟨generateId manager.byId.has (around.uuid 0), manager.leafId, around.now⟩ rfl (.inl rfl) hfresh hnamed
      rw [grow, recordLabel] at hgrow
      rw [append]
      cases happend : manager.appendEntry around.fault ((Content.label targetId label).entry
          ⟨generateId manager.byId.has (around.uuid 0), manager.leafId, around.now⟩) with
      | mk appended result =>
        rw [happend] at hgrow
        cases result with
        | ok value => exact hgrow
        | error error => exact hgrow
    · exact .stay
  | branch branchFromId =>
    rw [performTree, branch]
    split_ifs with hbran
    · exact .move fun id hid => Option.some.inj hid ▸ hbran
    · exact .stay
  | resetLeaf => exact .move (by rintro _ ⟨⟩)
  | branchWithSummary branchFromId summary details fromHook usage =>
    rw [performTree, branchWithSummary]
    split_ifs with hbran
    · refine @TreeStep.append _ manager around.fault branchFromId
        (.branchSummary (branchFromId.getD (js "root")) summary details usage fromHook)
        ⟨generateId manager.byId.has (around.uuid 0), branchFromId, around.now⟩
        rfl (.inr fun id hid => ?_) hfresh hnamed
      rw [show branchFromId = some id from hid] at hbran
      exact hbran
    · exact .stay

/-- The call appends an entry, unless its write fails. -/
def appends (manager : SessionManager) : TreeCall → Bool
  | .branch _ | .resetLeaf => false
  | .appendLabelChange targetId _ => manager.byId.has targetId
  | .branchWithSummary branchFromId _ _ _ _ => branchFromId.all manager.byId.has
  | .appendState snapshot => (manager.snapshotPayload snapshot).isOk
  | _ => true

theorem moves_of_not_appends {manager : SessionManager} (around : Surroundings) {call : TreeCall}
    (happ : manager.appends call = false) : ∃ leaf,
      (leaf = manager.leafId ∨ ∀ id, leaf = some id → manager.byId.has id = true) ∧
        manager.performTree around call = { manager with leafId := leaf } := by
  have hstay : ∃ leaf, (leaf = manager.leafId ∨ ∀ id, leaf = some id → manager.byId.has id = true) ∧
      manager = { manager with leafId := leaf } := ⟨_, .inl rfl, rfl⟩
  cases call with
  | branch branchFromId =>
    rw [performTree, branch]
    split_ifs with hbran
    · exact ⟨some branchFromId, .inr fun id hid => Option.some.inj hid ▸ hbran, rfl⟩
    · exact hstay
  | resetLeaf => exact ⟨none, .inr (by rintro _ ⟨⟩), rfl⟩
  | appendLabelChange targetId label =>
    rw [performTree, appendLabelChange, show manager.byId.has targetId = false from happ]
    exact hstay
  | branchWithSummary branchFromId summary details fromHook usage =>
    rw [performTree, branchWithSummary, show branchFromId.all manager.byId.has = false from happ]
    exact hstay
  | appendState snapshot =>
    rw [appends] at happ
    rw [performTree, appendState]
    cases hload : manager.snapshotPayload snapshot with
    | error error => exact hstay
    | ok payload =>
      rw [hload] at happ
      cases happ
  | _ => cases happ

end SessionManager

/-! ### What the calls keep -/

namespace SessionManager

/-- Writing changes the storage and the mark of it, nothing else. -/
structure Writes (before after : SessionManager) : Prop where
  entries : after.fileEntries = before.fileEntries
  index : after.toIndex = before.toIndex
  persist : after.persist = before.persist
  file : after.sessionFile = before.sessionFile
  directory : after.sessionDir = before.sessionDir

theorem writes_rewriteFile (manager : SessionManager) (fault : Option Fault) :
    Writes manager (manager.rewriteFile fault).1 := by
  unfold rewriteFile
  split
  · split
    · exact ⟨rfl, rfl, rfl, rfl, rfl⟩
    · exact ⟨rfl, rfl, rfl, rfl, rfl⟩
  · exact ⟨rfl, rfl, rfl, rfl, rfl⟩

theorem writes_persistEntry (manager : SessionManager) (fault : Option Fault) (entry : Json) :
    Writes manager (manager.persistEntry fault entry).1 := by
  unfold persistEntry
  split
  · split_ifs
    · exact ⟨rfl, rfl, rfl, rfl, rfl⟩
    · split
      · exact ⟨rfl, rfl, rfl, rfl, rfl⟩
      · exact ⟨rfl, rfl, rfl, rfl, rfl⟩
    · exact ⟨rfl, rfl, rfl, rfl, rfl⟩
  · exact ⟨rfl, rfl, rfl, rfl, rfl⟩

theorem writes_flush (manager : SessionManager) (fault : Option Fault) : Writes manager (manager.flush fault).1 := by
  rw [flush]
  split_ifs
  · exact ⟨rfl, rfl, rfl, rfl, rfl⟩
  · exact writes_rewriteFile manager fault
  · exact ⟨rfl, rfl, rfl, rfl, rfl⟩

/-- What the growth by an entry does. -/
structure GrowsBy (before : SessionManager) (entry : Json) (after : SessionManager) : Prop where
  entries : after.fileEntries = before.fileEntries ++ [entry]
  byId : after.byId = before.byId.set (idOf entry) entry
  leaf : after.leafId = some (idOf entry)
  labelled : before.toIndex.Labelled → after.toIndex.Labelled

theorem writes_grow (manager : SessionManager) (fault : Option Fault) (content : Content) (base : Base) :
    (manager.grow fault content base).persist = manager.persist ∧
      (manager.grow fault content base).sessionFile = manager.sessionFile := by
  have hwrit := writes_persistEntry { manager with
    toIndex := manager.toIndex.push (content.entry base)
    fileEntries := manager.fileEntries ++ [content.entry base] } fault (content.entry base)
  rw [grow]
  unfold recordLabel
  split
  · split
    · exact ⟨hwrit.persist, hwrit.file⟩
    · exact ⟨hwrit.persist, hwrit.file⟩
  · exact ⟨hwrit.persist, hwrit.file⟩

theorem growsBy_grow (manager : SessionManager) (fault : Option Fault) (content : Content) (base : Base) :
    GrowsBy manager (content.entry base) (manager.grow fault content base) := by
  have hwrit := writes_persistEntry { manager with
    toIndex := manager.toIndex.push (content.entry base)
    fileEntries := manager.fileEntries ++ [content.entry base] } fault (content.entry base)
  have hplain : GrowsBy manager (content.entry base)
      (manager.appendEntry fault (content.entry base)).1 := by
    refine ⟨hwrit.entries, ?_, ?_, fun hlab => ?_⟩
    · exact congrArg Index.byId hwrit.index
    · exact congrArg Index.leafId hwrit.index
    · rw [appendEntry, hwrit.index]
      exact hlab
  rw [grow]
  unfold recordLabel
  split
  · split
    · refine ⟨hplain.entries, ?_, ?_, fun hlab => (hplain.labelled hlab).setLabel _ _ _⟩
      · exact (byId_setLabel _ _ _ _).trans hplain.byId
      · exact (Index.leafId_setLabel _ _ _ _).trans hplain.leaf
    · exact hplain
  · exact hplain

end SessionManager

namespace Sound

variable {manager : SessionManager} {body : List Json}

theorem grow (hsound : Sound manager body) {content : Content} {base : Base} (fault : Option Fault)
    (hpar : base.parentId = manager.leafId ∨ ∀ id, base.parentId = some id → manager.byId.has id = true)
    (hnew : manager.byId.has base.id = false) (hnamed : base.id ≠ []) :
    Sound (manager.grow fault content base) (body ++ [content.entry base]) := by
  have hgrows := SessionManager.growsBy_grow manager fault content base
  have hfree : idOf (content.entry base) ∉ body.map idOf := by
    rw [idOf_entry, ← has_named hsound.byId, hnew]
    exact Bool.false_ne_true
  obtain ⟨head, hents, hhead⟩ := hsound.entries
  refine ⟨⟨head, ?_, hhead⟩, .concat hsound.grows (isEntry_entry hnamed) hfree fun parentId hlink => ?_, ?_,
    fun id hid => ?_, hgrows.labelled hsound.labelled⟩
  · rw [hgrows.entries, hents, cons_append]
  · have hbase := parent_of_bind_nonEmpty
      ((parentIdOf_of_member (parentId_entry content base)).symm.trans hlink)
    rcases hpar with hleaf | hthere
    · exact hsound.leaf parentId (hleaf.symm.trans hbase)
    · exact (has_named hsound.byId).mp (hthere parentId hbase)
  · rw [hgrows.byId]
    exact entries_set_named hsound.byId hfree
  · rw [hgrows.leaf] at hid
    rw [map_append, mem_append]
    exact .inr (mem_singleton.mpr (Option.some.inj hid).symm)

end Sound

end PiRp.Manager

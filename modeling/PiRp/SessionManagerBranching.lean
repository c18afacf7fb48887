import PiRp.SessionManagerTree

/-! Changes that replace entries: the text of a message is changed in place, and a branch becomes a
session of its own. Its labels are left out, the entries behind them are chained to the ones before them,
and the labels that are set are written again at the end. Either way the entries are a tree. -/

namespace PiRp.Manager

open List Json

open Jsonl (newline nullable)

/-! ### Changes in place -/

/-- The change keeps the place of an entry in the tree. -/
structure KeepsPlace (change : Json → Json) (entry : Json) : Prop where
  id : idOf (change entry) = idOf entry
  parent : parentIdOf (change entry) = parentIdOf entry
  isEntry : IsEntry (change entry)

theorem Grows.map {change : Json → Json} {entries : List Json} (hgrows : Grows entries)
    (hchg : ∀ entry ∈ entries, KeepsPlace change entry) : Grows (entries.map change) := by
  have hids : ∀ {others : List Json}, (∀ entry ∈ others, KeepsPlace change entry) →
      (others.map change).map idOf = others.map idOf := by
    intro others hoth
    rw [map_map]
    exact map_congr_left fun entry hentry => (hoth entry hentry).id
  induction hgrows with
  | nil => exact .nil
  | @concat entries entry _ _ hnew hpar ih =>
    have hbef : ∀ other ∈ entries, KeepsPlace change other := fun other hother =>
      hchg other (mem_append_left _ hother)
    have hlast := hchg entry (mem_append_right _ (mem_singleton_self _))
    rw [map_append, map_singleton]
    refine .concat (ih hbef) hlast.isEntry ?_ fun parentId hlink => ?_
    · rw [hlast.id, hids hbef]
      exact hnew
    · rw [hids hbef]
      exact hpar parentId (hlast.parent.symm.trans hlink)

variable {key : JsStr}

theorem isType_withMember (entry : Json) (value : Json) (hkey : key ≠ js "type")
    (type : JsStr) : isType (entry.withMember key value) type = isType entry type := by
  refine decide_eq_decide.mpr ?_
  rw [member_withMember, if_neg hkey]

theorem textOf_withMember (entry : Json) (value : Json) {other : JsStr}
    (hkey : key ≠ other) : textOf (entry.withMember key value) other = textOf entry other := by
  rw [textOf, textOf, member_withMember, if_neg hkey]

theorem parentIdOf_withMember (entry : Json) (value : Json) (hkey : key ≠ js "parentId") :
    parentIdOf (entry.withMember key value) = parentIdOf entry := by
  rw [parentIdOf, parentIdOf, textOf_withMember entry value hkey]

variable {entry : Json}

theorem isEntry_withMember (hentry : IsEntry entry) {value : Json}
    (hvalue : value.WellFormed) (htype : key ≠ js "type") (hid : key ≠ js "id") :
    IsEntry (entry.withMember key value) where
  notHeader := (isType_withMember entry value htype _).trans hentry.notHeader
  named := (textOf_withMember entry value hid).trans_ne hentry.named
  object := isObject_withMember entry key value
  wellFormed := wellFormed_withMember hentry.wellFormed key hvalue

theorem keepsPlace_withMember (hentry : IsEntry entry) {value : Json}
    (hvalue : value.WellFormed) (hkey : key ∉ [js "type", js "id", js "parentId"]) :
    KeepsPlace (fun entry => entry.withMember key value) entry := by
  simp only [mem_cons, not_mem_nil, or_false, not_or] at hkey
  exact ⟨textOf_withMember entry value hkey.2.1, parentIdOf_withMember entry value hkey.2.2,
    isEntry_withMember hentry hvalue hkey.1 hkey.2.1⟩

theorem wellFormed_textContent (text : JsStr) : (array [.object [(js "type", .string (js "text")),
    (js "text", .string text)]]).WellFormed := by
  have hkeys : [js "type", js "text"].Pairwise KeyOrder := by decide
  refine wellFormed_array (forall_mem_singleton.mpr (Json.wellFormed_object_iff.mpr
    ⟨pairwise_map.mp hkeys, forall_mem_cons.mpr ⟨wellFormed_string _, ?_⟩⟩))
  exact forall_mem_singleton.mpr (wellFormed_string text)

variable {changed : Json}

theorem changeText_spec {text : JsStr} (hentry : entry.WellFormed)
    (hchg : SessionManager.changeText entry text = some changed) : ∃ key value,
      changed = entry.withMember key value ∧ value.WellFormed ∧
        key ∉ [js "type", js "id", js "parentId"] ∧ isLabel entry = false := by
  have hnotLabel : ∀ {type : JsStr}, isType entry type = true → type ≠ js "label" → isLabel entry = false := by
    intro type htype hne
    refine decide_eq_false fun hlabel => hne ?_
    exact Json.string.inj (Option.some.inj ((of_decide_eq_true htype).symm.trans hlabel))
  rw [SessionManager.changeText] at hchg
  split_ifs at hchg with hmsg hcus
  · refine ⟨_, _, (Option.some.inj hchg).symm, wellFormed_withMember ?_ _ (wellFormed_textContent text), by decide,
      hnotLabel hmsg (by decide)⟩
    cases hmemb : entry.member (js "message") with
    | none => exact wellFormed_null
    | some message => exact wellFormed_member hentry hmemb
  · exact ⟨_, _, (Option.some.inj hchg).symm, wellFormed_string text, by decide,
      hnotLabel hcus (by decide)⟩

/-- The entries with the one of an id replaced. -/
def replaced (id : JsStr) (changed : Json) (entries : List Json) : List Json :=
  entries.map fun entry => if !isHeader entry && idOf entry = id then changed else entry

theorem entries_modify_named {byId : JsMap JsStr Json} {entries : List Json} {id : JsStr}
    (hbyId : byId.entries = named entries) (hid : idOf changed = id)
    (hents : ∀ entry ∈ entries, isHeader entry = false) :
    (byId.modify id fun _ => changed).entries = named (replaced id changed entries) := by
  have hmod : (byId.modify id fun _ => changed).entries =
      (named entries).map fun entry => if entry.1 = id then (entry.1, changed) else entry := by
    rw [← hbyId]
    rfl
  rw [hmod, named, replaced, named, map_map, map_map]
  refine map_congr_left fun entry hentry => ?_
  rw [Function.comp_apply, Function.comp_apply, hents entry hentry, Bool.not_false, Bool.true_and]
  by_cases hsame : idOf entry = id
  · rw [if_pos hsame, if_pos (decide_eq_true hsame), hid, hsame]
  · rw [if_neg hsame, if_neg (by simpa using hsame)]

theorem Sound.replaceEntry {manager : SessionManager} {body : List Json} (hsound : Sound manager body)
    {id text : JsStr} (hget : manager.byId.get? id = some entry)
    (hchg : SessionManager.changeText entry text = some changed) :
    Sound (manager.replaceEntry id changed) (replaced id changed body) := by
  obtain ⟨hentry, rfl⟩ := mem_of_get?_named hsound.byId hget
  have hisEntry := hsound.grows.isEntry entry hentry
  obtain ⟨key, value, rfl, hvalue, hkey, _⟩ := changeText_spec hisEntry.wellFormed hchg
  have hplace := keepsPlace_withMember hisEntry hvalue hkey
  have hchan : ∀ other ∈ body, KeepsPlace (fun other =>
      if !isHeader other && idOf other = idOf entry then entry.withMember key value else other) other := by
    intro other hother
    by_cases hsame : (!isHeader other && decide (idOf other = idOf entry)) = true
    · have hid := of_decide_eq_true (Bool.and_eq_true_iff.mp hsame).2
      obtain rfl := inj_on_of_nodup_map hsound.grows.nodup hother hentry hid
      refine ⟨?_, ?_, ?_⟩ <;> rw [if_pos hsame]
      · exact hplace.id
      · exact hplace.parent
      · exact hplace.isEntry
    · refine ⟨?_, ?_, ?_⟩ <;> rw [if_neg hsame]
      exact hsound.grows.isEntry other hother
  have hids : (replaced (idOf entry) (entry.withMember key value) body).map idOf = body.map idOf := by
    rw [replaced, map_map]
    exact map_congr_left fun other hother => (hchan other hother).id
  obtain ⟨head, hents, hhead⟩ := hsound.entries
  refine ⟨⟨head, ?_, hhead⟩, hsound.grows.map hchan, ?_, fun id hid => ?_, hsound.labelled⟩
  · rw [SessionManager.replaceEntry, hents, map_cons, hhead.isHeader]
    rfl
  · exact entries_modify_named hsound.byId hplace.id fun other hother =>
      (hsound.grows.isEntry other hother).notHeader
  · rw [hids]
    exact hsound.leaf id hid

/-! ### The entries of a branch -/

theorem IsEntry.rechained (hentry : IsEntry entry) (parentId : Option JsStr) :
    IsEntry (entry.withMember (js "parentId") (nullable parentId)) := by
  refine isEntry_withMember hentry ?_ (by decide) (by decide)
  cases parentId with
  | none => exact wellFormed_null
  | some parentId => exact wellFormed_string parentId

theorem idOf_rechained (entry : Json) (parentId : Option JsStr) :
    idOf (entry.withMember (js "parentId") (nullable parentId)) = idOf entry :=
  textOf_withMember entry _ (by decide)

theorem parentIdOf_rechained (entry : Json) (parentId : Option JsStr) :
    parentIdOf (entry.withMember (js "parentId") (nullable parentId)) = parentId.bind SessionManager.nonEmpty :=
  parentIdOf_of_member (by rw [member_withMember, if_pos rfl])

theorem ids_rechain (parentId : Option JsStr) (path : List Json) :
    (SessionManager.rechain parentId path).map idOf = (path.filter fun entry => !isLabel entry).map idOf := by
  induction path generalizing parentId with
  | nil => rfl
  | cons entry rest ih =>
    rw [SessionManager.rechain]
    by_cases hlabel : isLabel entry = true
    · rw [if_pos hlabel, ih, filter_cons_of_neg (by simp [hlabel])]
    · rw [if_neg hlabel, map_cons, ih, filter_cons_of_pos (by simp [hlabel]), map_cons, idOf_rechained]

theorem Grows.rechain {path done : List Json} {parentId : Option JsStr} (hdone : Grows done)
    (hpar : ∀ id, parentId = some id → id ∈ done.map idOf) (hpath : ∀ entry ∈ path, IsEntry entry)
    (hnodup : (path.map idOf).Nodup) (hnew : ∀ id ∈ path.map idOf, id ∉ done.map idOf) :
    Grows (done ++ SessionManager.rechain parentId path) := by
  induction path generalizing done parentId with
  | nil =>
    rw [SessionManager.rechain, append_nil]
    exact hdone
  | cons entry rest ih =>
    rw [map_cons, nodup_cons] at hnodup
    have hrest : ∀ other ∈ rest, IsEntry other := fun other hother =>
      hpath other (mem_cons_of_mem _ hother)
    have hlater : ∀ id ∈ rest.map idOf, id ∉ done.map idOf := fun id hid =>
      hnew id (mem_cons_of_mem _ hid)
    rw [SessionManager.rechain]
    split_ifs with hlabel
    · exact ih hdone hpar hrest hnodup.2 hlater
    · have hgrown : Grows (done ++ [entry.withMember (js "parentId") (nullable parentId)]) := by
        refine .concat hdone ((hpath entry mem_cons_self).rechained parentId) ?_ fun id hlink => ?_
        · rw [idOf_rechained]
          exact hnew _ mem_cons_self
        · rw [parentIdOf_rechained] at hlink
          exact hpar id (parent_of_bind_nonEmpty hlink)
      have hids : (done ++ [entry.withMember (js "parentId") (nullable parentId)]).map idOf =
          done.map idOf ++ [idOf entry] := by
        rw [map_append, map_singleton, idOf_rechained]
      rw [append_cons]
      refine ih hgrown (fun id hid => ?_) hrest hnodup.2 fun id hid => ?_
      · rw [hids]
        exact mem_append_right _ (mem_singleton.mpr (Option.some.inj hid).symm)
      · rw [hids, mem_append, mem_singleton, not_or]
        exact ⟨hlater id hid, fun heq => hnodup.1 (heq ▸ hid)⟩

theorem length_generateId {taken : JsStr → Bool} {draws : Nat → JsStr} :
    generateId taken draws = draws 100 ∨ (generateId taken draws).length ≤ 8 := by
  rw [generateId]
  cases hfound : ((List.range 100).map fun attempt => (draws attempt).take 8).find? fun id => !taken id with
  | none => exact .inl rfl
  | some id =>
    obtain ⟨attempt, _, hid⟩ := mem_map.mp (mem_of_find?_eq_some hfound)
    rw [Option.getD_some, ← hid]
    exact .inr (length_take_le 8 _)

theorem Grows.labelEntries {uuid : Nat → Nat → JsStr} {labels : List (JsStr × JsStr × JsStr)}
    {done : List Json} {count bound : Nat} {taken : List JsStr} {parentId : Option JsStr}
    (hlen : ∀ count attempt, (uuid count attempt).length = 36)
    (hdist : ∀ count < bound, ∀ other < bound, uuid count 100 = uuid other 100 → count = other)
    (hbound : count + labels.length ≤ bound) (hdone : Grows done) (htaken : done.map idOf = taken)
    (hfresh : ∀ other, count ≤ other → other < bound → uuid other 100 ∉ taken)
    (hpar : ∀ id, parentId = some id → id ∈ taken) :
    Grows (done ++ SessionManager.labelEntries uuid count taken parentId labels) := by
  induction labels generalizing done count taken parentId with
  | nil =>
    rw [SessionManager.labelEntries, append_nil]
    exact hdone
  | cons label rest ih =>
    obtain ⟨targetId, label, timestamp⟩ := label
    rw [length_cons] at hbound
    have hcount : count < bound := by omega
    rw [SessionManager.labelEntries]
    set id := generateId (fun other => decide (other ∈ taken)) (uuid count) with hid
    have hnew : id ∉ taken := by
      have := @taken_generateId (fun other => decide (other ∈ taken)) (uuid count)
        (decide_eq_false (hfresh count le_rfl hcount))
      exact of_decide_eq_false this
    have hgrown : Grows (done ++ [(Content.label targetId (some label)).entry ⟨id, parentId, timestamp⟩]) := by
      refine .concat hdone (isEntry_entry (generateId_ne_nil _ (hlen count))) ?_ fun parent hlink => ?_
      · rw [idOf_entry, htaken]
        exact hnew
      · rw [parentIdOf_of_member (parentId_entry _ _)] at hlink
        exact htaken ▸ hpar parent (parent_of_bind_nonEmpty hlink)
    rw [append_cons]
    refine ih (by omega) hgrown ?_ (fun other hother hbelow => ?_) fun other hother => ?_
    · rw [map_append, map_singleton, idOf_entry, htaken]
    · rw [mem_append, mem_singleton, not_or]
      refine ⟨hfresh other (Nat.le_of_succ_le hother) hbelow, fun heq => ?_⟩
      rcases length_generateId with hwhole | hshort
      · have := hdist other hbelow count hcount (heq.trans hwhole)
        omega
      · rw [← hid, ← heq, hlen] at hshort
        exact absurd hshort (by decide)
    · exact mem_append_right _ (mem_singleton.mpr (Option.some.inj hother).symm)

theorem nonEmpty_mem {ids : List JsStr} {id : JsStr}
    (hid : ids.getLast?.bind SessionManager.nonEmpty = some id) : id ∈ ids := by
  obtain ⟨last, hlast, hnamed⟩ := Option.bind_eq_some_iff.mp hid
  cases last with
  | nil => exact nomatch hnamed
  | cons unit rest => exact Option.some.inj hnamed ▸ mem_of_getLast? hlast

theorem sound_of_entries {manager : SessionManager} {head : Json} {body : List Json}
    (hents : manager.fileEntries = head :: body) (hhead : IsSessionHeader head) (hgrows : Grows body) :
    Sound manager.buildIndex body := by
  have hindex : manager.buildIndex.toIndex = body.foldl Index.add .empty := by
    rw [SessionManager.buildIndex, hents, foldl_cons, Index.add, if_pos hhead.isHeader]
  refine ⟨⟨head, hents, hhead⟩, hgrows, ?_, fun id hid => ?_, ?_⟩
  · rw [hindex]
    exact byId_foldl hgrows
  · rw [hindex, Index.leafId_foldl hgrows] at hid
    obtain ⟨last, hlast, rfl⟩ := Option.map_eq_some_iff.mp hid
    exact mem_map_of_mem (mem_of_getLast? hlast)
  · rw [hindex]
    exact Index.labelled_foldl body Index.labelled_empty

namespace Sound

variable {manager : SessionManager} {body : List Json}

theorem grows_branchedEntries (hsound : Sound manager body) {around : Surroundings}
    (hids : NewIds manager around.uuid) {path : List Json} (hpath : path.Sublist body) :
    Grows (manager.branchedEntries around path) := by
  have hpathEntries : ∀ entry ∈ path, IsEntry entry := fun entry hentry =>
    hsound.grows.isEntry entry (hpath.subset hentry)
  have hrec : Grows (SessionManager.rechain none path) := by
    have hgrown : Grows ([] ++ SessionManager.rechain none path) :=
      Grows.nil.rechain nofun hpathEntries (hsound.grows.nodup.sublist (hpath.map idOf))
        fun _ _ => not_mem_nil
    rwa [nil_append] at hgrown
  refine hrec.labelEntries hids.length hids.distinct ?_ rfl (fun other _ _ hother => ?_)
    fun id hid => nonEmpty_mem hid
  · rw [SessionManager.labelsToWrite, length_map, Nat.zero_add]
    exact length_filter_le _ _
  rw [ids_rechain] at hother
  obtain ⟨entry, hentry, heq⟩ := mem_map.mp hother
  have hbody := hpath.subset (mem_of_mem_filter hentry)
  have hhas : manager.byId.has (around.uuid other 100) = true :=
    (has_named hsound.byId).mpr (heq ▸ mem_map_of_mem hbody)
  rw [hids.fresh other] at hhas
  exact nomatch hhas

end Sound

variable [JsonText.NumberText]

/-- The manager holds the branch that was extracted. -/
structure Branched (before : SessionManager) (around : Surroundings) (path : List Json)
    (after : SessionManager) : Prop where
  sound : Sound after (before.branchedEntries around path)
  index : after.toIndex = (before.branchedEntries around path).foldl Index.add .empty
  persist : after.persist = before.persist
  directory : after.sessionDir = before.sessionDir

namespace Sound

variable {manager : SessionManager} {body : List Json}

theorem createBranchedSession (hsound : Sound manager body) {around : Surroundings}
    (hids : NewIds manager around.uuid) {leafId : JsStr} {path : List Json}
    (hpath : manager.getBranch (some leafId) = path) (hne : path ≠ []) (hsub : path.Sublist body) :
    Branched manager around path (manager.createBranchedSession around leafId).1 := by
  have hbran : Branched manager around path (manager.branched around path) := by
    have hhead := isSessionHeader_header around.sessionId around.now manager.cwd
      (if manager.persist then manager.sessionFile else none)
    refine ⟨sound_of_entries rfl hhead (hsound.grows_branchedEntries hids hsub), ?_, rfl, rfl⟩
    rw [SessionManager.branched, SessionManager.buildIndex]
    dsimp only
    rw [foldl_cons, Index.add, if_pos hhead.isHeader]
  have hwrt : ∀ {after : SessionManager}, SessionManager.Writes (manager.branched around path) after →
      Branched manager around path after := by
    intro after hwrit
    exact ⟨hbran.sound.congr hwrit.entries hwrit.index, hwrit.index.trans hbran.index,
      hwrit.persist.trans hbran.persist, hwrit.directory.trans hbran.directory⟩
  rw [SessionManager.createBranchedSession, hpath, if_neg hne]
  dsimp only
  split_ifs with hper hass
  · have hwrit := SessionManager.writes_rewriteFile (manager.branched around path) around.fault
    split
    · rename_i written hrewrite
      rw [hrewrite] at hwrit
      exact hwrt { hwrit with }
    · rename_i written error hrewrite
      rw [hrewrite] at hwrit
      exact hwrt hwrit
  · exact hwrt ⟨rfl, rfl, rfl, rfl, rfl⟩
  · exact hbran

end Sound

/-- Calls one after the other, each with new ids. -/
def Along (condition : SessionManager → Surroundings × Call → Prop) :
    SessionManager → List (Surroundings × Call) → Prop
  | _, [] => True
  | manager, call :: rest => condition manager call ∧ Along condition (manager.perform call) rest

/-- The manager of a run. -/
def SessionManager.run (manager : SessionManager) (calls : List (Surroundings × Call)) : SessionManager :=
  calls.foldl SessionManager.perform manager

def Draws (manager : SessionManager) (call : Surroundings × Call) : Prop := NewIds manager call.1.uuid

/-! ### Samples -/

/-- Every draw begins with the text of eight characters. -/
def sampleUuid (start : String) (count attempt : Nat) : JsStr :=
  if attempt = 100 then List.replicate 35 0x66 ++ [UInt16.ofNat count]
  else js start ++ List.replicate 28 0x30

/-- A call that draws ids with the text. -/
def sampleAround (start : String) : Surroundings where
  uuid := sampleUuid start
  sessionId := js "session-" ++ js start
  now := js "2026-01-01T00:00:00.000Z"
  fault := none

omit [JsonText.NumberText] in
theorem newIds_sample {manager : SessionManager} {start : String} (hstart : (js start).length = 8)
    (hkeys : ∀ id ∈ manager.byId.keys, id.length = 8) (hlab : manager.labelsById.entries.length ≤ 1) :
    NewIds manager (sampleUuid start) where
  length := by
    intro count attempt
    rw [sampleUuid]
    split_ifs
    · rw [length_append, length_replicate, length_singleton]
    · rw [length_append, length_replicate, hstart]
  fresh := by
    intro count
    rw [← Bool.not_eq_true, JsMap.has_iff]
    intro hkey
    have hlen := hkeys _ hkey
    rw [sampleUuid, if_pos rfl, length_append, length_replicate, length_singleton] at hlen
    exact absurd hlen (by decide)
  distinct := by
    intro count hcount other hother _
    omega

/-- An object with strings as members. -/
def sampleMessage (role text : String) : Message :=
  ⟨[(js "role", .string (js role)), (js "content", .string (js text))], by
    have hkeys : [js "role", js "content"].Pairwise KeyOrder := by decide
    refine Json.wellFormed_object_iff.mpr ⟨pairwise_map.mp hkeys, ?_⟩
    exact forall_mem_cons.mpr ⟨wellFormed_string _, forall_mem_singleton.mpr (wellFormed_string _)⟩⟩

/-- A session without files. -/
def sampleSession (persist : Bool) : SessionManager :=
  SessionManager.create (js "/work") (js "/sessions") persist (fun _ => none) (sampleAround "00000000") none none

end PiRp.Manager

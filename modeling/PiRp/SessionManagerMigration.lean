import PiRp.SessionManagerTree

/-! The migration of a session file of the first version, whose entries had no ids: a compaction named its
first kept entry by position. Every entry draws one random value and is named by the first eight units of it;
the set that the check for collisions reads is never added to. -/

namespace PiRp.Manager

open List Json

open Jsonl (nullable)

namespace SessionManager

/-! ### What the migration is for -/

/-- The entries that are no header. -/
def body (entries : List Json) : List Json := entries.filter fun entry => !isHeader entry

/-- The version of a file: that of its first header, one when there is none. -/
def fileVersion (entries : List Json) : JsNumber := ((entries.find? isHeader).map versionOf).getD (.int 1)

/-- The position that a number names in an array. -/
def positionOf : JsNumber → Option Nat
  | .int index => if 0 ≤ index then some index.toNat else none
  | .negZero => some 0
  | _ => none

/-- The position that a compaction names as its first kept entry. -/
def keptPosition (entry : Json) : Option Nat :=
  match isType entry (js "compaction"), entry.member (js "firstKeptEntryIndex") with
  | true, some (.number index) => positionOf index
  | _, _ => none

/-- Each entry is the child of the one before it. -/
def Linked : Option JsStr → List Json → Prop
  | _, [] => True
  | prevId, entry :: rest =>
    entry.member (js "parentId") = some (nullable prevId) ∧ Linked (some (idOf entry)) rest

/-- The loop of `getBranch`: the entries from one up to its root, none when it is not done after the rounds. -/
def climbToRoot (byId : JsMap JsStr Json) : Nat → Option Json → Option (List Json)
  | _, none => some []
  | 0, some _ => none
  | rounds + 1, some current =>
    (climbToRoot byId rounds ((parentIdOf current).bind byId.get?)).map (current :: ·)

/-- What `getBranch` finds from the last entry once the entries are indexed, before it is reversed. -/
def climbFromLeaf (entries : List Json) (rounds : Nat) : Option (List Json) :=
  let index := entries.foldl Index.add .empty
  climbToRoot index.byId rounds ((index.leafId.bind nonEmpty).bind index.byId.get?)

/-- The tree that a file of the first version becomes: ids are distinct, each entry follows the one before
it, a compaction names the entry that stood at its position, and the last entry has all of them on its
branch. -/
structure Faithful (entries migrated : List Json) : Prop where
  distinct : ((body migrated).map idOf).Nodup
  linked : Linked none (body migrated)
  kept : ∀ (position target : Nat) (entry found : Json), entries[position]? = some entry → keptPosition entry = some target →
    migrated[target]? = some found → isHeader found = false → ∀ compaction : Json, migrated[position]? = some compaction →
        compaction.member (js "firstKeptEntryId") = found.member (js "id")
  ends : ∃ rounds, (climbFromLeaf migrated rounds).isSome = true
  branch : ∀ manager : SessionManager, manager.fileEntries = migrated →
    manager.buildIndex.getBranch none = body migrated

/-! ### The loop -/

/-- The id that the entry drawing the value with the number gets. -/
def shortId (uuid : Nat → Nat → JsStr) (count : Nat) : JsStr := (uuid count 0).take 8

theorem generateId_free (draws : Nat → JsStr) : generateId (fun _ => false) draws = (draws 0).take 8 := rfl

/-- An entry with its id and its parent. -/
def placed (uuid : Nat → Nat → JsStr) (count : Nat) (prevId : Option JsStr) (entry : Json) : Json :=
  (entry.withMember (js "id") (.string (shortId uuid count))).withMember (js "parentId") (nullable prevId)

/-- What the loop appends to the entries that are done. -/
def numbered (uuid : Nat → Nat → JsStr) : Nat → Option JsStr → List Json → List Json → List Json
  | _, _, _, [] => []
  | count, prevId, done, entry :: rest =>
    if isHeader entry then
      let marked := entry.withMember (js "version") (.number (.int 2))
      marked :: numbered uuid count prevId (done ++ [marked]) rest
    else
      let named := keptById (done ++ placed uuid count prevId entry :: rest) (placed uuid count prevId entry)
      named :: numbered uuid (count + 1) (some (shortId uuid count)) (done ++ [named]) rest

theorem migrateV1ToV2_eq (uuid : Nat → Nat → JsStr) (count : Nat) (prevId : Option JsStr) (done rest : List Json) :
    migrateV1ToV2 uuid count prevId done rest = done ++ numbered uuid count prevId done rest := by
  induction rest generalizing count prevId done with
  | nil => rw [migrateV1ToV2, numbered, append_nil]
  | cons entry rest ih =>
    rw [migrateV1ToV2, numbered]
    split_ifs
    · rw [ih, append_assoc, singleton_append]
    · simp only [generateId_free]
      rw [ih, append_assoc, singleton_append]
      rfl

theorem length_numbered (uuid : Nat → Nat → JsStr) (count : Nat) (prevId : Option JsStr)
    (done rest : List Json) : (numbered uuid count prevId done rest).length = rest.length := by
  induction rest generalizing count prevId done with
  | nil => rfl
  | cons entry rest ih =>
    rw [numbered]
    split_ifs <;> rw [length_cons, length_cons, ih]

theorem get?_filter_ne (props : Props Json) (key other : JsStr) :
    Props.get? (props.filter fun entry => entry.1 ≠ key) other =
      if key = other then none else Props.get? props other := by
  induction props with
  | nil => split_ifs <;> rfl
  | cons entry rest ih =>
    obtain ⟨name, value⟩ := entry
    rw [filter_cons, Props.get?]
    split_ifs with hname hkey hother hother
    all_goals simp_all [Props.get?]

theorem member_withoutMember (value : Json) (key other : JsStr) :
    (value.withoutMember key).member other = if key = other then none else value.member other := by
  cases value with
  | object props => exact get?_filter_ne props key other
  | _ => exact (ite_self none).symm

section KeptById

variable {entries : List Json} {entry : Json}

theorem member_keptById {key : JsStr} (hindex : js "firstKeptEntryIndex" ≠ key)
    (hid : js "firstKeptEntryId" ≠ key) : (keptById entries entry).member key = entry.member key := by
  rw [keptById]
  split
  · simp only [member_withoutMember, if_neg hindex]
    split
    · rfl
    · split_ifs
      · rfl
      · split
        · rw [member_withoutMember, if_neg hid]
        · rw [member_withMember, if_neg hid]
  · rfl

theorem member_keptId {found : Json} : ((match found.member (js "id") with
        | none => entry.withoutMember (js "firstKeptEntryId")
        | some id => entry.withMember (js "firstKeptEntryId") id).withoutMember
      (js "firstKeptEntryIndex")).member (js "firstKeptEntryId") = found.member (js "id") := by
  have hne : js "firstKeptEntryIndex" ≠ js "firstKeptEntryId" := by decide
  rw [member_withoutMember, if_neg hne]
  cases found.member (js "id") with
  | none => rw [member_withoutMember, if_pos rfl]
  | some id => rw [member_withMember, if_pos rfl]

theorem kept_keptById {target : Nat} {found : Json} (hkept : keptPosition entry = some target)
    (hfound : entries[target]? = some found) (hhead : isHeader found = false) :
    (keptById entries entry).member (js "firstKeptEntryId") = found.member (js "id") := by
  rw [keptPosition] at hkept
  split at hkept
  · rename_i index hcomp hindex
    cases index with
    | int index =>
      rw [positionOf] at hkept
      split_ifs at hkept with hle
      obtain rfl := Option.some.inj hkept
      simp only [keptById, hcomp, hindex, if_pos hle, hfound, hhead, Bool.false_eq_true, if_false]
      exact member_keptId
    | negZero =>
      obtain rfl := Option.some.inj hkept
      simp only [keptById, hcomp, hindex, hfound, hhead, Bool.false_eq_true, if_false]
      exact member_keptId
    | _ => exact nomatch hkept
  · exact nomatch hkept

end KeptById

/-! ### The entries it gives -/

theorem isHeader_of_type {entry other : Json} (htype : entry.member (js "type") = other.member (js "type")) :
    isHeader entry = isHeader other := by
  rw [isHeader, isHeader, isType, isType, htype]

theorem idOf_of_member {entry : Json} {id : JsStr} (hmemb : entry.member (js "id") = some (.string id)) :
    idOf entry = id := by
  rw [idOf, textOf, hmemb]

section Placed

variable (uuid : Nat → Nat → JsStr) (count : Nat) (prevId : Option JsStr) (entries : List Json) (entry : Json)

theorem member_placed {key : JsStr} (hid : js "id" ≠ key) (hpar : js "parentId" ≠ key) :
    (placed uuid count prevId entry).member key = entry.member key := by
  rw [placed, member_withMember, if_neg hpar, member_withMember, if_neg hid]

theorem id_placed : (placed uuid count prevId entry).member (js "id") = some (.string (shortId uuid count)) := by
  rw [placed, member_withMember, if_neg (by decide), member_withMember, if_pos rfl]

theorem id_keptById_placed : (keptById entries (placed uuid count prevId entry)).member (js "id") =
    some (.string (shortId uuid count)) := by
  rw [member_keptById (by decide) (by decide), id_placed]

theorem parent_keptById_placed : (keptById entries (placed uuid count prevId entry)).member (js "parentId") =
    some (nullable prevId) := by
  rw [member_keptById (by decide) (by decide), placed, member_withMember, if_pos rfl]

theorem isHeader_keptById_placed : isHeader (keptById entries (placed uuid count prevId entry)) = isHeader entry := by
  refine isHeader_of_type ?_
  rw [member_keptById (by decide) (by decide), member_placed _ _ _ _ (by decide) (by decide)]

theorem keptPosition_placed : keptPosition (placed uuid count prevId entry) = keptPosition entry := by
  rw [keptPosition, keptPosition, isType, isType, member_placed _ _ _ _ (by decide) (by decide),
    member_placed _ _ _ _ (by decide) (by decide)]

theorem isHeader_marked : isHeader (entry.withMember (js "version") (.number (.int 2))) = isHeader entry :=
  isHeader_of_type (by rw [member_withMember, if_neg (by decide)])

end Placed

theorem keptPosition_header {entry : Json} (hhead : isHeader entry = true) : keptPosition entry = none := by
  have hsess : entry.member (js "type") = some (.string (js "session")) := by
    rw [isHeader, isType, decide_eq_true_iff] at hhead
    exact hhead
  have hcomp : isType entry (js "compaction") = false := by
    rw [isType, hsess]
    decide
  rw [keptPosition, hcomp]

section Numbered

variable (uuid : Nat → Nat → JsStr)

theorem body_cons (entry : Json) (rest : List Json) :
    body (entry :: rest) = if isHeader entry then body rest else entry :: body rest := by
  rw [body, filter_cons]
  cases isHeader entry <;> rfl

theorem isHeader_numbered (count : Nat) (prevId : Option JsStr) (done rest : List Json) :
    (numbered uuid count prevId done rest).map isHeader = rest.map isHeader := by
  induction rest generalizing count prevId done with
  | nil => rfl
  | cons entry rest ih =>
    rw [numbered]
    split_ifs
    · rw [map_cons, map_cons, ih, isHeader_marked]
    · rw [map_cons, map_cons, ih, isHeader_keptById_placed]

theorem ids_numbered (count : Nat) (prevId : Option JsStr) (done rest : List Json) :
    (body (numbered uuid count prevId done rest)).map idOf =
      (List.range' count (body rest).length).map (shortId uuid) := by
  induction rest generalizing count prevId done with
  | nil => rfl
  | cons entry rest ih =>
    rw [numbered, body_cons entry]
    split_ifs with hhead
    · rw [body_cons, isHeader_marked, if_pos hhead, ih]
    · rw [body_cons, isHeader_keptById_placed, if_neg hhead, map_cons, ih,
        idOf_of_member (id_keptById_placed _ _ _ _ _), length_cons, range'_succ, map_cons]

theorem linked_numbered (count : Nat) (prevId : Option JsStr) (done rest : List Json) :
    Linked prevId (body (numbered uuid count prevId done rest)) := by
  induction rest generalizing count prevId done with
  | nil => exact trivial
  | cons entry rest ih =>
    rw [numbered]
    split_ifs with hhead
    · rw [body_cons, isHeader_marked, if_pos hhead]
      exact ih _ _ _
    · rw [body_cons, isHeader_keptById_placed, if_neg hhead, Linked]
      refine ⟨parent_keptById_placed _ _ _ _ _, ?_⟩
      rw [idOf_of_member (id_keptById_placed _ _ _ _ _)]
      exact ih _ _ _

theorem id_numbered {count : Nat} {prevId : Option JsStr} {done rest : List Json} {position : Nat}
    {entry : Json} (hentry : (numbered uuid count prevId done rest)[position]? = some entry)
    (hhead : isHeader entry = false) :
    entry.member (js "id") = some (.string (shortId uuid (count + (body (rest.take position)).length))) := by
  induction rest generalizing count prevId done position with
  | nil => exact nomatch hentry
  | cons first rest ih =>
    rw [numbered] at hentry
    split_ifs at hentry with hfirst
    · cases position with
      | zero =>
        obtain rfl := Option.some.inj hentry
        rw [isHeader_marked, hfirst] at hhead
        exact absurd hhead (by decide)
      | succ position =>
        rw [take_succ_cons, body_cons, if_pos hfirst]
        exact ih hentry
    · cases position with
      | zero =>
        obtain rfl := Option.some.inj hentry
        exact id_keptById_placed _ _ _ _ _
      | succ position =>
        rw [take_succ_cons, body_cons, if_neg hfirst, length_cons, Nat.add_comm _ 1, ← Nat.add_assoc]
        exact ih hentry

/-- A compaction that names an entry up to itself gets the id of that entry, and one that names a later entry
what that entry has for an id before the loop comes to it. -/
theorem kept_numbered {count : Nat} {prevId : Option JsStr} {done rest : List Json} {position target : Nat}
    {entry compaction found : Json} (hentry : rest[position]? = some entry) (hkept : keptPosition entry = some target)
    (hcomp : (numbered uuid count prevId done rest)[position]? = some compaction)
    (hfound : (done ++ if target ≤ done.length + position then numbered uuid count prevId done rest
      else rest)[target]? = some found) (hhead : isHeader found = false) :
    compaction.member (js "firstKeptEntryId") = found.member (js "id") := by
  induction rest generalizing count prevId done position with
  | nil => exact nomatch hentry
  | cons first rest ih =>
    cases position with
    | zero =>
      obtain rfl := Option.some.inj hentry
      have hfirst : ¬isHeader first = true := fun hfirst => by
        rw [keptPosition_header hfirst] at hkept
        exact nomatch hkept
      rw [numbered, if_neg hfirst] at hcomp hfound
      obtain rfl := Option.some.inj hcomp
      rw [Nat.add_zero] at hfound
      rw [← keptPosition_placed uuid count prevId] at hkept
      rcases Nat.lt_trichotomy target done.length with hlt | rfl | hgt
      · rw [if_pos (Nat.le_of_lt hlt), getElem?_append_left hlt] at hfound
        exact kept_keptById hkept (by rw [getElem?_append_left hlt, hfound]) hhead
      · rw [if_pos (Nat.le_refl _), getElem?_append_right (Nat.le_refl _), Nat.sub_self] at hfound
        obtain rfl := Option.some.inj hfound
        rw [id_keptById_placed, ← id_placed uuid count prevId first]
        refine kept_keptById hkept ?_ ?_
        · rw [getElem?_append_right (Nat.le_refl _), Nat.sub_self]
          rfl
        · rw [isHeader_of_type (member_placed uuid count prevId first (by decide) (by decide))]
          exact Bool.eq_false_of_not_eq_true hfirst
      · rw [if_neg (Nat.not_le_of_gt hgt)] at hfound
        refine kept_keptById hkept ?_ hhead
        rw [getElem?_append_right (Nat.le_of_lt hgt)] at hfound ⊢
        obtain ⟨offset, hoff⟩ := Nat.exists_eq_add_of_lt hgt
        rw [hoff, Nat.add_assoc, Nat.add_sub_cancel_left] at hfound ⊢
        exact hfound
    | succ position =>
      rw [getElem?_cons_succ] at hentry
      have hshift (named : Json) {tail : List Json} :
          (done ++ if target ≤ done.length + (position + 1) then named :: tail else first :: rest)[target]? =
            (done ++ [named] ++ if target ≤ (done ++ [named]).length + position then tail
              else rest)[target]? := by
        rw [length_append, length_singleton, Nat.add_assoc done.length 1, Nat.add_comm 1 position]
        split_ifs with hle
        · rw [append_assoc, singleton_append]
        · rw [append_assoc, singleton_append, getElem?_append_right (by omega),
            getElem?_append_right (by omega)]
          obtain ⟨offset, hoff⟩ := Nat.exists_eq_add_of_lt (show done.length < target by omega)
          rw [hoff, Nat.add_assoc, Nat.add_sub_cancel_left, getElem?_cons_succ, getElem?_cons_succ]
      by_cases hfirst : isHeader first = true
      · simp only [numbered, if_pos hfirst] at hcomp hfound
        rw [hshift] at hfound
        exact ih hentry hcomp hfound
      · simp only [numbered, if_neg hfirst] at hcomp hfound
        rw [hshift] at hfound
        exact ih hentry hcomp hfound

end Numbered

/-! ### The second migration -/

theorem member_migrateV2ToV3 {entry : Json} (hhead : isHeader entry = false) {key : JsStr}
    (hkey : js "message" ≠ key) : (migrateV2ToV3 entry).member key = entry.member key := by
  rw [migrateV2ToV3, hhead, if_neg Bool.false_ne_true]
  split_ifs
  · rw [member_withMember, if_neg hkey]
  · rfl

theorem isHeader_migrateV2ToV3 (entry : Json) : isHeader (migrateV2ToV3 entry) = isHeader entry := by
  cases hhead : isHeader entry with
  | true =>
    rw [migrateV2ToV3, if_pos hhead, ← hhead]
    exact isHeader_of_type (by rw [member_withMember, if_neg (by decide)])
  | false =>
    rw [← hhead]
    exact isHeader_of_type (member_migrateV2ToV3 hhead (by decide))

theorem body_migrateV2ToV3 (entries : List Json) :
    body (entries.map migrateV2ToV3) = (body entries).map migrateV2ToV3 := by
  rw [body, body, filter_map]
  congr 2
  funext entry
  rw [Function.comp_apply, isHeader_migrateV2ToV3]

theorem mem_body {entries : List Json} {entry : Json} (hentry : entry ∈ body entries) : isHeader entry = false := by
  simpa using (mem_filter.mp hentry).2

theorem idOf_migrateV2ToV3 {entry : Json} (hhead : isHeader entry = false) :
    idOf (migrateV2ToV3 entry) = idOf entry := by
  rw [idOf, idOf, textOf, textOf, member_migrateV2ToV3 hhead (by decide)]

theorem ids_migrateV2ToV3 (entries : List Json) :
    (body (entries.map migrateV2ToV3)).map idOf = (body entries).map idOf := by
  rw [body_migrateV2ToV3, map_map]
  exact map_congr_left fun entry hentry => idOf_migrateV2ToV3 (mem_body hentry)

theorem linked_migrateV2ToV3 {prevId : Option JsStr} {entries : List Json}
    (hheaders : ∀ entry ∈ entries, isHeader entry = false) (hlin : Linked prevId entries) :
    Linked prevId (entries.map migrateV2ToV3) := by
  induction entries generalizing prevId with
  | nil => exact trivial
  | cons entry rest ih =>
    have hhead := hheaders entry mem_cons_self
    refine ⟨(member_migrateV2ToV3 hhead (by decide)).trans hlin.1, ?_⟩
    rw [idOf_migrateV2ToV3 hhead]
    exact ih (fun other hother => hheaders other (mem_cons_of_mem _ hother)) hlin.2

/-! ### The branch of the last entry -/

theorem index_body {entries : List Json} (hdist : ((body entries).map idOf).Nodup) :
    (entries.foldl Index.add .empty).byId.entries = named (body entries) ∧
      (entries.foldl Index.add .empty).leafId = (body entries).getLast?.map idOf := by
  induction entries using List.reverseRecOn with
  | nil => exact ⟨rfl, rfl⟩
  | append_singleton entries entry ih =>
    rw [foldl_append, foldl_cons, foldl_nil]
    cases hhead : isHeader entry with
    | true =>
      have hbody : body (entries ++ [entry]) = body entries := by
        simp [body, hhead]
      rw [hbody] at hdist ⊢
      rw [Index.add, if_pos hhead]
      exact ih hdist
    | false =>
      have hbody : body (entries ++ [entry]) = body entries ++ [entry] := by
        simp [body, hhead]
      rw [hbody, map_append, map_singleton] at hdist
      obtain ⟨hbef, _, hnew⟩ := nodup_append'.mp hdist
      refine ⟨?_, ?_⟩
      · rw [byId_add _ hhead, hbody]
        exact entries_set_named (ih hbef).1 (disjoint_singleton.mp hnew)
      · rw [hbody, getLast?_concat, Index.add, if_neg (by rw [hhead]; decide)]
        split_ifs
        · rw [Index.setLabel]
          split_ifs <;> rfl
        · rfl

/-- The last id of a list of entries, or the one before them. -/
def lastId (prevId : Option JsStr) (entries : List Json) : Option JsStr :=
  (entries.getLast?.map idOf).or prevId

theorem linked_concat {prevId : Option JsStr} {entries : List Json} {entry : Json} :
    Linked prevId (entries ++ [entry]) ↔
      Linked prevId entries ∧ entry.member (js "parentId") = some (nullable (lastId prevId entries)) := by
  induction entries generalizing prevId with
  | nil => simp [Linked, lastId]
  | cons first rest ih =>
    have hlast : lastId (some (idOf first)) rest = lastId prevId (first :: rest) := by
      cases rest with
      | nil => rfl
      | cons next rest => simp [lastId, getLast?_cons]
    rw [cons_append, Linked, Linked, ih, hlast, and_assoc]

theorem parentIdOf_nullable {entry : Json} {parentId : Option JsStr} (hne : parentId ≠ some [])
    (hpar : entry.member (js "parentId") = some (nullable parentId)) : parentIdOf entry = parentId := by
  rw [parentIdOf, textOf, hpar]
  rcases parentId with _ | _ | ⟨unit, rest⟩
  · rfl
  · exact absurd rfl hne
  · rfl

theorem rootPath_linked {nodes entries : List Json} (hsub : ∀ entry ∈ entries, entry ∈ nodes)
    (hnamed : ∀ entry ∈ entries, idOf entry ≠ []) (hlin : Linked none entries) :
    entryLinks.RootPath nodes (entries.getLast?.map idOf) entries := by
  induction entries using List.reverseRecOn with
  | nil => exact .nil
  | append_singleton entries entry ih =>
    obtain ⟨hbef, hpar⟩ := linked_concat.mp hlin
    have hne : lastId none entries ≠ some [] := by
      rw [lastId, Option.or_none]
      intro hlast
      obtain ⟨last, hlast, hid⟩ := Option.map_eq_some_iff.mp hlast
      exact hnamed last (mem_append_left _ (mem_of_getLast? hlast)) hid
    rw [getLast?_concat]
    refine ParentLinks.RootPath.concat (hsub entry (mem_append_right _ mem_cons_self)) ?_
    have hlink : entryLinks.parent entry = entries.getLast?.map idOf := by
      rw [show entryLinks.parent entry = parentIdOf entry from rfl, parentIdOf_nullable hne hpar, lastId,
        Option.or_none]
    rw [hlink]
    exact ih (fun other hother => hsub other (mem_append_left _ hother))
      (fun other hother => hnamed other (mem_append_left _ hother)) hbef

variable {byId : JsMap JsStr Json}

theorem climbToRoot_eq {entries : List Json} (hbyId : byId.entries = named entries)
    {leaf : Option JsStr} {path : List Json} (hpath : entryLinks.RootPath entries leaf path) :
    climbToRoot byId path.length (leaf.bind byId.get?) = some path.reverse := by
  induction hpath with
  | nil => rfl
  | @concat node path hnode _ ih =>
    have hlink : (parentIdOf node).bind byId.get? = (entryLinks.parent node).bind byId.get? := rfl
    rw [length_append, length_singleton, Option.bind_some,
      show entryLinks.key node = idOf node from rfl, get?_of_named hbyId hnode, climbToRoot, hlink, ih,
      reverse_append]
    rfl

theorem climbToRoot_cycle {from? : Option Json} (hsome : from?.isSome = true)
    (hself : (from?.bind parentIdOf).bind byId.get? = from?) (rounds : Nat) :
    climbToRoot byId rounds from? = none := by
  obtain ⟨node, rfl⟩ := Option.isSome_iff_exists.mp hsome
  induction rounds with
  | zero => rfl
  | succ rounds ih =>
    rw [Option.bind_some] at hself
    rw [climbToRoot, hself, ih, Option.map_none]

theorem climb_of_climbToRoot {rounds : Nat} {from? : Option Json} {path : List Json}
    (hclimb : climbToRoot byId rounds from? = some path) : climb byId rounds from? = path := by
  induction rounds generalizing from? path with
  | zero =>
    cases from? with
    | none => exact Option.some.inj hclimb
    | some current => exact nomatch hclimb
  | succ rounds ih =>
    cases from? with
    | none => exact Option.some.inj hclimb
    | some current =>
      obtain ⟨path, hrest, rfl⟩ := Option.map_eq_some_iff.mp hclimb
      rw [climb, ih hrest]

section Linked

variable {entries : List Json} (hdist : ((body entries).map idOf).Nodup)
  (hnamed : ∀ entry ∈ body entries, idOf entry ≠ []) (hlin : Linked none (body entries))

include hdist hnamed hlin

theorem climbFromLeaf_linked : climbFromLeaf entries (body entries).length = some (body entries).reverse := by
  obtain ⟨hbyId, hleaf⟩ := index_body hdist
  have hstart : ((body entries).getLast?.map idOf).bind nonEmpty = (body entries).getLast?.map idOf := by
    cases hlast : (body entries).getLast? with
    | none => rfl
    | some last =>
      have hne := hnamed last (mem_of_getLast? hlast)
      rw [Option.map_some, Option.bind_some]
      cases hid : idOf last with
      | nil => exact absurd hid hne
      | cons unit rest => rfl
  rw [climbFromLeaf]
  simp only [hleaf, hstart]
  exact climbToRoot_eq hbyId (rootPath_linked (fun _ hentry => hentry) hnamed hlin)

theorem getBranch_linked {manager : SessionManager} (hents : manager.fileEntries = entries) :
    manager.buildIndex.getBranch none = body entries := by
  have hsize : manager.buildIndex.byId.entries.length = (body entries).length := by
    rw [buildIndex, hents, (index_body hdist).1, named, length_map]
  have hclimb := climb_of_climbToRoot (climbFromLeaf_linked hdist hnamed hlin)
  rw [getBranch, hsize, Option.orElse_none, buildIndex, hents, hclimb, reverse_reverse]

end Linked

/-! ### A file of the first version -/

/-- What the migration needs of the file and of the values drawn: their short forms differ, and a compaction
that names a later entry finds there the id that the entry is going to get. -/
structure Numberable (uuid : Nat → Nat → JsStr) (entries : List Json) : Prop where
  distinct : ((List.range (body entries).length).map (shortId uuid)).Nodup
  later : ∀ (position target : Nat) (entry found : Json), entries[position]? = some entry →
    keptPosition entry = some target → position < target → entries[target]? = some found →
    isHeader found = false →
    found.member (js "id") = some (.string (shortId uuid (body (entries.take target)).length))

theorem isBelow_mono {version : JsNumber} {bound other : Nat} (hle : bound ≤ other)
    (hbelow : isBelow version bound = true) : isBelow version other = true := by
  cases version with
  | int version =>
    rw [isBelow, decide_eq_true_iff] at hbelow ⊢
    omega
  | negZero =>
    rw [isBelow, decide_eq_true_iff] at hbelow ⊢
    omega
  | fraction bits =>
    rw [isBelow, JsNumber.atMost, Bool.or_eq_true, decide_eq_true_iff, decide_eq_true_iff] at hbelow ⊢
    · exact hbelow.imp_right fun hsmall => hsmall.trans (Nat.mul_le_mul_right _ hle)
    all_goals simp
  | infinite negative => exact hbelow
  | nan => exact hbelow

section FirstVersion

variable (uuid : Nat → Nat → JsStr) (entries : List Json)

/-- The file after both migrations. -/
def migratedV1 : List Json := (numbered uuid 0 none [] entries).map migrateV2ToV3

theorem migrateToCurrentVersion_first (hver : isBelow (fileVersion entries) 2 = true) :
    migrateToCurrentVersion uuid entries = some (migratedV1 uuid entries) := by
  have hbelow := isBelow_mono (show 2 ≤ 3 by decide) hver
  rw [fileVersion] at hver hbelow
  simp only [migrateToCurrentVersion, hver, hbelow, Bool.true_eq_false, and_false, if_false, if_true,
    migrateV1ToV2_eq, nil_append, migratedV1]

theorem ids_migratedV1 :
    (body (migratedV1 uuid entries)).map idOf = (List.range (body entries).length).map (shortId uuid) := by
  rw [migratedV1, ids_migrateV2ToV3, ids_numbered, range_eq_range']

theorem linked_migratedV1 : Linked none (body (migratedV1 uuid entries)) := by
  rw [migratedV1, body_migrateV2ToV3]
  exact linked_migrateV2ToV3 (fun _ hentry => mem_body hentry) (linked_numbered uuid 0 none [] entries)

end FirstVersion

section FirstVersion

variable {uuid : Nat → Nat → JsStr} {entries : List Json}

variable {position : Nat}

theorem exists_numbered {entry : Json} (hentry : (migratedV1 uuid entries)[position]? = some entry) :
    ∃ numberedEntry ∈ (numbered uuid 0 none [] entries)[position]?, entry = migrateV2ToV3 numberedEntry ∧
      entries[position]?.map isHeader = some (isHeader entry) := by
  rw [migratedV1, getElem?_map, Option.map_eq_some_iff] at hentry
  obtain ⟨source, hsrc, rfl⟩ := hentry
  refine ⟨source, hsrc, rfl, ?_⟩
  have hheaders := congrArg (fun flags => flags[position]?) (isHeader_numbered uuid 0 none [] entries)
  simp only [getElem?_map, hsrc, Option.map_some] at hheaders
  rw [← hheaders, isHeader_migrateV2ToV3]

theorem id_migratedV1 {entry : Json} (hentry : (migratedV1 uuid entries)[position]? = some entry)
    (hhead : isHeader entry = false) :
    entry.member (js "id") = some (.string (shortId uuid (body (entries.take position)).length)) := by
  obtain ⟨source, hsrc, rfl, _⟩ := exists_numbered hentry
  rw [isHeader_migrateV2ToV3] at hhead
  rw [member_migrateV2ToV3 hhead (by decide), id_numbered uuid hsrc hhead, Nat.zero_add]

/-- What a compaction names after the migration: the id of an entry up to itself, and what a later entry had
for an id in the file. -/
theorem kept_migratedV1 {target : Nat} {entry compaction : Json}
    (hentry : entries[position]? = some entry) (hkept : keptPosition entry = some target)
    (hcomp : (migratedV1 uuid entries)[position]? = some compaction) :
    (∀ found ∈ (migratedV1 uuid entries)[target]?, target ≤ position → isHeader found = false →
      compaction.member (js "firstKeptEntryId") = found.member (js "id")) ∧
    ∀ found ∈ entries[target]?, position < target → isHeader found = false →
      compaction.member (js "firstKeptEntryId") = found.member (js "id") := by
  obtain ⟨source, hsrc, rfl, hhead⟩ := exists_numbered hcomp
  have hnot : isHeader source = false := by
    rw [hentry, Option.map_some, isHeader_migrateV2ToV3, Option.some.injEq] at hhead
    rw [← hhead]
    by_contra htrue
    rw [keptPosition_header (Bool.eq_true_of_not_eq_false htrue)] at hkept
    exact nomatch hkept
  rw [member_migrateV2ToV3 hnot (by decide)]
  refine ⟨fun found hfound hle hfoundHeader => ?_, fun found hfound hlt hfoundHeader => ?_⟩
  · obtain ⟨other, hother, rfl, _⟩ := exists_numbered hfound
    rw [isHeader_migrateV2ToV3] at hfoundHeader
    rw [member_migrateV2ToV3 hfoundHeader (by decide)]
    refine @kept_numbered uuid _ _ [] _ _ _ _ _ _ hentry hkept hsrc ?_ hfoundHeader
    rwa [nil_append, if_pos (by simpa using hle)]
  · refine @kept_numbered uuid _ _ [] _ _ _ _ _ _ hentry hkept hsrc ?_ hfoundHeader
    rwa [nil_append, if_neg (by simpa using hlt)]

theorem faithful_iff (hdraws : ∀ count, uuid count 0 ≠ []) :
    Faithful entries (migratedV1 uuid entries) ↔ Numberable uuid entries := by
  have hlen : (migratedV1 uuid entries).length = entries.length := by
    rw [migratedV1, length_map, length_numbered]
  constructor
  · refine fun hfait => ⟨ids_migratedV1 uuid entries ▸ hfait.distinct, ?_⟩
    intro position target entry found hentry hkept hlt hfound hhead
    have hpos : position < (migratedV1 uuid entries).length := by
      rw [hlen]
      exact (List.getElem?_eq_some_iff.mp hentry).1
    have htgt : target < (migratedV1 uuid entries).length := by
      rw [hlen]
      exact (List.getElem?_eq_some_iff.mp hfound).1
    have hgiven : isHeader (migratedV1 uuid entries)[target] = false := by
      obtain ⟨_, _, _, hsame⟩ := exists_numbered (getElem?_eq_getElem htgt)
      rw [hfound, Option.map_some, Option.some.injEq, hhead] at hsame
      exact hsame.symm
    rw [← id_migratedV1 (getElem?_eq_getElem htgt) hgiven,
      ← (kept_migratedV1 hentry hkept (getElem?_eq_getElem hpos)).2 found hfound hlt hhead]
    exact hfait.kept position target entry _ hentry hkept (getElem?_eq_getElem htgt) hgiven _
      (getElem?_eq_getElem hpos)
  · intro hnum
    have hdist : ((body (migratedV1 uuid entries)).map idOf).Nodup := by
      rw [ids_migratedV1]
      exact hnum.distinct
    have hnamed : ∀ entry ∈ body (migratedV1 uuid entries), idOf entry ≠ [] := by
      intro entry hentry hid
      have hmem := mem_map_of_mem (f := idOf) hentry
      rw [ids_migratedV1, hid] at hmem
      obtain ⟨count, _, hshort⟩ := mem_map.mp hmem
      rcases hdraw : uuid count 0 with _ | ⟨unit, rest⟩
      · exact hdraws count hdraw
      · rw [shortId, hdraw] at hshort
        exact nomatch hshort
    have hlin := linked_migratedV1 uuid entries
    refine ⟨hdist, hlin, ?_, ⟨(body (migratedV1 uuid entries)).length, ?_⟩, fun manager => getBranch_linked hdist hnamed hlin⟩
    · intro position target entry found hentry hkept hfound hhead compaction hcomp
      rcases Nat.lt_or_ge position target with hlt | hle
      · -- The later entry already had the id it gets.
        obtain ⟨_, _, _, hsame⟩ := exists_numbered hfound
        obtain ⟨original, horig, hsame⟩ := Option.map_eq_some_iff.mp hsame
        rw [(kept_migratedV1 hentry hkept hcomp).2 original horig hlt (hsame.trans hhead),
          hnum.later position target entry original hentry hkept hlt horig (hsame.trans hhead),
          id_migratedV1 hfound hhead]
      · exact (kept_migratedV1 hentry hkept hcomp).1 found hfound hle hhead
    · rw [climbFromLeaf_linked hdist hnamed hlin]
      rfl

end FirstVersion

/-- The entries of a file are objects. One that is already in the current version is not touched. One of the
first version becomes the tree it is meant to be if and only if its entries drew values with distinct short
forms and no compaction names a later entry, unless that one already has the id it gets. -/
theorem migrate_faithful_iff (uuid : Nat → Nat → JsStr) (hdraws : ∀ count, uuid count 0 ≠ [])
    (objects : List (Props Json)) : let entries := objects.map Json.object
    (fileVersion entries = currentSessionVersion → migrateToCurrentVersion uuid entries = none) ∧
    (isBelow (fileVersion entries) 2 = true → ∃ migrated,
      migrateToCurrentVersion uuid entries = some migrated ∧
        (Faithful entries migrated ↔ Numberable uuid entries)) := by
  intro entries
  refine ⟨fun hcur => ?_, fun hfirst => ?_⟩
  · rw [fileVersion] at hcur
    rw [migrateToCurrentVersion]
    simp only [hcur]
    exact if_pos (by decide)
  · exact ⟨_, migrateToCurrentVersion_first uuid entries hfirst, faithful_iff hdraws⟩

/-- Random values that begin alike, and those that do not. -/
def sampleUuid (values : List JsStr) (count _ : Nat) : JsStr := values.getD count (js "00000000")

/-- A file of the first version: a header and two messages. -/
def sampleObjects : List (Props Json) :=
  [[(js "type", .string (js "session")), (js "id", .string (js "s"))], [(js "type", .string (js "message"))],
    [(js "type", .string (js "compaction")), (js "firstKeptEntryIndex", .number (.int 1))]]

theorem migrate_faithful_sample :
    ∃ migrated, migrateToCurrentVersion (sampleUuid [js "1f0e2d3c-01", js "5a6b7c8d-02"])
        (sampleObjects.map Json.object) = some migrated ∧ (Faithful (sampleObjects.map Json.object) migrated ↔
        Numberable (sampleUuid [js "1f0e2d3c-01", js "5a6b7c8d-02"]) (sampleObjects.map Json.object)) := by
  refine (migrate_faithful_iff (sampleUuid [js "1f0e2d3c-01", js "5a6b7c8d-02"]) (fun count => ?_)
    sampleObjects).2 (by decide +kernel)
  rcases count with _ | _ | count
  · decide +kernel
  · decide +kernel
  · rw [sampleUuid, getD_eq_getElem?_getD, getElem?_eq_none (by simp)]
    decide +kernel

/-- Two entries drew values with one short form: they share an id, and the loop of `getBranch` from the last
one never ends. -/
theorem migrate_collision_sample :
    ∃ migrated, migrateToCurrentVersion (sampleUuid [js "1f0e2d3c-01", js "1f0e2d3c-02"])
        (sampleObjects.map Json.object) = some migrated ∧ ¬Faithful (sampleObjects.map Json.object) migrated ∧
      ∀ rounds, climbFromLeaf migrated rounds = none := by
  refine ⟨_, migrateToCurrentVersion_first _ _ (by decide +kernel), fun hfait => ?_, fun rounds => ?_⟩
  · have hids := hfait.distinct
    rw [ids_migratedV1] at hids
    exact absurd hids (by decide +kernel)
  · exact climbToRoot_cycle (by decide +kernel) (by decide +kernel) rounds

end SessionManager

end PiRp.Manager

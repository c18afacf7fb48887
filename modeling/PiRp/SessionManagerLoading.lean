import PiRp.SessionManagerBranching

/-! Reading a session file back. An entry is read as its copy, which has its place in the tree; the index
of the copies is the index of the entries. A file of JSON lines loads as the copies of its entries, and a
line that is cut short is left out. -/

namespace PiRp.Json

open List

variable {value : Json}

theorem copy_eq_string_iff {text : JsStr} : value.copy = .string text ↔ value = .string text := by
  constructor
  · intro hcopy
    rw [copy] at hcopy
    cases value with
    | string found =>
      rw [data, norm] at hcopy
      exact hcopy
    | number number =>
      rw [data] at hcopy
      split_ifs at hcopy
      · rw [norm] at hcopy
        cases hcopy
      · rw [norm] at hcopy
        cases hcopy
    | _ =>
      rw [data, norm] at hcopy
      cases hcopy
  · rintro rfl
    exact copy_string text

theorem data_of_serializable (hvalue : value.Serializable) : value.data = value := by
  induction hvalue with
  | null => rw [data]
  | bool value => rw [data]
  | number hfin => rw [data, if_pos hfin]
  | string value => rw [data]
  | @array items _ ih =>
    rw [data, dataItems_eq]
    exact congrArg Json.array ((map_congr_left ih).trans (map_id items))
  | @object props _ _ ih =>
    rw [data, dataProps_eq]
    refine congrArg Json.object ?_
    refine (map_congr_left fun entry hentry => ?_).trans (map_id props)
    exact Prod.ext rfl (ih entry hentry)

variable (hvalue : value.WellFormed)

include hvalue

theorem data_copy : value.copy.data = value.copy :=
  data_of_serializable hvalue.norm

theorem wellFormed_copy : value.copy.WellFormed := by
  rw [WellFormed, data_copy hvalue]
  exact hvalue.norm

omit hvalue in
theorem copy_object (props : Props Json) : ∃ copied, (Json.object props).copy = .object copied := by
  rw [copy, data, norm]
  exact ⟨_, rfl⟩

theorem text_copy [JsonText.NumberText] : value.copy.text = value.text := by
  rw [text, data_copy hvalue, text, copy, JsonText.stringify_norm]

end PiRp.Json

namespace PiRp.Manager

open List

open Jsonl (newline nullable)

/-! ### Copies of entries -/

theorem textOf_copy (entry : Json) (key : JsStr) : textOf entry.copy key = textOf entry key := by
  rw [textOf, textOf, Json.member_copy]
  cases hmemb : entry.member key with
  | none => rfl
  | some value =>
    rw [Option.map_some]
    by_cases htext : ∃ text, value = .string text
    · obtain ⟨text, rfl⟩ := htext
      rw [Json.copy_string]
    · have hcopy : ∀ text, value.copy ≠ .string text := fun text heq =>
        htext ⟨text, Json.copy_eq_string_iff.mp heq⟩
      cases hvalue : value with
      | string text => exact absurd ⟨text, hvalue⟩ htext
      | _ =>
        rw [hvalue] at hcopy
        split
        · rename_i text heq
          exact absurd (Option.some.inj heq) (hcopy text)
        · rfl

theorem isType_copy (entry : Json) (type : JsStr) : isType entry.copy type = isType entry type := by
  refine decide_eq_decide.mpr ?_
  rw [Json.member_copy, Option.map_eq_some_iff]
  constructor
  · rintro ⟨value, hmemb, hcopy⟩
    rw [hmemb, Json.copy_eq_string_iff.mp hcopy]
  · exact fun hmemb => ⟨_, hmemb, Json.copy_string type⟩

theorem idOf_copy (entry : Json) : idOf entry.copy = idOf entry := textOf_copy entry _

theorem parentIdOf_copy (entry : Json) : parentIdOf entry.copy = parentIdOf entry := by
  rw [parentIdOf, parentIdOf, textOf_copy]

variable {entry : Json}

theorem IsEntry.copy (hentry : IsEntry entry) : IsEntry entry.copy where
  notHeader := (isType_copy entry _).trans hentry.notHeader
  named := (idOf_copy entry).trans_ne hentry.named
  object := by
    obtain ⟨props, rfl⟩ := hentry.object
    exact Json.copy_object props
  wellFormed := Json.wellFormed_copy hentry.wellFormed

theorem IsEntry.keepsPlace_copy (hentry : IsEntry entry) : KeepsPlace Json.copy entry :=
  ⟨idOf_copy entry, parentIdOf_copy entry, hentry.copy⟩

variable {entries : List Json}

theorem Grows.copy (hgrows : Grows entries) : Grows (entries.map Json.copy) :=
  hgrows.map fun entry hentry => (hgrows.isEntry entry hentry).keepsPlace_copy

theorem IsSessionHeader.copy (hentry : IsSessionHeader entry) : IsSessionHeader entry.copy where
  isHeader := (isType_copy entry _).trans hentry.isHeader
  object := by
    obtain ⟨props, rfl⟩ := hentry.object
    exact Json.copy_object props
  id := by
    obtain ⟨id, hid⟩ := hentry.id
    exact ⟨id, by rw [Json.member_copy, hid, Option.map_some, Json.copy_string]⟩
  version := by
    rw [Json.member_copy, hentry.version, Option.map_some, Json.copy, Json.data]
    decide
  wellFormed := Json.wellFormed_copy hentry.wellFormed

theorem rootPath_copy {path : List Json} {leaf : Option JsStr} (hpath : entryLinks.RootPath entries leaf path) :
    entryLinks.RootPath (entries.map Json.copy) leaf (path.map Json.copy) := by
  induction hpath with
  | nil => exact .nil
  | @concat node path hnode _ ih =>
    have hlink : entryLinks.parent node.copy = entryLinks.parent node := parentIdOf_copy node
    have hcon := ParentLinks.RootPath.concat (mem_map_of_mem hnode) (hlink.symm ▸ ih)
    rw [map_append, map_singleton]
    rwa [show entryLinks.key node.copy = entryLinks.key node from idOf_copy node] at hcon

/-! ### The index of copies -/

def Index.copy (index : Index) : Index := { index with byId := index.byId.mapValues Json.copy }

theorem Index.add_copy (index : Index) (entry : Json) : index.copy.add entry.copy = (index.add entry).copy := by
  have hpush : index.copy.push entry.copy = (index.push entry).copy := by
    rw [Index.push, Index.push, Index.copy, Index.copy]
    dsimp only
    rw [JsMap.mapValues_set, idOf_copy]
  rw [Index.add, Index.add, isHeader, isHeader, isLabel, isLabel, isType_copy, isType_copy, textOf_copy,
    textOf_copy, textOf_copy, hpush]
  split_ifs
  · rfl
  · rw [Index.setLabel, Index.setLabel]
    split_ifs <;> rfl
  · rfl

theorem Index.foldl_copy (entries : List Json) (index : Index) :
    (entries.map Json.copy).foldl Index.add index.copy = (entries.foldl Index.add index).copy := by
  induction entries generalizing index with
  | nil => rfl
  | cons entry rest ih => rw [map_cons, foldl_cons, foldl_cons, Index.add_copy, ih]

/-! ### Lines -/

theorem stripReturn_of_printable {line : JsStr} (hline : JsonText.Printable line) : stripReturn line = line := by
  rw [stripReturn, if_neg]
  intro hlast
  have := hline _ (mem_of_getLast? hlast)
  exact absurd this (by decide)

variable {rest : JsStr}

theorem trim_ne_nil {unit : UInt16} (hunit : JsStr.isWhitespace unit = false) : JsStr.trim (unit :: rest) ≠ [] := by
  rw [JsStr.trim, dropWhile_cons_of_neg (by simp [hunit]), Ne, reverse_eq_nil_iff, dropWhile_eq_nil_iff]
  intro hall
  have := hall unit (mem_reverse.mpr mem_cons_self)
  rw [hunit] at this
  exact nomatch this

variable [JsonText.NumberText]

theorem newline_not_mem_text (hentry : entry.WellFormed) : newline ∉ entry.text := by
  intro hmem
  have := Json.printable_text hentry newline hmem
  exact absurd this (by decide)

theorem jsonLines_eq (entries : List Json) :
    jsonLines entries = (entries.map Json.text).flatMap (· ++ [newline]) := by
  rw [jsonLines, flatMap_map]
  rfl

theorem readTextLines_jsonLines (hents : ∀ entry ∈ entries, entry.WellFormed) :
    readTextLines (jsonLines entries) = entries.map Json.text := by
  have hlines : ∀ line ∈ entries.map Json.text, newline ∉ line := by
    intro line hline
    obtain ⟨entry, hentry, rfl⟩ := mem_map.mp hline
    exact newline_not_mem_text (hents entry hentry)
  rw [readTextLines, jsonLines_eq, Jsonl.physicalLines_terminated hlines, map_map]
  exact map_congr_left fun entry hentry =>
    stripReturn_of_printable (Json.printable_text (hents entry hentry))

theorem readTextLines_torn {tail : JsStr} (hents : ∀ entry ∈ entries, entry.WellFormed) (hentry : entry.WellFormed)
    (htail : tail ++ rest = entry.text) (hne : tail ≠ []) :
    readTextLines (jsonLines entries ++ tail) = entries.map Json.text ++ [tail] := by
  have hlines : ∀ line ∈ entries.map Json.text, newline ∉ line := by
    intro line hline
    obtain ⟨entry, hentry, rfl⟩ := mem_map.mp hline
    exact newline_not_mem_text (hents entry hentry)
  have hprin : JsonText.Printable tail := fun unit hunit =>
    Json.printable_text hentry unit (htail ▸ mem_append_left _ hunit)
  have hnew : newline ∉ tail := fun hmem =>
    newline_not_mem_text hentry (htail ▸ mem_append_left _ hmem)
  rw [readTextLines, jsonLines_eq, Jsonl.physicalLines_unterminated hlines hnew hne, map_append,
    map_map, map_singleton, stripReturn_of_printable hprin]
  refine congrArg (· ++ [tail]) (map_congr_left fun entry hentry => ?_)
  exact stripReturn_of_printable (Json.printable_text (hents entry hentry))

theorem parseSessionEntryLine_text {props : Props Json} (hobj : entry = .object props)
    (hentry : entry.WellFormed) : SessionManager.parseSessionEntryLine entry.text = some entry.copy := by
  have htrim : JsStr.trim entry.text ≠ [] := by
    obtain ⟨rest, htext⟩ := Json.text_object props
    rw [hobj, htext]
    exact trim_ne_nil (by decide)
  unfold SessionManager.parseSessionEntryLine
  rw [if_neg htrim, Json.parse_text hentry]
  subst hobj
  obtain ⟨copied, hcop⟩ := Json.copy_object props
  rw [hcop]

theorem parseSessionEntryLine_torn {props : Props Json} (hobj : entry = .object props)
    (hentry : entry.WellFormed) {tail : JsStr} (htail : tail ++ rest = entry.text)
    (hrest : rest ≠ []) : SessionManager.parseSessionEntryLine tail = none := by
  unfold SessionManager.parseSessionEntryLine
  split_ifs
  · rfl
  · subst hobj
    rw [Json.WellFormed, Json.data] at hentry
    rw [Json.text, Json.data] at htail
    rw [JsonText.parse_truncated hentry htail.symm hrest]

/-- The values of the lines of a text. -/
def entriesOf (text : JsStr) : List Json :=
  (readTextLines text).filterMap SessionManager.parseSessionEntryLine

/-- An object that is written to a file. -/
def Writable (entry : Json) : Prop := (∃ props, entry = .object props) ∧ entry.WellFormed

theorem filterMap_text (hents : ∀ entry ∈ entries, Writable entry) :
    (entries.map Json.text).filterMap SessionManager.parseSessionEntryLine = entries.map Json.copy := by
  rw [filterMap_map, ← filterMap_eq_map]
  refine filterMap_congr fun entry hentry => ?_
  obtain ⟨⟨props, hobj⟩, hfor⟩ := hents entry hentry
  exact parseSessionEntryLine_text hobj hfor

theorem entriesOf_jsonLines (hents : ∀ entry ∈ entries, Writable entry) :
    entriesOf (jsonLines entries) = entries.map Json.copy := by
  rw [entriesOf, readTextLines_jsonLines fun entry hentry => (hents entry hentry).2,
    filterMap_text hents]

theorem entriesOf_torn {entries : List Json} (hents : ∀ entry ∈ entries, Writable entry) {entry : Json}
    (hentry : Writable entry) {tail rest : JsStr} (htail : tail ++ rest = lineOf entry)
    (hrest : rest ≠ []) : entriesOf (jsonLines entries ++ tail) = entries.map Json.copy ∨
      entriesOf (jsonLines entries ++ tail) = entries.map Json.copy ++ [entry.copy] := by
  obtain ⟨⟨props, hobj⟩, hfor⟩ := hentry
  have hwrit : ∀ entry ∈ entries, entry.WellFormed := fun entry hentry => (hents entry hentry).2
  -- The rest of the line ends with the newline.
  obtain ⟨front, rfl⟩ : ∃ front, rest = front ++ [newline] := by
    refine ⟨rest.dropLast, ?_⟩
    have hlast := congrArg List.getLast? htail
    rw [getLast?_append_of_ne_nil _ hrest, lineOf, getLast?_concat] at hlast
    exact (dropLast_append_getLast? _ hlast).symm
  rw [lineOf, ← append_assoc] at htail
  have hpart := append_cancel_right htail
  by_cases hne : tail = []
  · subst hne
    rw [append_nil]
    exact .inl (entriesOf_jsonLines hents)
  · rw [entriesOf, readTextLines_torn hwrit hfor hpart hne, filterMap_append, filterMap_text hents]
    by_cases hfront : front = []
    · subst hfront
      rw [append_nil] at hpart
      rw [hpart]
      refine .inr ?_
      rw [filterMap_cons, parseSessionEntryLine_text hobj hfor]
      rfl
    · refine .inl ?_
      rw [filterMap_cons, parseSessionEntryLine_torn hobj hfor hpart hfront]
      exact append_nil _

/-! ### Opening -/

/-- The manager of a file that was opened. -/
structure Opened (storage : Storage) (path : JsStr) (loaded : List Json) (manager : SessionManager) :
    Prop where
  entries : manager.fileEntries = loaded
  index : manager.toIndex = loaded.foldl Index.add .empty
  persist : manager.persist = true
  file : manager.sessionFile = some path
  flushed : manager.flushed = true
  storage : manager.storage = storage

theorem opened_openFile {storage : Storage} {path text : JsStr} {head : Json} {body : List Json}
    (hstor : storage path = some text) (hents : entriesOf text = head :: body)
    (hhead : IsSessionHeader head) (cwd sessionDir : JsStr) (around : Surroundings) :
    ∃ opened, SessionManager.openFile cwd sessionDir storage around path = (opened, .ok ()) ∧
      Opened storage path (head :: body) opened := by
  obtain ⟨id, hid⟩ := hhead.id
  have hload : SessionManager.loadEntriesFromFile text = head :: body := by
    rw [SessionManager.loadEntriesFromFile, show (readTextLines text).filterMap
      SessionManager.parseSessionEntryLine = head :: body from hents]
    dsimp only
    rw [if_pos ⟨hhead.isHeader, by rw [hid]; rfl⟩]
  have hver : SessionManager.migrateToCurrentVersion around.uuid (head :: body) = none := by
    have hfound : (head :: body).find? isHeader = some head := find?_cons_of_pos hhead.isHeader
    rw [SessionManager.migrateToCurrentVersion, hfound, Option.map_some, Option.getD_some,
      SessionManager.versionOf, hhead.version]
    rfl
  let located := { SessionManager.blank cwd sessionDir true storage with sessionFile := some path }
  refine ⟨{ SessionManager.buildIndex { located with
    fileEntries := head :: body
    sessionId := (((head :: body).find? isHeader).map idOf).getD around.sessionId } with flushed := true }, ?_,
    ⟨rfl, rfl, rfl, rfl, rfl, rfl⟩⟩
  have hfile : (SessionManager.blank cwd sessionDir true storage).storage path = some text := hstor
  rw [SessionManager.openFile, SessionManager.setSessionFile, hfile]
  dsimp only
  rw [hload]
  dsimp only
  rw [hver]

omit [JsonText.NumberText] in
theorem Opened.sound {storage : Storage} {path : JsStr} {head : Json} {body : List Json}
    {manager : SessionManager} (hopen : Opened storage path (head :: body) manager)
    (hhead : IsSessionHeader head) (hgrows : Grows body) : Sound manager body := by
  have hsound := sound_of_entries hopen.entries hhead hgrows
  refine hsound.congr rfl ?_
  rw [SessionManager.buildIndex, hopen.entries, ← hopen.index]

end PiRp.Manager

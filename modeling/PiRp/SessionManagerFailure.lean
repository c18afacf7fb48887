import PiRp.SessionManagerReopening

/-! Failing writes. An entry is in the memory before it is written, so a failed append leaves the memory
ahead of the file, and a child of the lost entry is written with a parent that the file does not have. As
long as every append finds its parent in the file, at the end of a line, what the file holds is a tree of
its own: the branch of its last entry is the branch in the memory. -/

namespace PiRp.Manager

open List JsonText

open Jsonl (newline nullable)

/-! ### Parts of a file -/

theorem Grows.of_append_left {entries rest : List Json} (hgrows : Grows (entries ++ rest)) : Grows entries := by
  induction rest using List.reverseRecOn with
  | nil =>
    rw [append_nil] at hgrows
    exact hgrows
  | append_singleton rest last ih =>
    rw [← append_assoc] at hgrows
    cases hcon : entries ++ rest ++ [last] with
    | nil => exact absurd hcon (by simp)
    | cons first others =>
      rw [hcon] at hgrows
      generalize hall : first :: others = all at hgrows
      cases hgrows with
      | nil => exact nomatch hall
      | concat hents _ _ _ =>
        rw [← hcon] at hall
        obtain ⟨rfl, _⟩ := append_inj' hall rfl
        exact ih hents

section Files

variable [NumberText]

/-- The text is a part of the line, not all of it. -/
def PartOf (entry : Json) (tail : JsStr) : Prop := ∃ rest, tail ++ rest = lineOf entry ∧ rest ≠ []

theorem PartOf.newline_not_mem {entry : Json} {tail : JsStr} (hentry : entry.WellFormed)
    (hpart : PartOf entry tail) : newline ∉ tail := by
  obtain ⟨rest, htail, hrest⟩ := hpart
  have hlast := congrArg List.dropLast htail
  rw [dropLast_append_of_ne_nil hrest, lineOf, dropLast_concat] at hlast
  intro hmem
  exact newline_not_mem_text hentry (hlast ▸ mem_append_left _ hmem)

theorem take_line (entry : Json) (count : Nat) :
    (lineOf entry).take count = lineOf entry ∨ PartOf entry ((lineOf entry).take count) := by
  by_cases hcount : (lineOf entry).length ≤ count
  · exact .inl (take_of_length_le hcount)
  · refine .inr ⟨(lineOf entry).drop count, take_append_drop count _, ?_⟩
    rw [Ne, drop_eq_nil_iff]
    exact hcount

theorem take_jsonLines (entries : List Json) (count : Nat) : ∃ done todo tail,
    entries = done ++ todo ∧ (jsonLines entries).take count = jsonLines done ++ tail ∧
      (tail = [] ∨ ∃ entry others, todo = entry :: others ∧ PartOf entry tail) := by
  induction entries generalizing count with
  | nil => exact ⟨[], [], [], rfl, by rw [jsonLines, flatMap_nil, take_nil]; rfl, .inl rfl⟩
  | cons entry rest ih =>
    have hlines : jsonLines (entry :: rest) = lineOf entry ++ jsonLines rest := rfl
    by_cases hcount : (lineOf entry).length ≤ count
    · obtain ⟨done, todo, tail, rfl, htake, htail⟩ := ih (count - (lineOf entry).length)
      refine ⟨entry :: done, todo, tail, rfl, ?_, htail⟩
      rw [hlines, take_append, take_of_length_le hcount, htake, ← append_assoc]
      rfl
    · refine ⟨[], entry :: rest, (lineOf entry).take count, rfl, ?_, ?_⟩
      · rw [hlines, take_append_of_le_length (Nat.le_of_not_le hcount)]
        rfl
      · refine (take_line entry count).elim (fun hwhole => ?_) fun hpart => .inr ⟨entry, rest, rfl, hpart⟩
        have hlen := congrArg List.length hwhole
        rw [length_take] at hlen
        omega

/-! ### What a file holds -/

/-- The entries of the file are a tree in the memory, also with the entry whose line was cut short. -/
def Saved (body saved : List Json) (tail : JsStr) : Prop :=
  Grows saved ∧ saved.Sublist body ∧
    (tail = [] ∨ ∃ entry, PartOf entry tail ∧ Grows (saved ++ [entry]) ∧ (saved ++ [entry]).Sublist body)

/-- The text of a file: a part of the header, or the lines of a tree and a part of one more. -/
def Kept (head : Json) (body : List Json) (text : JsStr) : Prop :=
  PartOf head text ∨ ∃ saved tail, text = jsonLines (head :: saved) ++ tail ∧ Saved body saved tail

theorem Kept.mono {head : Json} {body : List Json} {text : JsStr} (hkept : Kept head body text)
    (entry : Json) : Kept head (body ++ [entry]) text := by
  have hmore : body.Sublist (body ++ [entry]) := sublist_append_left _ _
  refine hkept.imp_right ?_
  rintro ⟨saved, tail, htext, hgrows, hsub, htail⟩
  refine ⟨saved, tail, htext, hgrows, hsub.trans hmore, htail.imp_right ?_⟩
  rintro ⟨last, hpart, hlast, hbody⟩
  exact ⟨last, hpart, hlast, hbody.trans hmore⟩

omit [NumberText] in
theorem writable_cons {head : Json} {entries : List Json} (hhead : IsSessionHeader head)
    (hgrows : Grows entries) : ∀ entry ∈ head :: entries, Writable entry := by
  intro entry hentry
  rcases mem_cons.mp hentry with rfl | hentry
  · exact ⟨hhead.object, hhead.wellFormed⟩
  · exact ⟨(hgrows.isEntry entry hentry).object, (hgrows.isEntry entry hentry).wellFormed⟩

theorem Kept.read {head : Json} {body : List Json} {text : JsStr} (hkept : Kept head body text)
    (hhead : IsSessionHeader head) : entriesOf text = [] ∨ ∃ saved, Grows saved ∧ saved.Sublist body ∧
      entriesOf text = (head :: saved).map Json.copy := by
  rcases hkept with ⟨rest, htext, hrest⟩ | ⟨saved, tail, rfl, hgrows, hsub, htail⟩
  · have hread := @entriesOf_torn _ [] (fun _ hentry => absurd hentry not_mem_nil) head
      ⟨hhead.object, hhead.wellFormed⟩ text rest htext hrest
    rw [show jsonLines [] ++ text = text from rfl] at hread
    exact hread.imp_right fun hread => ⟨[], .nil, nil_sublist _, hread⟩
  · have hwritab := writable_cons hhead hgrows
    refine .inr ?_
    rcases htail with rfl | ⟨entry, ⟨rest, htail, hrest⟩, hmore, hbody⟩
    · rw [append_nil]
      exact ⟨saved, hgrows, hsub, entriesOf_jsonLines hwritab⟩
    · have hisEntry := hmore.isEntry entry (mem_append_right _ (mem_singleton_self _))
      rcases entriesOf_torn hwritab ⟨hisEntry.object, hisEntry.wellFormed⟩ htail hrest with hread | hread
      · exact ⟨saved, hgrows, hsub, hread⟩
      · refine ⟨saved ++ [entry], hmore, hbody, hread.trans ?_⟩
        rw [← cons_append, map_append]
        rfl

theorem Kept.complete {head : Json} {body : List Json} {text : JsStr} (hkept : Kept head body text)
    (hhead : IsSessionHeader head) (hlast : text.getLast? = some newline) : ∃ saved,
      text = jsonLines (head :: saved) ∧ Grows saved ∧ saved.Sublist body := by
  have hmem := mem_of_getLast? hlast
  rcases hkept with hpart | ⟨saved, tail, rfl, hgrows, hsub, htail⟩
  · exact absurd hmem (hpart.newline_not_mem hhead.wellFormed)
  · rcases htail with rfl | ⟨entry, hpart, hmore, _⟩
    · exact ⟨saved, append_nil _, hgrows, hsub⟩
    · have hisEntry := hmore.isEntry entry (mem_append_right _ (mem_singleton_self _))
      by_cases hne : tail = []
      · subst hne
        exact ⟨saved, append_nil _, hgrows, hsub⟩
      · rw [getLast?_append_of_ne_nil _ hne] at hlast
        exact absurd (mem_of_getLast? hlast) (hpart.newline_not_mem hisEntry.wellFormed)

/-! ### Failing calls -/

/-- Memory and file of a session whose writes can fail. -/
structure Holds (manager : SessionManager) (head : Json) (body : List Json) (path : JsStr) : Prop where
  entries : manager.fileEntries = head :: body
  header : IsSessionHeader head
  sound : Sound manager body
  persist : manager.persist = true
  file : manager.sessionFile = some path
  kept : manager.storage path = none ∧ manager.flushed = false ∨
    ∃ text, manager.storage path = some text ∧ Kept head body text

/-- The session file ends with a complete line and has the entry with the id. -/
def InReach (manager : SessionManager) (parentId : Option JsStr) : Prop :=
  manager.flushed = true → ∀ path, manager.sessionFile = some path → ∀ text, manager.storage path = some text →
    text.getLast? = some newline ∧ ∀ id, parentId = some id →
      id ∈ ((SessionManager.loadEntriesFromFile text).filter fun entry => !isHeader entry).map idOf

instance (manager : SessionManager) (parentId : Option JsStr) : Decidable (InReach manager parentId) :=
  inferInstanceAs (Decidable (_ → ∀ path, manager.sessionFile = some path →
    ∀ text, manager.storage path = some text → _))

omit [NumberText] in
theorem writeTextFile_exclusive {storage : Storage} {path text data : JsStr} (fault : Option Fault)
    (hexis : storage path = some text) :
    writeTextFile storage path data true fault = (storage, .error (existsMessage path)) := by
  unfold writeTextFile
  rw [hexis]
  rfl

omit [NumberText] in
theorem writeTextFile_new {storage : Storage} {path : JsStr} (data : JsStr) (fault : Option Fault)
    (hnew : storage path = none) : (writeTextFile storage path data true fault) = match fault with
      | none => (storage.put path data, .ok ())
      | some fault =>
        (match fault.written with
          | none => storage
          | some written => storage.put path (data.take written), .error fault.message) := by
  unfold writeTextFile
  rw [hnew]
  rfl

theorem mem_saved {head : Json} {saved : List Json} (hhead : IsSessionHeader head) (hgrows : Grows saved)
    {id : JsStr} (hid : id ∈ ((SessionManager.loadEntriesFromFile (jsonLines (head :: saved))).filter
      fun entry => !isHeader entry).map idOf) : id ∈ saved.map idOf := by
  obtain ⟨headId, hheadId⟩ := hhead.copy.id
  have hread : (readTextLines (jsonLines (head :: saved))).filterMap SessionManager.parseSessionEntryLine =
      head.copy :: saved.map Json.copy := entriesOf_jsonLines (writable_cons hhead hgrows)
  rw [SessionManager.loadEntriesFromFile, hread] at hid
  dsimp only at hid
  rw [if_pos ⟨hhead.copy.isHeader, by rw [hheadId]; rfl⟩, filter_cons_of_neg (by simp [hhead.copy.isHeader])] at hid
  obtain ⟨entry, hentry, rfl⟩ := mem_map.mp hid
  obtain ⟨source, hsrc, rfl⟩ := mem_map.mp (mem_of_mem_filter hentry)
  exact idOf_copy source ▸ mem_map_of_mem hsrc

namespace Holds

variable {manager : SessionManager} {head : Json} {body : List Json} {path : JsStr}

variable (hholds : Holds manager head body path)

include hholds

theorem kept_append {content : Content} {base : Base}
    (hflus : manager.flushed = true) (hreach : InReach manager base.parentId)
    (hgrown : Grows (body ++ [content.entry base])) (fault : Option Fault) : ∃ text,
    (appendTextFile manager.storage path (lineOf (content.entry base)) fault).1 path = some text ∧
      Kept head (body ++ [content.entry base]) text := by
  set entry := content.entry base with hentry
  obtain ⟨text, htext, hkept⟩ := hholds.kept.resolve_left fun habs =>
    absurd (hflus.symm.trans habs.2) nofun
  obtain ⟨hlast, hpar⟩ := hreach hflus path hholds.file text htext
  obtain ⟨saved, rfl, hgrows, hsub⟩ := hkept.complete hholds.header hlast
  have hmore : (saved ++ [entry]).Sublist (body ++ [entry]) := hsub.append_right _
  have hsaved : Grows (saved ++ [entry]) := by
    have hisEntry := hgrown.isEntry entry (mem_append_right _ (mem_singleton_self _))
    have hnodup := hgrown.nodup.sublist (hmore.map idOf)
    rw [map_append, nodup_append'] at hnodup
    refine .concat hgrows hisEntry (disjoint_singleton.mp hnodup.2.2) fun parentId hlink => ?_
    rw [hentry, parentIdOf_of_member (parentId_entry content base)] at hlink
    exact mem_saved hholds.header hgrows (hpar parentId (parent_of_bind_nonEmpty hlink))
  have hwhole : Kept head (body ++ [entry]) (jsonLines (head :: saved) ++ lineOf entry) := by
    refine .inr ⟨saved ++ [entry], [], ?_, hsaved, hmore, .inl rfl⟩
    rw [append_nil, jsonLines, jsonLines, ← cons_append, flatMap_append, flatMap_singleton]
  cases fault with
  | none =>
    refine ⟨_, ?_, hwhole⟩
    dsimp only [appendTextFile]
    rw [put_eq, htext]
    rfl
  | some fault =>
    cases hwrt : fault.written with
    | none =>
      refine ⟨_, ?_, .inr ⟨saved, [], (append_nil _).symm, hgrows, hsub.trans (sublist_append_left _ _), .inl rfl⟩⟩
      dsimp only [appendTextFile]
      rw [hwrt]
      exact htext
    | some count =>
      refine ⟨jsonLines (head :: saved) ++ (lineOf entry).take count, ?_, ?_⟩
      · dsimp only [appendTextFile]
        rw [hwrt]
        dsimp only
        rw [put_eq, htext]
        rfl
      · rcases take_line entry count with htake | hpart
        · rw [htake]
          exact hwhole
        · exact .inr ⟨saved, _, rfl, hgrows, hsub.trans (sublist_append_left _ _), .inr ⟨entry, hpart, hsaved, hmore⟩⟩

omit hholds in
theorem kept_whole (hgrows : Grows body) {storage : Storage} (hnew : storage path = none) (fault : Option Fault) :
    ((writeTextFile storage path (jsonLines (head :: body)) true fault).1 path = none ∧
        (writeTextFile storage path (jsonLines (head :: body)) true fault).2 ≠ .ok ()) ∨
      ∃ text, (writeTextFile storage path (jsonLines (head :: body)) true fault).1 path = some text ∧
        Kept head body text := by
  rw [writeTextFile_new _ fault hnew]
  cases fault with
  | none =>
    refine .inr ⟨_, put_eq _ _ _, .inr ⟨body, [], (append_nil _).symm, hgrows, .refl _, .inl rfl⟩⟩
  | some fault =>
    dsimp only
    cases hwrt : fault.written with
    | none => exact .inl ⟨hnew, nofun⟩
    | some count =>
      refine .inr ⟨_, put_eq _ _ _, ?_⟩
      obtain ⟨done, todo, tail, hsplit, htake, htail⟩ := take_jsonLines (head :: body) count
      rw [htake]
      cases done with
      | nil =>
        rw [show jsonLines [] ++ tail = tail from rfl]
        refine .inl ?_
        rcases htail with rfl | ⟨entry, others, htodo, hpart⟩
        · exact ⟨lineOf head, rfl, by rw [lineOf]; simp⟩
        · rw [htodo, nil_append] at hsplit
          exact (List.cons.inj hsplit).1 ▸ hpart
      | cons first saved =>
        rw [cons_append] at hsplit
        obtain ⟨rfl, rfl⟩ := List.cons.inj hsplit
        refine .inr ⟨saved, tail, rfl, hgrows.of_append_left, sublist_append_left _ _, htail.imp_right ?_⟩
        rintro ⟨entry, others, rfl, hpart⟩
        rw [append_cons] at hgrows ⊢
        exact ⟨entry, hpart, hgrows.of_append_left, sublist_append_left _ _⟩

theorem grow {fault : Option Fault} {content : Content} {base : Base}
    (hpar : base.parentId = manager.leafId ∨ ∀ id, base.parentId = some id → manager.byId.has id = true)
    (hnew : manager.byId.has base.id = false) (hnamed : base.id ≠ []) (hreach : InReach manager base.parentId) :
    Holds (manager.grow fault content base) head (body ++ [content.entry base]) path := by
  have hsound := @Sound.grow _ manager body hholds.sound content base fault hpar hnew hnamed
  have hents : (manager.grow fault content base).fileEntries = head :: (body ++ [content.entry base]) := by
    rw [(SessionManager.growsBy_grow manager fault content base).entries, hholds.entries, cons_append]
  have hwrit := SessionManager.writes_grow manager fault content base
  set entry := content.entry base with hentry
  let pushed : SessionManager := { manager with
    toIndex := manager.toIndex.push entry
    fileEntries := manager.fileEntries ++ [entry] }
  have hpus : pushed.fileEntries = head :: (body ++ [entry]) := by
    rw [show pushed.fileEntries = manager.fileEntries ++ [entry] from rfl, hholds.entries, cons_append]
  refine ⟨hents, hholds.header, hsound, hwrit.1.trans hholds.persist, hwrit.2.trans hholds.file, ?_⟩
  -- The label that is recorded is in no file.
  suffices hkept : (pushed.persistEntry fault entry).1.storage path = none ∧
      (pushed.persistEntry fault entry).1.flushed = false ∨
        ∃ text, (pushed.persistEntry fault entry).1.storage path = some text ∧
          Kept head (body ++ [entry]) text by
    rw [SessionManager.grow]
    unfold SessionManager.recordLabel
    split
    · split
      · exact hkept
      · exact hkept
    · exact hkept
  unfold SessionManager.persistEntry
  rw [show pushed.persist = true from hholds.persist, show pushed.sessionFile = some path from hholds.file]
  dsimp only
  by_cases hflus : manager.flushed = true
  · rw [if_pos hflus]
    exact .inr (hholds.kept_append hflus hreach hsound.grows fault)
  · have hunf := Bool.not_eq_true _ ▸ hflus
    rw [if_neg hflus]
    have hbef : manager.storage path = none ∧ manager.flushed = false ∨
        ∃ text, manager.storage path = some text ∧ Kept head (body ++ [entry]) text :=
      hholds.kept.imp_right (Exists.imp fun _ hkept => hkept.imp_right (·.mono entry))
    split_ifs
    · rw [hpus]
      rcases hbef with ⟨habs, _⟩ | ⟨text, htext, hkept⟩
      · rcases @kept_whole _ head _ _ hsound.grows _ habs fault with ⟨hnone, hfail⟩ | hsome
        · split
          · rename_i storage hwrite
            rw [show writeTextFile pushed.storage path _ true fault = (storage, .ok ()) from hwrite] at hfail
            exact absurd rfl hfail
          · rename_i storage error hwrite
            rw [hwrite] at hnone
            exact .inl ⟨hnone, hunf⟩
        · split
          · rename_i storage hwrite
            rw [hwrite] at hsome
            exact .inr hsome
          · rename_i storage error hwrite
            rw [hwrite] at hsome
            exact .inr hsome
      · rw [writeTextFile_exclusive fault htext]
        exact .inr ⟨text, htext, hkept⟩
    · exact hbef

theorem performTree {around : Surroundings}
    (hids : NewIds manager around.uuid) {call : TreeCall}
    (hreach : manager.appends call = true → InReach manager (manager.parentOf call)) :
    ∃ grown, Holds (manager.performTree around call) head grown path := by
  have hmoved : ∀ {after : SessionManager}, after.fileEntries = manager.fileEntries →
      after.persist = manager.persist → after.sessionFile = manager.sessionFile →
      after.storage = manager.storage → after.flushed = manager.flushed → Sound after body →
      Holds after head body path := by
    intro after hents hper hfile hstor hflus hsound
    exact ⟨hents.trans hholds.entries, hholds.header, hsound, hper.trans hholds.persist,
      hfile.trans hholds.file, by rw [hstor, hflus]; exact hholds.kept⟩
  by_cases happ : manager.appends call = true
  · have hreach := hreach happ
    generalize manager.performTree around call = after, manager.parentOf call = parentId,
      SessionManager.treeStep_performTree hids call = hstep at hreach ⊢
    cases hstep with
    | stay => exact ⟨body, hholds⟩
    | move hleaf =>
      exact ⟨body, hmoved rfl rfl rfl rfl rfl { hholds.sound with leaf := fun id hid => (has_named hholds.sound.byId).mp (hleaf id hid) }⟩
    | append hbase hpar hnew hnamed =>
      exact ⟨_, hholds.grow hpar hnew hnamed (hbase ▸ hreach)⟩
  · obtain ⟨leaf, hleaf, hafter⟩ := SessionManager.moves_of_not_appends around (Bool.not_eq_true _ ▸ happ)
    rw [hafter]
    refine ⟨body, hmoved rfl rfl rfl rfl rfl { hholds.sound with leaf := fun id hid => ?_ }⟩
    rcases hleaf with hsame | hthere
    · exact hholds.sound.leaf id (hsame ▸ hid)
    · exact (has_named hholds.sound.byId).mp (hthere id hid)

end Holds

/-- A call that appends an entry to the file finds the end of a line, and the parent in the file. -/
def Grounded (manager : SessionManager) (call : Surroundings × Call) : Prop :=
  match call.2 with
  | .tree call => manager.appends call = true → InReach manager (manager.parentOf call)
  | _ => True

/-- Calls on the tree. -/
def treeCalls (calls : List (Surroundings × TreeCall)) : List (Surroundings × Call) :=
  calls.map fun call => (call.1, .tree call.2)

theorem Holds.run {manager : SessionManager} {head : Json} {body : List Json} {path : JsStr}
    (hholds : Holds manager head body path) {calls : List (Surroundings × TreeCall)}
    (hdraws : Along Draws manager (treeCalls calls)) (hgroun : Along Grounded manager (treeCalls calls)) :
    ∃ grown, Holds (manager.run (treeCalls calls)) head grown path := by
  induction calls generalizing manager body with
  | nil => exact ⟨body, hholds⟩
  | cons call rest ih =>
    obtain ⟨grown, hgrown⟩ := hholds.performTree hdraws.1 hgroun.1
    exact ih hgrown hdraws.2 hgroun.2

theorem InStep.holds {manager : SessionManager} {body : List Json} {path : JsStr}
    (hinStep : InStep manager body path) : ∃ head, Holds manager head body path := by
  obtain ⟨head, hents, hhead⟩ := hinStep.sound.entries
  refine ⟨head, hents, hhead, hinStep.sound, hinStep.inFile.persist, hinStep.inFile.file, ?_⟩
  by_cases hflus : manager.flushed = true
  · refine .inr ⟨_, hinStep.inFile.flushed hflus, .inr ⟨body, [], ?_, hinStep.sound.grows, .refl _, .inl rfl⟩⟩
    rw [hents, append_nil]
  · have hunf := Bool.not_eq_true _ ▸ hflus
    exact .inl ⟨hinStep.inFile.deferred hunf, hunf⟩

/-! ### Main result -/

/-- Opening the session file gives, for its last entry, the branch of the same entry in the memory. -/
def KeepsHistory (manager : SessionManager) : Prop :=
  ∀ path, manager.sessionFile = some path → ∀ cwd sessionDir around opened,
    SessionManager.openFile cwd sessionDir manager.storage around path = (opened, .ok ()) →
      ∀ last, opened.leafId = some last →
        opened.getBranch (some last) = (manager.getBranch (some last)).map Json.copy

theorem Holds.keepsHistory {manager : SessionManager} {head : Json} {body : List Json} {path : JsStr}
    (hholds : Holds manager head body path) : KeepsHistory manager := by
  intro other hother cwd sessionDir around opened hopen last hlast
  obtain rfl := Option.some.inj (hholds.file.symm.trans hother)
  -- A new session has no entries.
  have hempty : ∀ {empty : SessionManager}, empty.leafId = none → opened = empty → False := by
    rintro empty hnone rfl
    cases hnone.symm.trans hlast
  rcases hholds.kept with ⟨habs, _⟩ | ⟨text, htext, hkept⟩
  · rw [SessionManager.openFile, SessionManager.setSessionFile, show (SessionManager.blank cwd sessionDir true
      manager.storage).storage path = none from habs] at hopen
    exact (hempty rfl (Prod.mk.inj hopen).1.symm).elim
  · rcases hkept.read hholds.header with hread | ⟨saved, hgrows, hsub, hread⟩
    · have hload : SessionManager.loadEntriesFromFile text = [] := by
        rw [SessionManager.loadEntriesFromFile, show (readTextLines text).filterMap
          SessionManager.parseSessionEntryLine = [] from hread]
      rw [SessionManager.openFile, SessionManager.setSessionFile, show (SessionManager.blank cwd sessionDir
        true manager.storage).storage path = some text from htext] at hopen
      dsimp only at hopen
      rw [hload] at hopen
      dsimp only at hopen
      split_ifs at hopen
      · split at hopen
        · rename_i written hwrite
          have hwrit := SessionManager.writes_rewriteFile { SessionManager.newSession
            { SessionManager.blank cwd sessionDir true manager.storage with sessionFile := some path }
              around none none with sessionFile := some path } around.fault
          rw [hwrite] at hwrit
          have hindex : written.leafId = none := congrArg Index.leafId hwrit.index
          exact (hempty (show ({ written with flushed := true } : SessionManager).leafId = none from hindex)
            (Prod.mk.inj hopen).1.symm).elim
        · cases (Prod.mk.inj hopen).2
      · cases (Prod.mk.inj hopen).2
    · rw [map_cons] at hread
      obtain ⟨read, hopenRead, hopened⟩ :=
        opened_openFile htext hread hholds.header.copy cwd sessionDir around
      obtain rfl := (Prod.mk.inj (hopenRead.symm.trans hopen)).1
      have hsound := hopened.sound hholds.header.copy hgrows.copy
      obtain ⟨entry, hentry, rfl⟩ := mem_map.mp (hsound.leaf last hlast)
      obtain ⟨source, hsrc, rfl⟩ := mem_map.mp hentry
      obtain ⟨branch, hbran, hpart⟩ := hgrows.exists_branch source hsrc
      have hnamed := (hgrows.isEntry source hsrc).named
      rw [idOf_copy]
      have hmemory := hholds.sound.getBranch_of_isBranch hnamed (hbran.mono fun _ hmem => hsub.subset hmem)
        (hpart.trans hsub).length_le
      have hfile := hsound.getBranch_of_isBranch hnamed (rootPath_copy hbran)
        (by rw [length_map, length_map]; exact hpart.length_le)
      rw [hmemory, hfile]

/-- In every run of appends on a session, whose writes can fail anywhere, the last entry of the file has
its branch, when the calls meet the condition. -/
theorem failed_write_keeps_history {manager : SessionManager} (hreac : Reached manager)
    {calls : List (Surroundings × TreeCall)} (hdraws : Along Draws manager (treeCalls calls))
    (hgroun : Along Grounded manager (treeCalls calls)) : KeepsHistory (manager.run (treeCalls calls)) := by
  obtain ⟨body, path, hinStep⟩ := hreac.inStep
  obtain ⟨head, hholds⟩ := hinStep.holds
  obtain ⟨grown, hgrown⟩ := hholds.run hdraws hgroun
  exact hgrown.keepsHistory

end Files

section Sample

local instance failureNumbers : NumberText := decimalNumbers

def sampleAppend (start role : String) : Surroundings × TreeCall :=
  (sampleAround start, .appendMessage (sampleMessage role "text"))

/-- An append that fails behind some of its line. -/
def failedAppend (start role : String) (written : Option Nat) : Surroundings × TreeCall :=
  ({ sampleAround start with fault := some ⟨js "ENOSPC", written⟩ }, .appendMessage (sampleMessage role "text"))

/-- An answer is written, a question is not, and the branch goes on behind it. -/
def orphaningCalls : List (Surroundings × TreeCall) :=
  [sampleAppend "00000001" "assistant", failedAppend "00000002" "user" none, sampleAppend "00000003" "user"]

def orphaned : SessionManager := (sampleSession true).run (treeCalls orphaningCalls)

def orphanedPath : JsStr :=
  SessionManager.sessionPath (js "/sessions") (sampleAround "00000000").now (sampleAround "00000000").sessionId

def reopened : SessionManager × Except JsStr Unit :=
  SessionManager.openFile (js "/work") (js "/sessions") orphaned.storage (sampleAround "00000004") orphanedPath

theorem returned {result : SessionManager × Except JsStr Unit} (hret : result.2.isOk = true) :
    result = (result.1, .ok ()) := by
  obtain ⟨manager, value⟩ := result
  cases value with
  | error error => exact nomatch hret
  | ok value => rfl

/-- The entry that was not written is missing from the branch. -/
theorem failed_write_orphans : Reached (sampleSession true) ∧
    Along Draws (sampleSession true) (treeCalls orphaningCalls) ∧ ¬ KeepsHistory orphaned := by
  refine ⟨.create rfl, ⟨?_, ?_, ?_, trivial⟩, fun hkeeps => ?_⟩
  · exact newIds_sample (by decide) (by decide +kernel) (by decide +kernel)
  · exact newIds_sample (by decide) (by decide +kernel) (by decide +kernel)
  · exact newIds_sample (by decide) (by decide +kernel) (by decide +kernel)
  · have hfile : orphaned.sessionFile = some orphanedPath := by decide +kernel
    have hopen : reopened.2.isOk = true := by decide +kernel
    have hleaf : reopened.1.leafId = some (js "00000003") := by decide +kernel
    have hlen : (reopened.1.getBranch (some (js "00000003"))).length ≠
        (orphaned.getBranch (some (js "00000003"))).length := by decide +kernel
    have hreop : reopened = (reopened.1, .ok ()) := returned hopen
    refine hlen ?_
    rw [hkeeps orphanedPath hfile (js "/work") (js "/sessions") (sampleAround "00000004") reopened.1 hreop _ hleaf, length_map]

/-- The session goes back to what was written before it goes on, and the last line is cut short. -/
def groundedCalls : List (Surroundings × TreeCall) :=
  [sampleAppend "00000001" "assistant", failedAppend "00000002" "user" none,
    (sampleAround "00000003", .branch (js "00000001")), sampleAppend "00000004" "user",
    failedAppend "00000005" "user" (some 9)]

theorem failed_write_keeps_history_sample : KeepsHistory ((sampleSession true).run (treeCalls groundedCalls)) := by
  have hstart : Reached (sampleSession true) := .create rfl
  refine failed_write_keeps_history hstart ⟨?_, ?_, ?_, ?_, ?_, trivial⟩ ⟨?_, ?_, ?_, ?_, ?_, trivial⟩
  · exact newIds_sample (by decide) (by decide +kernel) (by decide +kernel)
  · exact newIds_sample (by decide) (by decide +kernel) (by decide +kernel)
  · exact newIds_sample (by decide) (by decide +kernel) (by decide +kernel)
  · exact newIds_sample (by decide) (by decide +kernel) (by decide +kernel)
  · exact newIds_sample (by decide) (by decide +kernel) (by decide +kernel)
  · exact fun _ => by decide +kernel
  · exact fun _ => by decide +kernel
  · exact nofun
  · exact fun _ => by decide +kernel
  · exact fun _ => by decide +kernel

end Sample

end PiRp.Manager

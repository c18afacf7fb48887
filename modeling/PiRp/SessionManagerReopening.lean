import PiRp.JsonDecimal
import PiRp.SessionManagerLoading

/-! Reopening a session. Without storage failures the file of a persistent session holds exactly the lines
of its entries once it has been written, and does not exist before. Opening it gives the copies of the
entries with the same index and labels and the leaf at the last entry: what `JSON.stringify` cannot write,
a minus zero or a number that is not finite, is all that is lost. -/

namespace PiRp.Manager

open List JsonText

open Jsonl (newline nullable)

/-! ### Labels -/

/-- The same labels with the same times. -/
structure SameLabels (left right : Index) : Prop where
  labels : left.labelsById = right.labelsById
  timestamps : left.labelTimestampsById = right.labelTimestampsById

namespace SameLabels

variable {left right : Index}

section

variable (hsame : SameLabels left right)

include hsame

theorem setLabel (targetId label timestamp : JsStr) :
    SameLabels (left.setLabel targetId label timestamp) (right.setLabel targetId label timestamp) := by
  rw [Index.setLabel, Index.setLabel]
  split_ifs
  · exact ⟨congrArg (·.delete targetId) hsame.labels, congrArg (·.delete targetId) hsame.timestamps⟩
  · exact ⟨congrArg (·.set targetId label) hsame.labels, congrArg (·.set targetId timestamp) hsame.timestamps⟩

theorem push (entry other : Json) : SameLabels (left.push entry) (right.push other) := { hsame with }

theorem add (entry : Json) : SameLabels (left.add entry) (right.add entry) := by
  rw [Index.add, Index.add]
  split_ifs
  · exact hsame
  · exact (hsame.push entry entry).setLabel _ _ _
  · exact hsame.push entry entry

theorem add_plain {entry : Json} (hlabel : isLabel entry = false) : SameLabels (left.add entry) right := by
  rw [Index.add, hlabel, if_neg Bool.false_ne_true]
  split_ifs
  · exact hsame
  · exact { hsame with }

omit hsame in
theorem trans {middle : Index} (hleft : SameLabels left middle) (hright : SameLabels middle right) :
    SameLabels left right :=
  ⟨hleft.labels.trans hright.labels, hleft.timestamps.trans hright.timestamps⟩

theorem symm : SameLabels right left :=
  ⟨hsame.labels.symm, hsame.timestamps.symm⟩

end

theorem foldl_replaced {id : JsStr} {changed : Json} (hchg : isLabel changed = false)
    {entries : List Json} (hplain : ∀ entry ∈ entries, isHeader entry = false → idOf entry = id →
      isLabel entry = false) (hsame : SameLabels left right) :
    SameLabels ((replaced id changed entries).foldl Index.add left) (entries.foldl Index.add right) := by
  induction entries generalizing left right with
  | nil => exact hsame
  | cons entry rest ih =>
    rw [replaced, map_cons, foldl_cons, foldl_cons]
    refine ih (fun other hother => hplain other (mem_cons_of_mem _ hother)) ?_
    by_cases hrep : (!isHeader entry && decide (idOf entry = id)) = true
    · obtain ⟨hheader, hid⟩ := Bool.and_eq_true_iff.mp hrep
      have hlabel := hplain entry mem_cons_self (by simpa using hheader) (of_decide_eq_true hid)
      rw [if_pos hrep]
      exact ((hsame.add_plain hchg).symm.add_plain hlabel).symm
    · rw [if_neg hrep]
      exact hsame.add entry

end SameLabels

/-! ### Memory and file -/

section Files

variable [NumberText]

/-- The file holds the lines of the entries, or it does not exist and nothing was written. -/
structure InFile (manager : SessionManager) (entries : List Json) (path : JsStr) : Prop where
  persist : manager.persist = true
  file : manager.sessionFile = some path
  flushed : manager.flushed = true → manager.storage path = some (jsonLines entries)
  deferred : manager.flushed = false → manager.storage path = none

/-- Memory and file of a persistent session. -/
structure InStep (manager : SessionManager) (body : List Json) (path : JsStr) : Prop where
  sound : Sound manager body
  labels : SameLabels manager.toIndex (manager.fileEntries.foldl Index.add .empty)
  inFile : InFile manager manager.fileEntries path

omit [NumberText] in
theorem put_eq (storage : Storage) (path text : JsStr) : storage.put path text path = some text := if_pos rfl

theorem rewriteFile_clean {manager : SessionManager} {path : JsStr} (hper : manager.persist = true)
    (hfile : manager.sessionFile = some path) : ∃ written, manager.rewriteFile none = (written, .ok ()) ∧
      written.flushed = true ∧ InFile written manager.fileEntries path := by
  refine ⟨{ manager with storage := manager.storage.put path (jsonLines manager.fileEntries), flushed := true },
    ?_, rfl, ⟨hper, hfile, fun _ => put_eq _ _ _, nofun⟩⟩
  unfold SessionManager.rewriteFile
  rw [hper, hfile]
  rfl

namespace InFile

variable {manager : SessionManager} {entries : List Json} {path : JsStr}

theorem persistEntry (hinFile : InFile manager entries path) {entry : Json}
    (hents : manager.fileEntries = entries ++ [entry]) :
    ∃ written, manager.persistEntry none entry = (written, .ok ()) ∧ InFile written (entries ++ [entry]) path := by
  unfold SessionManager.persistEntry
  rw [hinFile.persist, hinFile.file]
  dsimp only
  by_cases hflus : manager.flushed = true
  · rw [if_pos hflus]
    refine ⟨_, rfl, ⟨rfl, rfl, fun _ => ?_, fun hnot => ?_⟩⟩
    · dsimp only [appendTextFile]
      rw [put_eq, hinFile.flushed hflus, Option.getD_some, jsonLines, jsonLines, flatMap_append, flatMap_singleton]
    · cases hflus.symm.trans hnot
  · have hdef := hinFile.deferred (Bool.not_eq_true _ ▸ hflus)
    rw [if_neg hflus]
    split_ifs with hass
    · have hwrite : writeTextFile manager.storage path (jsonLines manager.fileEntries) true none =
          (manager.storage.put path (jsonLines manager.fileEntries), .ok ()) := by
        rw [writeTextFile, hdef]
        rfl
      rw [hwrite]
      refine ⟨_, rfl, ⟨rfl, rfl, fun _ => ?_, (by rintro ⟨⟩)⟩⟩
      dsimp only
      rw [put_eq, hents]
    · exact ⟨_, rfl, ⟨hinFile.persist, hinFile.file, fun hnot => absurd hnot hflus, fun _ => hdef⟩⟩

end InFile

namespace InStep

variable {manager : SessionManager} {body : List Json} {path : JsStr}

variable (hinStep : InStep manager body path)

include hinStep

theorem grow {content : Content} {base : Base}
    (hpar : base.parentId = manager.leafId ∨ ∀ id, base.parentId = some id → manager.byId.has id = true)
    (hnew : manager.byId.has base.id = false) (hnamed : base.id ≠ []) :
    InStep (manager.grow none content base) (body ++ [content.entry base]) path := by
  have hsound := @Sound.grow _ manager body hinStep.sound content base none hpar hnew hnamed
  set entry := content.entry base with hentry
  -- The manager with the entry in its memory.
  let pushed : SessionManager := { manager with
    toIndex := manager.toIndex.push entry
    fileEntries := manager.fileEntries ++ [entry] }
  have hpus : InFile pushed manager.fileEntries path :=
    { hinStep.inFile with }
  obtain ⟨written, hwrt, hinFile⟩ := hpus.persistEntry rfl
  have hwrit := SessionManager.writes_persistEntry pushed none entry
  rw [hwrt] at hwrit
  have happ : manager.appendEntry none entry = (written, .ok ()) := hwrt
  have hents : (manager.grow none content base).fileEntries = manager.fileEntries ++ [entry] :=
    (SessionManager.growsBy_grow manager none content base).entries
  have hbef := hinStep.labels.push entry entry
  rw [SessionManager.grow, ← hentry, happ] at hsound hents ⊢
  refine ⟨hsound, ?_, ?_⟩
  · rw [hents, foldl_append, foldl_cons, foldl_nil, Index.add, isHeader_entry, if_neg Bool.false_ne_true, isLabel_entry]
    cases content with
    | label targetId label =>
      have htgt : textOf entry (js "targetId") = targetId := by
        rw [textOf, member_entry]
        rfl
      have hstamp : textOf entry (js "timestamp") = base.timestamp := by
        rw [textOf, member_entry]
        rfl
      have hlabel : textOf entry (js "label") = label.getD [] := by
        rw [textOf, member_entry]
        cases label <;> rfl
      rw [if_pos rfl, htgt, hstamp, hlabel]
      refine SameLabels.setLabel ?_ _ _ _
      rw [hwrit.index]
      exact hbef
    | _ =>
      rw [if_neg Bool.false_ne_true]
      dsimp only [SessionManager.recordLabel]
      rw [hwrit.index]
      exact hbef
  · rw [hents]
    cases content with
    | label targetId label => exact { hinFile with }
    | _ => exact hinFile

theorem treeStep {parentId : Option JsStr} {after : SessionManager}
    (hstep : manager.TreeStep none parentId after) : ∃ grown, InStep after grown path := by
  cases hstep with
  | stay => exact ⟨body, hinStep⟩
  | move hleaf =>
    obtain ⟨sound, labels, inFile⟩ := hinStep
    refine ⟨body, ⟨sound.entries, sound.grows, sound.byId,
      fun id hid => (has_named sound.byId).mp (hleaf id hid), sound.labelled⟩, ⟨labels.labels, labels.timestamps⟩,
      ⟨inFile.persist, inFile.file, inFile.flushed, inFile.deferred⟩⟩
  | append _ hpar hnew hnamed => exact ⟨_, hinStep.grow hpar hnew hnamed⟩

theorem updateMessageContent {around : Surroundings} (hfault : around.fault = none) (id text : JsStr) :
    ∃ changed, InStep (manager.updateMessageContent around id text).1 changed path := by
  rw [SessionManager.updateMessageContent]
  cases hchan : (manager.byId.get? id).bind fun entry => SessionManager.changeText entry text with
  | none => exact ⟨body, hinStep⟩
  | some changed =>
    obtain ⟨entry, hget, hchan⟩ := Option.bind_eq_some_iff.mp hchan
    have hrep := hinStep.sound.replaceEntry hget hchan
    obtain ⟨written, hwrt, _, hfile⟩ :=
      @rewriteFile_clean _ (manager.replaceEntry id changed) path hinStep.inFile.persist hinStep.inFile.file
    have hwrit := SessionManager.writes_rewriteFile (manager.replaceEntry id changed) none
    rw [hwrt] at hwrit
    dsimp only
    rw [hfault, hwrt]
    refine ⟨_, hrep.congr hwrit.entries hwrit.index, ?_, ?_⟩
    · obtain ⟨hentry, hid⟩ := mem_of_get?_named hinStep.sound.byId hget
      have hisEntry := hinStep.sound.grows.isEntry entry hentry
      obtain ⟨key, value, hchg, _, hkey, hplain⟩ := changeText_spec hisEntry.wellFormed hchan
      obtain ⟨head, hents, hhead⟩ := hinStep.sound.entries
      have hlabel : isLabel changed = false := by
        rw [hchg, isLabel, isType_withMember entry value fun heq => hkey (heq ▸ mem_cons_self)]
        exact hplain
      rw [hwrit.index, hwrit.entries]
      have hkept : SameLabels (manager.replaceEntry id changed).toIndex manager.toIndex := ⟨rfl, rfl⟩
      refine hkept.trans (hinStep.labels.trans
        (SameLabels.foldl_replaced hlabel (fun other hother hheader hsame => ?_) ⟨rfl, rfl⟩).symm)
      rw [hents] at hother
      rcases mem_cons.mp hother with rfl | hother
      · cases hhead.isHeader.symm.trans hheader
      · rw [inj_on_of_nodup_map hinStep.sound.grows.nodup hother hentry (hsame.trans hid.symm)]
        exact hplain
    · rw [hwrit.entries]
      exact hfile

theorem flush : InStep (manager.flush none).1 body path := by
  have hwrit := SessionManager.writes_flush manager none
  refine ⟨hinStep.sound.congr hwrit.entries hwrit.index, ?_, ?_⟩
  · rw [hwrit.index, hwrit.entries]
    exact hinStep.labels
  · rw [hwrit.entries, SessionManager.flush]
    split_ifs
    · exact hinStep.inFile
    · obtain ⟨written, hwrt, _, hfile⟩ := rewriteFile_clean hinStep.inFile.persist hinStep.inFile.file
      rw [hwrt]
      exact hfile
    · exact hinStep.inFile

theorem createBranchedSession {around : Surroundings}
    (hids : NewIds manager around.uuid) (hfault : around.fault = none)
    (hnew : manager.storage (SessionManager.sessionPath manager.sessionDir around.now around.sessionId) = none)
    (leafId : JsStr) : ∃ branched file, InStep (manager.createBranchedSession around leafId).1 branched file := by
  by_cases hne : manager.getBranch (some leafId) = []
  · refine ⟨body, path, ?_⟩
    rw [SessionManager.createBranchedSession]
    dsimp only
    rw [if_pos hne]
    exact hinStep
  · obtain ⟨entry, hentry, rfl⟩ := hinStep.sound.exists_of_getBranch hne
    obtain ⟨branch, _, hsub, hbranch⟩ := hinStep.sound.branch hentry
    have hbran := hinStep.sound.createBranchedSession hids hbranch (hbranch ▸ hne) hsub
    refine ⟨_, SessionManager.sessionPath manager.sessionDir around.now around.sessionId, hbran.sound, ?_, ?_⟩
    · obtain ⟨head, hents, hhead⟩ := hbran.sound.entries
      rw [hbran.index, hents, foldl_cons, Index.add, if_pos hhead.isHeader]
      exact ⟨rfl, rfl⟩
    · rw [SessionManager.createBranchedSession]
      dsimp only
      rw [if_neg hne, if_pos hinStep.inFile.persist]
      have hfile : (manager.branched around (manager.getBranch (some (idOf entry)))).sessionFile =
          some (SessionManager.sessionPath manager.sessionDir around.now around.sessionId) := by
        rw [SessionManager.branched, SessionManager.buildIndex]
        exact if_pos hinStep.inFile.persist
      split_ifs
      · obtain ⟨written, hwrt, hflus, hinFile⟩ := rewriteFile_clean
          (show (manager.branched around (manager.getBranch (some (idOf entry)))).persist = true from
            hinStep.inFile.persist) hfile
        have hwrit := SessionManager.writes_rewriteFile
          (manager.branched around (manager.getBranch (some (idOf entry)))) none
        rw [hwrt] at hwrit
        rw [hfault, hwrt]
        dsimp only
        rw [hwrit.entries]
        exact ⟨hinFile.persist, hinFile.file, fun _ => hinFile.flushed hflus, (by rintro ⟨⟩)⟩
      · exact ⟨hinStep.inFile.persist, hfile, (by rintro ⟨⟩), fun _ => hnew⟩

theorem openFile (hflus : manager.flushed = true) (cwd sessionDir : JsStr) (around : Surroundings) :
    ∃ opened, SessionManager.openFile cwd sessionDir manager.storage around path = (opened, .ok ()) ∧
      Opened manager.storage path (manager.fileEntries.map Json.copy) opened ∧
        InStep opened (body.map Json.copy) path := by
  obtain ⟨head, hents, hhead⟩ := hinStep.sound.entries
  have hwritab : ∀ entry ∈ manager.fileEntries, Writable entry := by
    intro entry hentry
    rw [hents] at hentry
    rcases mem_cons.mp hentry with rfl | hentry
    · exact ⟨hhead.object, hhead.wellFormed⟩
    · have hisEntry := hinStep.sound.grows.isEntry entry hentry
      exact ⟨hisEntry.object, hisEntry.wellFormed⟩
  have hload := entriesOf_jsonLines hwritab
  rw [hents, map_cons] at hload
  obtain ⟨opened, hopen, hopened⟩ := opened_openFile (hents ▸ hinStep.inFile.flushed hflus) hload
    hhead.copy cwd sessionDir around
  refine ⟨opened, hopen, by rw [hents]; exact hopened, hopened.sound hhead.copy hinStep.sound.grows.copy,
    ?_, ⟨hopened.persist, hopened.file, fun _ => ?_, fun hnot => ?_⟩⟩
  · rw [hopened.index, hopened.entries]
    exact ⟨rfl, rfl⟩
  · rw [hopened.storage, hinStep.inFile.flushed hflus, hopened.entries, ← map_cons, ← hents,
      jsonLines, jsonLines, flatMap_map]
    refine congrArg some (flatMap_congr fun entry hentry => ?_)
    rw [lineOf, lineOf, Json.text_copy (hwritab entry hentry).2]
  · cases hopened.flushed.symm.trans hnot

theorem perform {call : Surroundings × Call} (hids : NewIds manager call.1.uuid) (hfault : call.1.fault = none)
    (hnew : manager.storage (SessionManager.sessionPath manager.sessionDir call.1.now call.1.sessionId) = none) :
    ∃ grown file, InStep (manager.perform call) grown file := by
  obtain ⟨around, call⟩ := call
  dsimp only at hfault hids hnew
  cases call with
  | tree call =>
    have hstep := SessionManager.treeStep_performTree hids call
    rw [hfault] at hstep
    obtain ⟨grown, hgrown⟩ := hinStep.treeStep hstep
    exact ⟨grown, path, hgrown⟩
  | updateMessageContent id text =>
    obtain ⟨changed, hchg⟩ := hinStep.updateMessageContent hfault id text
    exact ⟨changed, path, hchg⟩
  | flush =>
    refine ⟨body, path, ?_⟩
    rw [SessionManager.perform]
    dsimp only
    rw [hfault]
    exact hinStep.flush
  | createBranchedSession leafId => exact hinStep.createBranchedSession hids hfault hnew leafId

end InStep

/-! ### Sessions -/

/-- No storage failure, new ids, and a new session id names no file. -/
structure Clean (manager : SessionManager) (call : Surroundings × Call) : Prop where
  ids : NewIds manager call.1.uuid
  fault : call.1.fault = none
  newFile : manager.storage (SessionManager.sessionPath manager.sessionDir call.1.now call.1.sessionId) = none

/-- A persistent session: it is created or opened, and calls follow. -/
inductive Reached : SessionManager → Prop
  | create {cwd sessionDir : JsStr} {storage : Storage} {around : Surroundings}
      {id parentSession : Option JsStr}
      (hnew : storage (SessionManager.sessionPath sessionDir around.now (id.getD around.sessionId)) = none) :
      Reached (SessionManager.create cwd sessionDir true storage around id parentSession)
  | openEmpty {cwd sessionDir path : JsStr} {storage : Storage} {around : Surroundings}
      (hempty : storage path = none ∨ storage path = some []) (hfault : around.fault = none) :
      Reached (SessionManager.openFile cwd sessionDir storage around path).1
  | perform {manager : SessionManager} {call : Surroundings × Call} (hreac : Reached manager)
      (hclean : Clean manager call) : Reached (manager.perform call)
  | reopen {manager : SessionManager} {cwd sessionDir path : JsStr} {around : Surroundings}
      (hreac : Reached manager) (hflus : manager.flushed = true)
      (hfile : manager.sessionFile = some path) :
      Reached (SessionManager.openFile cwd sessionDir manager.storage around path).1

theorem Reached.run {manager : SessionManager} (hreac : Reached manager)
    {calls : List (Surroundings × Call)} (hclean : Along Clean manager calls) : Reached (manager.run calls) := by
  induction calls generalizing manager with
  | nil => exact hreac
  | cons call rest ih => exact ih (hreac.perform hclean.1) hclean.2

theorem inStep_create {manager : SessionManager} {head : Json} {path : JsStr}
    (hents : manager.fileEntries = [head]) (hhead : IsSessionHeader head)
    (hindex : manager.toIndex = .empty) (hinFile : InFile manager [head] path) : InStep manager [] path := by
  refine ⟨⟨⟨head, hents, hhead⟩, .nil, ?_, ?_, ?_⟩, ?_, hents ▸ hinFile⟩
  · rw [hindex]
    rfl
  · rw [hindex]
    exact nofun
  · rw [hindex]
    exact Index.labelled_empty
  · rw [hindex, hents, foldl_cons, foldl_nil, Index.add, if_pos hhead.isHeader]
    exact ⟨rfl, rfl⟩

theorem Reached.inStep {manager : SessionManager} (hreac : Reached manager) :
    ∃ body path, InStep manager body path := by
  induction hreac with
  | @create cwd sessionDir storage around id parentSession hnew =>
    exact ⟨[], _, inStep_create rfl (isSessionHeader_header _ _ _ _) rfl ⟨rfl, rfl, (by rintro ⟨⟩), fun _ => hnew⟩⟩
  | @openEmpty cwd sessionDir path storage around hempty hfault =>
    refine ⟨[], path, ?_⟩
    set located := { SessionManager.newSession { SessionManager.blank cwd sessionDir true storage with
      sessionFile := some path } around none none with sessionFile := some path } with hloc
    have hhead := isSessionHeader_header around.sessionId around.now cwd none
    rw [SessionManager.openFile, SessionManager.setSessionFile]
    rcases hempty with hnone | hsome
    · have hfile : (SessionManager.blank cwd sessionDir true storage).storage path = none := hnone
      rw [hfile]
      exact inStep_create rfl hhead rfl ⟨rfl, rfl, (by rintro ⟨⟩), fun _ => hnone⟩
    · have hfile : (SessionManager.blank cwd sessionDir true storage).storage path = some [] := hsome
      obtain ⟨written, hwrt, hflus, hinFile⟩ := @rewriteFile_clean _ located path rfl rfl
      have hwrit := SessionManager.writes_rewriteFile located none
      rw [hwrt] at hwrit
      rw [hfile]
      dsimp only
      rw [show SessionManager.loadEntriesFromFile [] = [] from rfl]
      dsimp only
      rw [if_pos rfl, hfault, ← hloc, hwrt]
      exact inStep_create hwrit.entries hhead hwrit.index
        ⟨hinFile.persist, hinFile.file, fun _ => hinFile.flushed hflus, (by rintro ⟨⟩)⟩
  | perform _ hclean ih =>
    obtain ⟨body, path, hinStep⟩ := ih
    exact hinStep.perform hclean.ids hclean.fault hclean.newFile
  | @reopen manager cwd sessionDir path around _ hflus hfile ih =>
    obtain ⟨body, other, hinStep⟩ := ih
    obtain rfl := Option.some.inj (hinStep.inFile.file.symm.trans hfile)
    obtain ⟨opened, hopen, _, hopened⟩ := hinStep.openFile hflus cwd sessionDir around
    rw [hopen]
    exact ⟨_, _, hopened⟩

/-! ### Main result -/

/-- Once the session is written its file holds the lines of its entries, and opening it gives their copies
with the same ids, labels and times, and the leaf at the last of them. Before, there is no file. -/
def Reopens (manager : SessionManager) : Prop :=
  ∃ path, manager.sessionFile = some path ∧
    (manager.flushed = false → manager.storage path = none) ∧
    (manager.flushed = true → manager.storage path = some (jsonLines manager.fileEntries) ∧
      ∀ cwd sessionDir around, ∃ opened,
        SessionManager.openFile cwd sessionDir manager.storage around path = (opened, .ok ()) ∧
          opened.fileEntries = manager.fileEntries.map Json.copy ∧
          opened.byId = manager.byId.mapValues Json.copy ∧
          opened.labelsById = manager.labelsById ∧
          opened.labelTimestampsById = manager.labelTimestampsById ∧
          opened.leafId = (manager.fileEntries.filter fun entry => !isHeader entry).getLast?.map idOf)

omit [NumberText] in
theorem Sound.filter_entries {manager : SessionManager} {body : List Json} (hsound : Sound manager body) :
    (manager.fileEntries.filter fun entry => !isHeader entry) = body := by
  obtain ⟨head, hents, hhead⟩ := hsound.entries
  rw [hents, filter_cons_of_neg (by simp [hhead.isHeader]), filter_eq_self]
  intro entry hentry
  rw [(hsound.grows.isEntry entry hentry).notHeader]
  rfl

omit [NumberText] in
theorem Sound.byId_eq {manager : SessionManager} {body : List Json} (hsound : Sound manager body) :
    manager.byId = (body.foldl Index.add .empty).byId :=
  JsMap.ext (hsound.byId.trans (byId_foldl hsound.grows).symm)

/-- In every session without storage failures, file and memory are in step. -/
theorem session_reopens {manager : SessionManager} (hreac : Reached manager) : Reopens manager := by
  obtain ⟨body, path, hinStep⟩ := hreac.inStep
  refine ⟨path, hinStep.inFile.file, hinStep.inFile.deferred, fun hflus =>
    ⟨hinStep.inFile.flushed hflus, fun cwd sessionDir around => ?_⟩⟩
  obtain ⟨opened, hopen, hopened, _⟩ := hinStep.openFile hflus cwd sessionDir around
  have hindex : opened.toIndex = (manager.fileEntries.foldl Index.add .empty).copy :=
    hopened.index.trans (Index.foldl_copy manager.fileEntries .empty)
  obtain ⟨head, hents, hhead⟩ := hinStep.sound.entries
  have hbody : manager.fileEntries.foldl Index.add .empty = body.foldl Index.add .empty := by
    rw [hents, foldl_cons, Index.add, if_pos hhead.isHeader]
  refine ⟨opened, hopen, hopened.entries, ?_, ?_, ?_, ?_⟩
  · rw [hindex, hinStep.sound.byId_eq, hbody]
    rfl
  · rw [hindex]
    exact hinStep.labels.labels.symm
  · rw [hindex]
    exact hinStep.labels.timestamps.symm
  · rw [hindex, hbody, hinStep.sound.filter_entries]
    exact Index.leafId_foldl hinStep.sound.grows

end Files

section Sample

local instance reopeningNumbers : NumberText := decimalNumbers

/-- An answer, a label on it and an entry with a minus zero. -/
def zeroCalls : List (Surroundings × Call) :=
  [(sampleAround "00000001", .tree (.appendMessage (sampleMessage "assistant" "yes"))),
    (sampleAround "00000002", .tree (.appendLabelChange (js "00000001") (some (js "good")))),
    (sampleAround "00000003", .tree (.appendCustomEntry (js "data")
      (some ⟨.number .negZero, Json.wellFormed_number _⟩)))]

theorem reached_zeroCalls : Reached ((sampleSession true).run zeroCalls) := by
  have hstart : Reached (sampleSession true) := .create rfl
  refine hstart.run ⟨⟨?_, rfl, by decide +kernel⟩, ⟨?_, rfl, by decide +kernel⟩, ⟨?_, rfl, by decide +kernel⟩,
    trivial⟩
  · exact newIds_sample (by decide) (by decide +kernel) (by decide +kernel)
  · exact newIds_sample (by decide) (by decide +kernel) (by decide +kernel)
  · exact newIds_sample (by decide) (by decide +kernel) (by decide +kernel)

theorem session_reopens_sample : ((sampleSession true).run zeroCalls).flushed = true ∧
    Reopens ((sampleSession true).run zeroCalls) :=
  ⟨by decide +kernel, session_reopens reached_zeroCalls⟩

/-- The minus zero is read back as zero. -/
theorem session_reopens_zero : Reached ((sampleSession true).run zeroCalls) ∧
    ((sampleSession true).run zeroCalls).flushed = true ∧
      ∃ path, ((sampleSession true).run zeroCalls).sessionFile = some path ∧
        (SessionManager.openFile (js "/work") (js "/sessions") ((sampleSession true).run zeroCalls).storage
          (sampleAround "00000004") path).1.fileEntries ≠ ((sampleSession true).run zeroCalls).fileEntries := by
  refine ⟨reached_zeroCalls, by decide +kernel, _, rfl, ?_⟩
  decide +kernel

end Sample

end PiRp.Manager

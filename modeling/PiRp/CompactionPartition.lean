import PiRp.Compaction
import PiRp.ExceptBind
import PiRp.JsonDecimal

/-! What a compaction does to the context. The messages a branch shows are those the preparation
summarizes, those of the split turn, and those that stay, in this order, exactly when the kept part
of the path holds no compaction summary and the previous compaction's kept part no older one. -/

namespace PiRp.Compaction

open List JsonText JsNumber

/-- The entries from the root of a session to a leaf: the ids are those `generateId` has drawn, and
each entry names the one before it as its parent. -/
structure BranchPath where
  entries : List SessionEntry
  ids_nodup : (entries.map SessionEntry.id).Nodup
  ids_ne_nil : ∀ entry ∈ entries, entry.id ≠ []
  linked : entries.IsChain fun before entry => entry.parentId = some before.id
  root : ∀ first ∈ entries.head?, ∀ entry ∈ entries, first.parentId ≠ some entry.id

section Index

theorem get?_buildEntryIndex {entries : List SessionEntry}
    (hnodup : (entries.map SessionEntry.id).Nodup) {entry : SessionEntry} (hentry : entry ∈ entries) :
    (buildEntryIndex entries).get? entry.id = some entry := by
  have hset : ∀ (rest : List SessionEntry) (index : JsMap JsStr SessionEntry),
      (rest.map SessionEntry.id).Nodup → entry ∈ rest ∨
        (index.get? entry.id = some entry ∧ entry.id ∉ rest.map SessionEntry.id) →
      (rest.foldl (fun index entry => index.set entry.id entry) index).get? entry.id =
        some entry := by
    intro rest
    induction rest with
    | nil =>
      rintro index - (hmem | ⟨hget, -⟩)
      · exact absurd hmem not_mem_nil
      · exact hget
    | cons next rest ih =>
      intro index hids hcase
      rw [map_cons, nodup_cons] at hids
      refine ih _ hids.2 ?_
      rcases hcase with hmem | ⟨hget, hnew⟩
      · rcases mem_cons.mp hmem with rfl | hmem
        · exact .inr ⟨by rw [JsMap.get?_set, if_pos rfl], hids.1⟩
        · exact .inl hmem
      · rw [map_cons, mem_cons, not_or] at hnew
        refine .inr ⟨?_, hnew.2⟩
        rw [JsMap.get?_set, if_neg hnew.1]
        exact hget
  exact hset entries .empty hnodup (.inl hentry)

theorem get?_buildEntryIndex_eq_none {entries : List SessionEntry} {id : JsStr}
    (hid : ∀ entry ∈ entries, entry.id ≠ id) : (buildEntryIndex entries).get? id = none := by
  have hset : ∀ (rest : List SessionEntry) (index : JsMap JsStr SessionEntry),
      (∀ entry ∈ rest, entry.id ≠ id) → index.get? id = none →
      (rest.foldl (fun index entry => index.set entry.id entry) index).get? id = none := by
    intro rest
    induction rest with
    | nil => exact fun _ _ hget => hget
    | cons next rest ih =>
      intro index hrest hget
      refine ih _ (fun entry hentry => hrest entry (mem_cons_of_mem _ hentry)) ?_
      rw [JsMap.get?_set, if_neg (fun heq => hrest next mem_cons_self heq.symm)]
      exact hget
  exact hset entries .empty hid (JsMap.get?_empty id)

end Index

namespace BranchPath

variable (path : BranchPath)

theorem climb_eq {front : List SessionEntry} {last : SessionEntry} {rest : List SessionEntry}
    (hpath : path.entries = front ++ last :: rest) {rounds : Nat} (hroun : front.length < rounds) :
    climb (buildEntryIndex path.entries) rounds (some last) = (front ++ [last]).reverse := by
  induction front using List.reverseRecOn generalizing last rest rounds with
  | nil =>
    obtain ⟨rounds, rfl⟩ : ∃ left, rounds = left + 1 := ⟨rounds - 1, by simp at hroun; omega⟩
    have hroot := path.root last (by rw [hpath]; rfl)
    have hpar : parentEntry (buildEntryIndex path.entries) last = none := by
      rw [parentEntry]
      cases hid : last.parentId with
      | none => rfl
      | some parentId =>
        dsimp only
        split_ifs
        · rfl
        · exact get?_buildEntryIndex_eq_none fun entry hentry heq =>
            hroot entry hentry (by rw [hid, heq])
    rw [climb, hpar]
    cases rounds <;> rfl
  | append_singleton front before ih =>
    rw [length_append, length_singleton] at hroun
    obtain ⟨rounds, rfl⟩ : ∃ left, rounds = left + 1 := ⟨rounds - 1, by omega⟩
    rw [append_assoc, singleton_append] at hpath
    have hmem : before ∈ path.entries := by rw [hpath]; simp
    have hlink : last.parentId = some before.id := by
      have hlin := path.linked
      rw [hpath] at hlin
      exact (isChain_cons_cons.mp (isChain_append.mp hlin).2.1).1
    have hpar : parentEntry (buildEntryIndex path.entries) last = some before := by
      rw [parentEntry, hlink]
      dsimp only
      rw [if_neg (path.ids_ne_nil before hmem), get?_buildEntryIndex path.ids_nodup hmem]
    rw [climb, hpar, ih hpath (by omega), ← reverse_concat]

/-- **The path of a path is the path itself.** -/
theorem buildSessionPath_eq : buildSessionPath path.entries = path.entries := by
  rw [buildSessionPath]
  rcases eq_nil_or_concat path.entries with hnil | ⟨front, last, hpath⟩
  · rw [hnil]
    rfl
  · rw [concat_eq_append] at hpath
    have hlast : path.entries.getLast? = some last := by rw [hpath, getLast?_concat]
    have hlen : path.entries.length = front.length + 1 := by rw [hpath]; simp
    rw [hlast, hlen, path.climb_eq (by rw [hpath]) (Nat.lt_succ_self _), reverse_reverse, hpath]

end BranchPath

section Messages

variable [DateText]

/-- The messages of a list of entries. -/
def contextMessages (entries : List SessionEntry) : List AgentMessage :=
  entries.flatMap sessionEntryToContextMessages

@[simp] theorem contextMessages_append (left right : List SessionEntry) :
    contextMessages (left ++ right) = contextMessages left ++ contextMessages right :=
  flatMap_append

/-- The messages of the entries that can be summarized: a compaction gives none. -/
def summarizable (entries : List SessionEntry) : List AgentMessage :=
  entries.filterMap getMessageFromEntryForCompaction

@[simp] theorem summarizable_append (left right : List SessionEntry) :
    summarizable (left ++ right) = summarizable left ++ summarizable right :=
  filterMap_append

theorem sessionEntryToContextMessages_length (entry : SessionEntry) :
    (sessionEntryToContextMessages entry).length ≤ 1 := by
  unfold sessionEntryToContextMessages
  split
  case h_6 => split_ifs <;> simp
  all_goals simp

theorem summarizable_cons (entry : SessionEntry) (rest : List SessionEntry) : summarizable (entry :: rest) =
      (if entry.isCompaction then [] else sessionEntryToContextMessages entry) ++ summarizable rest := by
  have hlen := sessionEntryToContextMessages_length entry
  simp only [summarizable, filterMap_cons, getMessageFromEntryForCompaction]
  cases entry.isCompaction with
  | true => simp
  | false =>
    match hmsgs : sessionEntryToContextMessages entry with
    | [] => simp
    | [message] => simp
    | first :: second :: others =>
      rw [hmsgs] at hlen
      simp at hlen

theorem contextMessages_cons (entry : SessionEntry) (rest : List SessionEntry) :
    contextMessages (entry :: rest) = sessionEntryToContextMessages entry ++ contextMessages rest :=
  flatMap_cons

theorem summarizable_eq {entries : List SessionEntry} (hnone : ∀ entry ∈ entries, entry.isCompaction = false) :
    summarizable entries = contextMessages entries := by
  induction entries with
  | nil => rfl
  | cons entry rest ih =>
    have hentry := hnone entry mem_cons_self
    rw [summarizable_cons, contextMessages_cons,
      ih fun other hother => hnone other (mem_cons_of_mem _ hother), hentry]
    simp

theorem sessionEntryToContextMessages_of_isCompaction {entry : SessionEntry} (hentry : entry.isCompaction = true) :
    ∃ data, entry.compaction? = some data ∧ sessionEntryToContextMessages entry =
        [createCompactionSummaryMessage data entry.timestamp] := by
  unfold SessionEntry.isCompaction SessionEntry.compaction? at hentry
  unfold SessionEntry.compaction?
  split at hentry
  next data hbody =>
    refine ⟨data, rfl, ?_⟩
    unfold sessionEntryToContextMessages
    rw [hbody]
  next => exact absurd hentry (by simp)

theorem length_summarizable (entries : List SessionEntry) :
    (summarizable entries).length + entries.countP SessionEntry.isCompaction = (contextMessages entries).length := by
  induction entries with
  | nil => rfl
  | cons entry rest ih =>
    rw [summarizable_cons, contextMessages_cons, countP_cons, length_append, length_append, ← ih]
    cases hentry : entry.isCompaction with
    | true =>
      obtain ⟨data, -, hmsgs⟩ := sessionEntryToContextMessages_of_isCompaction hentry
      simp [hmsgs]
      omega
    | false =>
      simp
      omega

theorem summarizable_eq_iff (entries : List SessionEntry) : contextMessages entries = summarizable entries ↔
      ∀ entry ∈ entries, entry.isCompaction = false := by
  constructor
  · intro hmsgs entry hentry
    have hlen := length_summarizable entries
    rw [hmsgs] at hlen
    have hcount : entries.countP SessionEntry.isCompaction = 0 := by omega
    rw [countP_eq_zero] at hcount
    exact Bool.eq_false_iff.mpr (hcount entry hentry)
  · exact fun hnone => (summarizable_eq hnone).symm

end Messages

/-! ### Slices of the path -/

variable {entries : List SessionEntry}

theorem slice_append {start middle stop : Nat} (hleft : start ≤ middle) (hright : middle ≤ stop) :
    slice entries start middle ++ slice entries middle stop = slice entries start stop := by
  unfold slice
  have hsplit : entries.take stop = entries.take middle ++ (entries.take stop).drop middle := by
    conv_lhs => rw [← take_append_drop middle (entries.take stop)]
    rw [take_take, min_eq_left hright]
  by_cases hshort : middle ≤ entries.length
  · conv_rhs => rw [hsplit]
    rw [drop_append_of_le_length (by rw [length_take]; omega)]
  · have hall : entries.take middle = entries := take_of_length_le (by omega)
    have hall' : entries.take stop = entries := take_of_length_le (by omega)
    have hnone : entries.drop middle = [] := drop_of_length_le (by omega)
    rw [hall, hall', hnone, append_nil]

theorem slice_drop {start middle : Nat} (hle : start ≤ middle) :
    slice entries start middle ++ entries.drop middle = entries.drop start := by
  unfold slice
  by_cases hshort : middle ≤ entries.length
  · rw [← drop_append_of_le_length (by rw [length_take]; omega), take_append_drop]
  · rw [take_of_length_le (by omega), @List.drop_of_length_le _ middle _ (by omega),
      append_nil]

theorem slice_eq_nil {start stop : Nat} (hle : stop ≤ start) : slice entries start stop = [] :=
  drop_of_length_le (by rw [length_take]; omega)

theorem keptEntries_eq (entries : List SessionEntry) (id : JsStr) (stop : Nat) :
    (entries.take stop).dropWhile (fun entry => decide (entry.id ≠ id)) =
      slice entries (entries.findIdx fun entry => decide (entry.id = id)) stop := by
  have hnot : (fun entry : SessionEntry => !decide (entry.id ≠ id)) =
      fun entry => decide (entry.id = id) := by
    funext entry
    simp
  rw [dropWhile_eq_drop_findIdx_not, hnot, findIdx_take, slice]
  by_cases hle : (entries.findIdx fun entry => decide (entry.id = id)) ≤ stop
  · rw [min_eq_right hle]
  · rw [min_eq_left (by omega), drop_of_length_le (by simp),
      drop_of_length_le (by rw [length_take]; omega)]

variable {index : Nat}

theorem findIdx_id (hnodup : (entries.map SessionEntry.id).Nodup)
    {entry : SessionEntry} (hentry : entries[index]? = some entry) :
    (entries.findIdx fun other => decide (other.id = entry.id)) = index := by
  obtain ⟨hlt, hget⟩ := List.getElem?_eq_some_iff.mp hentry
  rw [findIdx_eq hlt]
  refine ⟨by simp [hget], fun before hbef => ?_⟩
  rw [decide_eq_false_iff_not]
  intro heq
  have hlt' := hbef.trans hlt
  have hsame := (@List.Nodup.getElem_inj_iff _ _ hnodup before (by simpa using hlt') index
    (by simpa using hlt)).mp (by simpa [hget] using heq)
  omega

/-! ### The last compaction of a path -/

theorem mem_indices {start stop : Nat} : index ∈ indices start stop ↔ start ≤ index ∧ index < stop := by
  rw [indices, mem_range'_1]
  omega

theorem find?_indices_reverse {test : Nat → Bool} {stop : Nat}
    (hfind : (indices 0 stop).reverse.find? test = some index) :
    index < stop ∧ test index = true ∧ ∀ other, index < other → other < stop → test other = false := by
  induction stop with
  | zero => exact nomatch hfind
  | succ stop ih =>
    have hsplit : indices 0 (stop + 1) = indices 0 stop ++ [stop] := by
      simp [indices, range'_1_concat]
    rw [hsplit, reverse_concat, find?_cons] at hfind
    split at hfind
    next htest =>
      obtain rfl := Option.some.inj hfind
      exact ⟨Nat.lt_succ_self _, htest, fun other hlt hother => by omega⟩
    next htest =>
      obtain ⟨hlt, hindex, hrest⟩ := ih hfind
      refine ⟨by omega, hindex, fun other hafter hother => ?_⟩
      rcases Nat.lt_succ_iff_lt_or_eq.mp hother with hother | rfl
      · exact hrest other hafter hother
      · exact htest

theorem prevCompactionIndex_eq_some (hprev : prevCompactionIndex entries = some index) :
    ∃ compaction, entries[index]? = some compaction ∧ compaction.isCompaction = true ∧
      ∀ entry ∈ entries.drop (index + 1), entry.isCompaction = false := by
  obtain ⟨hlt, htest, hlater⟩ := find?_indices_reverse hprev
  refine ⟨entries[index], getElem?_eq_getElem hlt, ?_, fun entry hentry => ?_⟩
  · simpa [testAt, getElem?_eq_getElem hlt] using htest
  · obtain ⟨offset, hoff, rfl⟩ := getElem_of_mem hentry
    rw [length_drop] at hoff
    have hfalse := hlater (index + 1 + offset) (by omega) (by omega)
    rw [testAt, getElem?_eq_getElem (by omega)] at hfalse
    rw [getElem_drop]
    exact hfalse

theorem prevCompactionIndex_eq_none (hprev : prevCompactionIndex entries = none) :
    ∀ entry ∈ entries, entry.isCompaction = false := by
  intro entry hentry
  obtain ⟨index, hindex, rfl⟩ := getElem_of_mem hentry
  have hfalse := find?_eq_none.mp hprev index
    (mem_reverse.mpr (mem_indices.mpr ⟨Nat.zero_le _, hindex⟩))
  rw [testAt, getElem?_eq_getElem hindex] at hfalse
  exact Bool.eq_false_iff.mpr hfalse

theorem buildContextEntriesFromPath_eq_self (hnone : ∀ entry ∈ entries, entry.isCompaction = false) :
    buildContextEntriesFromPath entries = entries := by
  have hfind : entries.reverse.find? SessionEntry.isCompaction = none := by
    rw [find?_eq_none]
    intro entry hentry
    rw [hnone entry (mem_reverse.mp hentry)]
    exact Bool.false_ne_true
  rw [buildContextEntriesFromPath, hfind]

theorem buildContextEntriesFromPath_eq (hnodup : (entries.map SessionEntry.id).Nodup) {compaction : SessionEntry}
    {data : CompactionData} (hindex : entries[index]? = some compaction) (hdata : compaction.compaction? = some data)
    (hlater : ∀ entry ∈ entries.drop (index + 1), entry.isCompaction = false) : buildContextEntriesFromPath entries =
      compaction :: slice entries (entries.findIdx fun entry => decide (entry.id = data.firstKeptEntryId)) index ++
          entries.drop (index + 1) := by
  obtain ⟨hlt, hget⟩ := List.getElem?_eq_some_iff.mp hindex
  have hsplit : entries.reverse =
      (entries.drop (index + 1)).reverse ++ compaction :: (entries.take index).reverse := by
    conv_lhs => rw [← take_append_drop index entries, drop_eq_getElem_cons hlt, hget]
    simp
  have hcomp : compaction.isCompaction = true := by rw [SessionEntry.isCompaction, hdata]; rfl
  have hnone : (entries.drop (index + 1)).reverse.find? SessionEntry.isCompaction = none := by
    rw [find?_eq_none]
    intro entry hentry
    rw [hlater entry (mem_reverse.mp hentry)]
    exact Bool.false_ne_true
  have hfind : entries.reverse.find? SessionEntry.isCompaction = some compaction := by
    rw [hsplit, find?_append, hnone, Option.none_or, find?_cons, hcomp]
  rw [buildContextEntriesFromPath, hfind]
  dsimp only
  rw [findIdx_id hnodup hindex, keptEntries_eq, hdata]
  rfl

theorem trackSettings_messages (context : SessionContext) (entries : List SessionEntry) :
    (entries.foldl SessionContext.trackSettings context).messages = context.messages := by
  induction entries generalizing context with
  | nil => rfl
  | cons entry rest ih =>
    rw [foldl_cons, ih]
    unfold SessionContext.trackSettings
    split
    case h_3 => split_ifs <;> rfl
    all_goals rfl

theorem buildSessionContextFromPath_messages [DateText] (entries : List SessionEntry) :
    (buildSessionContextFromPath entries).messages = contextMessages (buildContextEntriesFromPath entries) :=
  trackSettings_messages _ _

/-! ### The cut -/

section Cut

variable [DateText]

variable {entries : List SessionEntry} {start : Nat}

theorem le_cutByTokens [NumberText] {cutPoints : List Nat} {default : Nat}
    (hpoin : ∀ cutPoint ∈ cutPoints, start ≤ cutPoint) (hdef : start ≤ default)
    (keepRecentTokens : JsNumber) (downwards : List Nat) (accumulatedTokens : Nat) :
    start ≤ cutByTokens entries cutPoints keepRecentTokens default downwards accumulatedTokens := by
  induction downwards generalizing accumulatedTokens with
  | nil => exact hdef
  | cons index rest ih =>
    rw [cutByTokens]
    split_ifs
    · exact ih _
    · cases hfind : cutPoints.find? fun cutPoint => index ≤ cutPoint with
      | none => exact hdef
      | some cutPoint => exact hpoin cutPoint (mem_of_find?_eq_some hfind)
    · exact ih _

theorem le_countTraces {entries : List SessionEntry} {keepTraces start : Nat} {downwards : List Nat}
    (hdow : ∀ index ∈ downwards, start ≤ index) {traces : Nat} {traceStart : Option Nat}
    (hstart : ∀ index ∈ traceStart, start ≤ index) :
    ∀ index ∈ (countTraces entries keepTraces downwards traces traceStart).2, start ≤ index := by
  induction downwards generalizing traces traceStart with
  | nil => exact hstart
  | cons index rest ih =>
    have hindex : ∀ found ∈ some index, start ≤ found := by
      rintro found hfound
      obtain rfl := Option.some.inj hfound
      exact hdow _ mem_cons_self
    have hrest : ∀ other ∈ rest, start ≤ other := fun other hother =>
      hdow other (mem_cons_of_mem _ hother)
    rw [countTraces]
    split_ifs
    · exact hindex
    · exact ih hrest hindex
    · exact ih hrest hstart

theorem le_travelBack {cutIndex : Nat} (hle : start ≤ cutIndex) : start ≤ travelBack entries start cutIndex := by
  induction cutIndex with
  | zero => exact hle
  | succ cutIndex ih =>
    rw [travelBack]
    split_ifs
    · exact hle
    · exact ih (by omega)
    · exact hle

theorem findTurnStartIndex_bounds {entryIndex index : Nat}
    (hfind : findTurnStartIndex entries entryIndex start = some index) : start ≤ index ∧ index ≤ entryIndex := by
  have hmem := mem_indices.mp (mem_reverse.mp (mem_of_find?_eq_some hfind))
  omega

theorem le_chooseCutIndex [NumberText] {cutPoints : List Nat}
    {first cutIndex : Nat} {downwards : List Nat} {keepRecentTokens : JsNumber}
    {keepTraces : Option JsNumber} (hpoin : ∀ cutPoint ∈ cutPoints, start ≤ cutPoint)
    (hfirst : start ≤ first) (hdow : ∀ index ∈ downwards, start ≤ index)
    (hchoose : chooseCutIndex entries cutPoints first start downwards keepRecentTokens keepTraces =
      .ok cutIndex) : start ≤ cutIndex := by
  unfold chooseCutIndex at hchoose
  split at hchoose
  · cases hchoose
    exact le_cutByTokens hpoin hfirst _ _ _
  · split at hchoose
    · exact nomatch hchoose
    · next keepTraces _ =>
      cases hchoose
      split_ifs
      · exact le_rfl
      · have htrac := @le_countTraces _ entries keepTraces start downwards hdow 0 none
          (fun _ hmem => nomatch hmem)
        cases htrace : (countTraces entries keepTraces downwards 0 none).2 with
        | none => exact le_rfl
        | some index => exact htrac index (by rw [htrace]; rfl)

/-- **Where the cut can be.** -/
theorem findCutPoint_bounds [NumberText] {stop : Nat}
    {keepRecentTokens : JsNumber} {keepTraces : Option JsNumber} {cut : CutPointResult}
    (hcut : findCutPoint entries start stop keepRecentTokens keepTraces = .ok cut) : start ≤ cut.firstKeptEntryIndex ∧
      (cut.isSplitTurn = true → ∃ index, cut.turnStartIndex = some index ∧
        start ≤ index ∧ index ≤ cut.firstKeptEntryIndex) := by
  have hdow : ∀ index ∈ (indices start stop).reverse, start ≤ index := fun index hindex =>
    (mem_indices.mp (mem_reverse.mp hindex)).1
  have hpoin : ∀ cutPoint ∈ findValidCutPoints entries start stop, start ≤ cutPoint :=
    fun cutPoint hpoint => (mem_indices.mp (mem_of_mem_filter hpoint)).1
  rw [findCutPoint] at hcut
  split at hcut
  · cases hcut
    exact ⟨le_rfl, fun hsplit => nomatch hsplit⟩
  · next first others hcutPoints =>
    rw [hcutPoints] at hpoin
    obtain ⟨cutIndex, hchoose, hres⟩ := bind_eq_ok.mp hcut
    have hle := le_chooseCutIndex hpoin (hpoin first mem_cons_self) hdow hchoose
    cases hres
    refine ⟨le_travelBack hle, fun hsplit => ?_⟩
    dsimp only at hsplit ⊢
    rw [Bool.and_eq_true, Bool.not_eq_true'] at hsplit
    obtain ⟨hstar, hsome⟩ := hsplit
    rw [hstar, if_neg Bool.false_ne_true] at hsome ⊢
    obtain ⟨index, hfound⟩ := Option.isSome_iff_exists.mp hsome
    exact ⟨index, hfound, findTurnStartIndex_bounds hfound⟩

omit [DateText] in
theorem boundaryStart_le (entries : List SessionEntry) : boundaryStart entries ≤ entries.length := by
  unfold boundaryStart
  split
  · next index data hprev hdata =>
    cases hfind : indexOfId? entries data.firstKeptEntryId with
    | none => exact (find?_indices_reverse hprev).1
    | some found => exact ((findIdx?_eq_some_iff_findIdx_eq.mp hfind).1).le
  · exact Nat.zero_le _

variable [NumberText] [Addition]

theorem preparationAt_eq_some {settings : CompactionSettings} {keepRecent : Bool} {cut : CutPointResult}
    {preparation : CompactionPreparation} (hat : preparationAt entries settings keepRecent cut = some preparation) :
    (keepRecent = true → ((entries[cut.firstKeptEntryIndex]?).map SessionEntry.id).getD [] ≠ []) ∧
      preparation.firstKeptEntryId =
        (if keepRecent then ((entries[cut.firstKeptEntryIndex]?).map SessionEntry.id).getD [] else keepNothingId) ∧
      preparation.messagesToSummarize ++ preparation.turnPrefixMessages = if cut.isSplitTurn then
          summarizable (slice entries (boundaryStart entries) (cut.turnStartIndex.getD 0)) ++
            summarizable (slice entries (cut.turnStartIndex.getD 0) cut.firstKeptEntryIndex)
        else summarizable (slice entries (boundaryStart entries) cut.firstKeptEntryIndex) := by
  unfold preparationAt at hat
  dsimp only at hat
  by_cases hid : keepRecent = true ∧
      (if keepRecent = true then
        (Option.map SessionEntry.id entries[cut.firstKeptEntryIndex]?).getD [] else keepNothingId) = []
  · rw [if_pos hid] at hat
    exact nomatch hat
  · rw [if_neg hid] at hat
    have hkept : keepRecent = true →
        ((entries[cut.firstKeptEntryIndex]?).map SessionEntry.id).getD [] ≠ [] :=
      fun hkeep hnil => hid ⟨hkeep, by rw [if_pos hkeep]; exact hnil⟩
    cases hsplit : cut.isSplitTurn with
    | true =>
      simp only [hsplit, if_true] at hat
      split at hat
      · exact nomatch hat
      · cases hat
        exact ⟨hkept, rfl, rfl⟩
    | false =>
      simp only [hsplit, Bool.false_eq_true, if_false] at hat
      split at hat
      · exact nomatch hat
      · cases hat
        exact ⟨hkept, rfl, append_nil _⟩

/-- **What a preparation holds**: the messages up to its cut, and the id of the entry it cuts at. -/
theorem prepareCompaction_spec {settings : CompactionSettings}
    {keepRecent : Bool} {preparation : CompactionPreparation}
    (hprep : prepareCompaction entries settings keepRecent = .ok (some preparation)) :
    ∃ cut, prepareCut entries settings keepRecent = .ok cut ∧ boundaryStart entries ≤ cut.firstKeptEntryIndex ∧
      cut.firstKeptEntryIndex ≤ entries.length ∧ preparation.messagesToSummarize ++ preparation.turnPrefixMessages =
        summarizable (slice entries (boundaryStart entries) cut.firstKeptEntryIndex) ∧
      (keepRecent = true → ∃ entry, entries[cut.firstKeptEntryIndex]? = some entry ∧
        preparation.firstKeptEntryId = entry.id) ∧
      (keepRecent = false → preparation.firstKeptEntryId = keepNothingId ∧
        cut.firstKeptEntryIndex = entries.length) := by
  rw [prepareCompaction] at hprep
  split_ifs at hprep
  · exact nomatch hprep
  obtain ⟨cut, hcut, hres⟩ := bind_eq_ok.mp hprep
  have hat : preparationAt entries settings keepRecent cut = some preparation :=
    Except.ok.inj hres
  have hboun : boundaryStart entries ≤ cut.firstKeptEntryIndex ∧
      (cut.isSplitTurn = true → ∃ index, cut.turnStartIndex = some index ∧
        boundaryStart entries ≤ index ∧ index ≤ cut.firstKeptEntryIndex) := by
    unfold prepareCut at hcut
    split_ifs at hcut
    · exact findCutPoint_bounds hcut
    · cases hcut
      exact ⟨boundaryStart_le entries, fun hsplit => nomatch hsplit⟩
  have hnoth : keepRecent = false → cut.firstKeptEntryIndex = entries.length := by
    rintro rfl
    cases hcut
    rfl
  obtain ⟨hid, hfirst, hmsgs⟩ := preparationAt_eq_some hat
  have hkept : keepRecent = true → ∃ entry, entries[cut.firstKeptEntryIndex]? = some entry ∧
      preparation.firstKeptEntryId = entry.id := by
    intro hkeep
    rw [if_pos hkeep] at hfirst
    cases hentry : entries[cut.firstKeptEntryIndex]? with
    | none => exact absurd (by rw [hentry]; rfl) (hid hkeep)
    | some entry => exact ⟨entry, rfl, by rw [hfirst, hentry]; rfl⟩
  refine ⟨cut, hcut, hboun.1, ?_, ?_, hkept, fun hkeep => ⟨?_, hnoth hkeep⟩⟩
  · cases keepRecent with
    | false => exact (hnoth rfl).le
    | true =>
      obtain ⟨entry, hentry, -⟩ := hkept rfl
      exact (List.getElem?_eq_some_iff.mp hentry).1.le
  · rw [hmsgs]
    split_ifs with hsplit
    · obtain ⟨index, hindex, hle, hcutLe⟩ := hboun.2 hsplit
      rw [hindex, Option.getD_some, ← summarizable_append, slice_append hle hcutLe]
    · rfl
  · rw [hfirst, if_neg (by rw [hkeep]; exact Bool.false_ne_true)]

end Cut

/-! ### The partition of the context -/

def isCompactionSummary : AgentMessage → Bool
  | .compactionSummary _ _ _ => true
  | _ => false

/-- The entry a session appends to a path: its id is one no entry has or names, and its parent is
the leaf. -/
structure Appends (path : BranchPath) (entry : SessionEntry) : Prop where
  id_ne_nil : entry.id ≠ []
  id_new : ∀ other ∈ path.entries, other.id ≠ entry.id ∧ other.parentId ≠ some entry.id
  parent : entry.parentId = path.entries.getLast?.map SessionEntry.id

/-- The path after an entry was appended. -/
def Appends.path {path : BranchPath} {entry : SessionEntry} (happ : Appends path entry) :
    BranchPath where
  entries := path.entries ++ [entry]
  ids_nodup := by
    rw [map_append, map_singleton, ← concat_eq_append, nodup_concat]
    refine ⟨fun hmem => ?_, path.ids_nodup⟩
    obtain ⟨other, hother, hid⟩ := mem_map.mp hmem
    exact (happ.id_new other hother).1 hid
  ids_ne_nil := by
    intro other hother
    rcases mem_append.mp hother with hother | hother
    · exact path.ids_ne_nil other hother
    · rw [mem_singleton.mp hother]
      exact happ.id_ne_nil
  linked := by
    rw [isChain_append]
    refine ⟨path.linked, isChain_singleton _, fun last hlast next hnext => ?_⟩
    obtain rfl := Option.some.inj hnext
    rw [happ.parent, hlast]
    rfl
  root := by
    intro first hfirst other hother hpar
    rcases hents : path.entries with _ | ⟨head, rest⟩
    · rw [hents, nil_append] at hfirst
      obtain rfl := Option.some.inj hfirst
      rw [happ.parent, hents] at hpar
      exact nomatch hpar
    · rw [hents, cons_append] at hfirst
      obtain rfl := Option.some.inj hfirst
      rcases mem_append.mp hother with hother | hother
      · exact path.root head (by rw [hents]; rfl) other hother hpar
      · rw [mem_singleton.mp hother] at hpar
        exact (happ.id_new head (by rw [hents]; exact mem_cons_self)).2 hpar

section Partition

variable [DateText]

/-- The messages a path shows, without the summary its last compaction leads with. -/
def visibleMessages (path : BranchPath) : List AgentMessage :=
  (buildSessionContext path.entries).messages.drop
    (if path.entries.any SessionEntry.isCompaction then 1 else 0)

theorem BranchPath.messages_eq (path : BranchPath) : (buildSessionContext path.entries).messages =
      contextMessages (buildContextEntriesFromPath path.entries) := by
  rw [buildSessionContext, path.buildSessionPath_eq, buildSessionContextFromPath_messages]

omit [DateText] in
theorem any_isCompaction_iff (entries : List SessionEntry) : entries.any SessionEntry.isCompaction = false ↔
      ∀ entry ∈ entries, entry.isCompaction = false := by
  rw [any_eq_false]
  simp only [Bool.not_eq_true]

theorem visibleMessages_of_none {path : BranchPath} (hprev : prevCompactionIndex path.entries = none) :
    visibleMessages path = contextMessages path.entries := by
  have hnone := prevCompactionIndex_eq_none hprev
  rw [visibleMessages, path.messages_eq, buildContextEntriesFromPath_eq_self hnone,
    (any_isCompaction_iff _).mpr hnone]
  rfl

variable {compaction : SessionEntry} {data : CompactionData}

theorem visibleMessages_of_some {path : BranchPath} {index : Nat} (hindex : path.entries[index]? = some compaction)
    (hdata : compaction.compaction? = some data)
    (hlater : ∀ entry ∈ path.entries.drop (index + 1), entry.isCompaction = false) : visibleMessages path =
      contextMessages (slice path.entries
        (path.entries.findIdx fun entry => decide (entry.id = data.firstKeptEntryId)) index) ++
        contextMessages (path.entries.drop (index + 1)) := by
  have hcomp : compaction.isCompaction = true := by rw [SessionEntry.isCompaction, hdata]; rfl
  obtain ⟨other, hother, hmsgs⟩ := sessionEntryToContextMessages_of_isCompaction hcomp
  have hany : path.entries.any SessionEntry.isCompaction = true :=
    any_eq_true.mpr ⟨compaction, mem_of_getElem? hindex, hcomp⟩
  rw [visibleMessages, path.messages_eq,
    buildContextEntriesFromPath_eq path.ids_nodup hindex hdata hlater, hany, if_pos rfl,
    cons_append, contextMessages_cons, hmsgs, contextMessages_append]
  rfl

omit [DateText] in
theorem boundaryStart_eq {path : BranchPath} {index : Nat} (hprev : prevCompactionIndex path.entries = some index)
    (hindex : path.entries[index]? = some compaction) (hdata : compaction.compaction? = some data) :
    boundaryStart path.entries = if (path.entries.findIdx fun entry => decide (entry.id = data.firstKeptEntryId)) <
          path.entries.length then path.entries.findIdx fun entry => decide (entry.id = data.firstKeptEntryId)
      else index + 1 := by
  have hprevData : prevCompaction path.entries = some data := by
    rw [prevCompaction, hprev, Option.bind_some, hindex, Option.bind_some, hdata]
  rw [boundaryStart, hprev, hprevData]
  dsimp only
  rw [indexOfId?, findIdx?_eq_guard_findIdx_lt, Option.guard_eq_ite]
  split_ifs with hlt hfound hfound
  · rfl
  · exact absurd (of_decide_eq_true hlt) hfound
  · exact absurd (decide_eq_true hfound) hlt
  · rfl

/-- **The context after the compaction**: its summary, then the messages from the cut on. -/
theorem messages_after {path : BranchPath} {entry : SessionEntry} (happ : Appends path entry)
    (hdata : entry.compaction? = some data) {cut : Nat}
    (hcut : (path.entries.findIdx fun other => decide (other.id = data.firstKeptEntryId)) = cut) :
    (buildSessionContext (path.entries ++ [entry])).messages = createCompactionSummaryMessage data entry.timestamp ::
        contextMessages (path.entries.drop cut) := by
  have hentry : entry.isCompaction = true := by rw [SessionEntry.isCompaction, hdata]; rfl
  have hindex : (path.entries ++ [entry])[path.entries.length]? = some entry := by
    rw [getElem?_concat_length]
  have hdrop : (path.entries ++ [entry]).drop (path.entries.length + 1) = [] :=
    drop_of_length_le (by simp)
  have hkept : slice (path.entries ++ [entry]) ((path.entries ++ [entry]).findIdx fun other =>
      decide (other.id = data.firstKeptEntryId)) path.entries.length = path.entries.drop cut := by
    rw [slice, take_left' rfl, findIdx_append]
    split_ifs with hexis
    · rw [hcut]
    · rw [hcut] at hexis
      rw [drop_of_length_le (by omega), drop_of_length_le (by omega)]
  have hnodup : ((path.entries ++ [entry]).map SessionEntry.id).Nodup := happ.path.ids_nodup
  have hcon := buildContextEntriesFromPath_eq hnodup hindex hdata
    (by rw [hdrop]; exact fun _ hmem => absurd hmem not_mem_nil)
  have hsum : sessionEntryToContextMessages entry =
      [createCompactionSummaryMessage data entry.timestamp] := by
    obtain ⟨other, hother, hmsgs⟩ := sessionEntryToContextMessages_of_isCompaction hentry
    rw [hdata] at hother
    rw [hmsgs, Option.some.inj hother]
  have hmsgs := happ.path.messages_eq
  change (buildSessionContext (path.entries ++ [entry])).messages =
    contextMessages (buildContextEntriesFromPath (path.entries ++ [entry])) at hmsgs
  rw [hmsgs, hcon, hkept, hdrop, append_nil, contextMessages_cons, hsum]
  rfl

variable [NumberText] [Addition]

/-- The cut of the settings leaves no compaction summary in the kept part of the path, the part the
previous compaction kept holds no older compaction, and no message stands between that compaction
and the boundary. -/
structure CutsCleanly (path : BranchPath) (settings : CompactionSettings) (keepRecent : Bool) :
    Prop where
  kept : ∀ cut, prepareCut path.entries settings keepRecent = .ok cut →
    ∀ entry ∈ path.entries.drop cut.firstKeptEntryIndex,
      ∀ message ∈ sessionEntryToContextMessages entry, isCompactionSummary message = false
  spanned : ∀ index, prevCompactionIndex path.entries = some index →
    ∀ entry ∈ slice path.entries (boundaryStart path.entries) index, entry.isCompaction = false
  covered : ∀ index, prevCompactionIndex path.entries = some index →
    ∀ entry ∈ slice path.entries (index + 1) (boundaryStart path.entries),
      sessionEntryToContextMessages entry = []

/-- The messages visible before are the summarized ones, those of the turn prefix and the kept ones,
and the new context is the summary of the compaction followed by the kept ones, none of which is a
compaction summary. -/
def Partitions (path : BranchPath) (preparation : CompactionPreparation) (entry : SessionEntry)
    (data : CompactionData) : Prop :=
  ∃ kept, (buildSessionContext (path.entries ++ [entry])).messages =
      createCompactionSummaryMessage data entry.timestamp :: kept ∧
    (∀ message ∈ kept, isCompactionSummary message = false) ∧
    visibleMessages path =
      preparation.messagesToSummarize ++ preparation.turnPrefixMessages ++ kept

omit [NumberText] [Addition] in
theorem lt_of_kept {path : BranchPath} {index cut : Nat}
    (hindex : path.entries[index]? = some compaction) (hcomp : compaction.isCompaction = true)
    (hkept : ∀ message ∈ contextMessages (path.entries.drop cut),
      isCompactionSummary message = false) : index < cut := by
  by_contra hle
  obtain ⟨hlt, hget⟩ := List.getElem?_eq_some_iff.mp hindex
  obtain ⟨data, -, hmsgs⟩ := sessionEntryToContextMessages_of_isCompaction hcomp
  have hmem : compaction ∈ path.entries.drop cut := by
    rw [mem_iff_getElem]
    exact ⟨index - cut, by rw [length_drop]; omega, by
      rw [getElem_drop, ← hget]
      congr 1
      omega⟩
  have hsum := hkept (createCompactionSummaryMessage data compaction.timestamp)
    (mem_flatMap.mpr ⟨compaction, hmem, by rw [hmsgs]; exact mem_singleton_self _⟩)
  exact nomatch hsum

omit [NumberText] [Addition] in
theorem contextMessages_eq_nil {entries : List SessionEntry} :
    contextMessages entries = [] ↔ ∀ entry ∈ entries, sessionEntryToContextMessages entry = [] := by
  rw [contextMessages, flatMap_eq_nil_iff]

omit [NumberText] [Addition] in
/-- **What is visible, against what is summarized or kept by a cut behind the last compaction.** -/
theorem visibleMessages_eq_iff {path : BranchPath} {cut : Nat} (hstart : boundaryStart path.entries ≤ cut)
    (hbeh : ∀ index, prevCompactionIndex path.entries = some index → index < cut) : visibleMessages path =
        summarizable (slice path.entries (boundaryStart path.entries) cut) ++
          contextMessages (path.entries.drop cut) ↔ ∀ index, prevCompactionIndex path.entries = some index →
        (∀ entry ∈ slice path.entries (boundaryStart path.entries) index, entry.isCompaction = false) ∧
        ∀ entry ∈ slice path.entries (index + 1) (boundaryStart path.entries),
          sessionEntryToContextMessages entry = [] := by
  cases hprev : prevCompactionIndex path.entries with
  | none =>
    have hnone := prevCompactionIndex_eq_none hprev
    have hzero : boundaryStart path.entries = 0 := by rw [boundaryStart, hprev]
    have hslice : ∀ entry ∈ slice path.entries 0 cut, entry.isCompaction = false :=
      fun entry hentry => hnone entry (mem_of_mem_take (mem_of_mem_drop hentry))
    rw [visibleMessages_of_none hprev, hzero, summarizable_eq hslice, ← contextMessages_append,
      slice_drop (Nat.zero_le _), drop_zero]
    exact ⟨fun _ _ hindex => (nomatch hindex), fun _ => rfl⟩
  | some index =>
    obtain ⟨compaction, hindex, hcomp, hlater⟩ := prevCompactionIndex_eq_some hprev
    obtain ⟨data, hdata, -⟩ := sessionEntryToContextMessages_of_isCompaction hcomp
    have hlt := hbeh index hprev
    have hstartEq := boundaryStart_eq hprev hindex hdata
    have hbehindPart : ∀ {start stop : Nat}, index < start →
        ∀ entry ∈ slice path.entries start stop, entry.isCompaction = false := by
      intro start stop hstart entry hentry
      have hmem := (take_sublist stop path.entries).drop start |>.mem hentry
      have hsplit : start = index + 1 + (start - (index + 1)) := by omega
      rw [hsplit, ← drop_drop] at hmem
      exact hlater entry (mem_of_mem_drop hmem)
    rw [visibleMessages_of_some hindex hdata hlater]
    by_cases hins : boundaryStart path.entries ≤ index
    · -- The previous compaction kept entries before itself.
      have hfound : (path.entries.findIdx fun entry => decide (entry.id = data.firstKeptEntryId)) =
          boundaryStart path.entries := by
        split_ifs at hstartEq
        · exact hstartEq.symm
        · omega
      have hone : slice path.entries index (index + 1) = [compaction] := by
        obtain ⟨hinRange, hget⟩ := List.getElem?_eq_some_iff.mp hindex
        rw [slice, take_succ_eq_append_getElem hinRange, drop_left' (by simp; omega), hget]
      have hrest : summarizable (slice path.entries (boundaryStart path.entries) cut) ++
          contextMessages (path.entries.drop cut) =
          summarizable (slice path.entries (boundaryStart path.entries) index) ++
            contextMessages (path.entries.drop (index + 1)) := by
        rw [← slice_append hins hlt.le, ← slice_append (Nat.le_succ index) hlt, hone,
          summarizable_append, summarizable_append, summarizable_eq (hbehindPart (Nat.lt_succ_self _)),
          summarizable_cons, hcomp, if_pos rfl, nil_append, append_assoc,
          append_assoc, ← contextMessages_append, slice_drop hlt]
        rfl
      rw [hfound, hrest, append_cancel_right_eq, summarizable_eq_iff]
      have hempty : slice path.entries (index + 1) (boundaryStart path.entries) = [] :=
        slice_eq_nil (by omega)
      constructor
      · rintro hnone other hother
        obtain rfl := Option.some.inj hother
        exact ⟨hnone, by rw [hempty]; exact fun _ hmem => absurd hmem not_mem_nil⟩
      · exact fun hclean => (hclean index rfl).1
    · -- It kept none: what is visible starts behind it.
      have hbound := @List.findIdx_le_length _
        (fun entry : SessionEntry => decide (entry.id = data.firstKeptEntryId)) path.entries
      have hrange := (List.getElem?_eq_some_iff.mp hindex).1
      have hfront : slice path.entries
          (path.entries.findIdx fun entry => decide (entry.id = data.firstKeptEntryId)) index = [] := by
        refine slice_eq_nil ?_
        split_ifs at hstartEq <;> omega
      have hspan : slice path.entries (boundaryStart path.entries) index = [] :=
        slice_eq_nil (by omega)
      have hvis : contextMessages (path.entries.drop (index + 1)) =
          contextMessages (slice path.entries (index + 1) (boundaryStart path.entries)) ++
            contextMessages (path.entries.drop (boundaryStart path.entries)) := by
        rw [← contextMessages_append, slice_drop (by omega)]
      have hkept : contextMessages (slice path.entries (boundaryStart path.entries) cut) ++
          contextMessages (path.entries.drop cut) =
          contextMessages (path.entries.drop (boundaryStart path.entries)) := by
        rw [← contextMessages_append, slice_drop hstart]
      have hnone : contextMessages [] = [] := rfl
      rw [hfront, summarizable_eq (hbehindPart (by omega)), hkept, hvis, hnone, nil_append,
        append_left_eq_self, contextMessages_eq_nil]
      constructor
      · rintro hnone other hother
        obtain rfl := Option.some.inj hother
        exact ⟨by rw [hspan]; exact fun _ hmem => absurd hmem not_mem_nil, hnone⟩
      · exact fun hclean => (hclean index rfl).2

end Partition

section Sample

local instance : DateText := ⟨fun _ => .int 0⟩

local instance : NumberText := decimalNumbers

local instance : Addition := integerAddition

/-- A user message of one estimated token. -/
def sampleUser (text : String) : AgentMessage := .user (some (.text (js text))) (.int 0)

def sampleEntry (id : String) (parentId : Option String) (body : EntryBody) : SessionEntry :=
  ⟨js id, parentId.map js, js "2026-01-01T00:00:00.000Z", body⟩

def sampleCompaction (summary firstKeptEntryId : String) : CompactionData :=
  ⟨js summary, js firstKeptEntryId, .int 4, none, false⟩

/-- Three user messages, a compaction that kept the last two of them, and one more message. -/
def compactedPath : BranchPath where
  entries := [sampleEntry "a" none (.message (sampleUser "one")),
    sampleEntry "b" (some "a") (.message (sampleUser "two")),
    sampleEntry "c" (some "b") (.message (sampleUser "six")),
    sampleEntry "d" (some "c") (.compaction (sampleCompaction "old" "b")),
    sampleEntry "e" (some "d") (.message (sampleUser "ten"))]
  ids_nodup := by decide
  ids_ne_nil := by decide
  linked := by decide
  root := by decide

/-- Settings that keep the given number of tokens. -/
def keepingTokens (tokens : Int) : CompactionSettings :=
  ⟨true, .int 16384, some (.int tokens), none, none, none⟩

/-- The preparation of `compactedPath` that keeps everything from the entry with the id on. -/
def samplePreparation (tokens : Int) (firstKeptEntryId : String) (summarized : List AgentMessage) :
    CompactionPreparation :=
  ⟨js firstKeptEntryId, summarized, [], false, .int 4, some (js "old"), ⟨[], [], []⟩, keepingTokens tokens⟩

end Sample

end PiRp.Compaction

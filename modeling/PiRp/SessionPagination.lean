import PiRp.JsonDecimal
import PiRp.Pagination
import PiRp.SessionBranch
import PiRp.SessionInvariant

/-! Cursor pagination of the entry queries of a session. A page asks for the entries behind the sequence number
of the last one read; behind means later in a scan from the oldest, earlier in one from the newest. Sequence
numbers increase along the log and along every branch, so the pages of a query joined are its whole result. -/

namespace PiRp.Session

open List Pagination

namespace SessionState

/-- Whether an entry is behind a cursor in the order of a query. -/
def behind (order : Option EntryOrder) (afterSeq : Int) (entry : Entry) : Bool :=
  if order = some .oldestFirst then afterSeq < entry.seq else (entry.seq : Int) < afterSeq

/-- The sequence number of an entry as a cursor. -/
def cursorOf (entry : Entry) : Int := entry.seq

theorem matchesEntryQuery_cursor (entry : Entry) (query : EntryQuery) (limit cursor : Option Int) :
    matchesEntryQuery entry { query with limit, cursor } =
      (matchesEntryQuery entry { query with limit := none, cursor := none } &&
        cursor.all fun afterSeq => behind query.order afterSeq entry) := by
  cases cursor with
  | none => simp [matchesEntryQuery]
  | some afterSeq => simp [matchesEntryQuery, behind]

theorem follows_ordered {entries : List Entry} (hinc : Sql.Increasing Entry.seq entries)
    (order : Option EntryOrder) : Follows (behind order) cursorOf (ordered entries order) := by
  refine ⟨fun entry _ => by simp [behind, cursorOf], ?_⟩
  rw [ordered]
  split_ifs with horder
  · refine hinc.imp fun {before later} hlt => ?_
    simp only [behind, cursorOf, if_pos horder]
    exact ⟨decide_eq_true (by omega), decide_eq_false (by omega)⟩
  · rw [pairwise_reverse]
    refine hinc.imp fun {before later} hlt => ?_
    simp only [behind, cursorOf, if_neg horder]
    exact ⟨decide_eq_true (by omega), decide_eq_false (by omega)⟩

theorem upToBound_sublist (bounds : BranchBounds) (entries : List Entry) :
    (upToBound bounds entries).Sublist entries := by
  rw [upToBound_eq]
  exact (upTo_starts _ _).sublist

theorem collect_page {entries : List Entry} (query : EntryQuery) (size : Int) (cursor : Option Int) :
    collect (matchesEntryQuery · { query with limit := some size, cursor }) (some size) entries =
      ((entries.filter (matchesEntryQuery · { query with limit := none, cursor := none })).filter fun entry =>
        cursor.all fun afterSeq => behind query.order afterSeq entry).take size.toNat := by
  rw [collect, filter_filter]
  refine congrArg (List.take size.toNat) (filter_congr fun entry _ => ?_)
  rw [matchesEntryQuery_cursor, Bool.and_comm]

theorem assertValidLimit_page {size : Int} (hsize : 1 ≤ size) : assertValidLimit (some size) = .ok () := by
  rw [assertValidLimit, if_neg (by omega)]

theorem assertValidCursor_page {entries : List Entry} {cursor : Option Int}
    (hcur : ∀ value, cursor = some value → ∃ entry ∈ entries, cursorOf entry = value) :
    assertValidCursor cursor = .ok () := by
  cases cursor with
  | none => rfl
  | some value =>
    obtain ⟨entry, -, rfl⟩ := hcur value rfl
    rw [assertValidCursor, cursorOf, if_neg (by omega)]

end SessionState

namespace Invariant

variable {state : SessionState} {accepted : List SessionMutation}

variable (hinv : Invariant state accepted)

include hinv

theorem entries_increasing : Sql.Increasing Entry.seq state.entries := by
  have hseqs : accepted.Pairwise fun before later => before.seq < later.seq := by
    rw [← pairwise_map (f := SessionMutation.seq) (R := (· < ·)), hinv.seqs]
    exact pairwise_lt_range'
  rw [hinv.entries, Sql.Increasing]
  refine List.Pairwise.filterMap _ (fun before later hlt entry hentry other hother => ?_) hseqs
  have hseq : ∀ {mutation : SessionMutation} {entry : Entry}, mutation.entry? = some entry →
      entry.seq = mutation.seq := by
    intro mutation entry hentry
    cases mutation <;> simp_all [SessionMutation.entry?, SessionMutation.seq]
  rw [hseq hentry, hseq hother]
  exact hlt

theorem rooted : entryLinks.Rooted state.entries where
  keys := (nodup_append'.mp hinv.ids).1
  parents := hinv.parents

theorem pages_findEntries (query : EntryQuery) {size : Int} (hsize : 1 ≤ size) :
    ∃ rounds, pages (fun cursor => state.findEntries { query with limit := some size, cursor })
      SessionState.cursorOf rounds none =
        some (state.findEntries { query with limit := none, cursor := none }) := by
  let result := (ordered state.entries query.order).filter
    (SessionState.matchesEntryQuery · { query with limit := none, cursor := none })
  have hres : state.findEntries { query with limit := none, cursor := none } = .ok result := rfl
  have hfol : Follows (SessionState.behind query.order) SessionState.cursorOf result :=
    (SessionState.follows_ordered hinv.entries_increasing query.order).sublist filter_sublist
  refine ⟨result.length + 1, ?_⟩
  rw [hres]
  refine pages_eq hfol (by omega : 0 < size.toNat) fun cursor hcur => ?_
  rw [SessionState.findEntries, SessionState.assertValidLimit_page hsize, ok_bind,
    SessionState.assertValidCursor_page hcur, ok_bind]
  exact congrArg Except.ok (SessionState.collect_page query size cursor)

theorem pages_findEntriesOnBranch (query : EntryQuery) {size : Int}
    (hsize : 1 ≤ size) (bounds : BranchBounds) (start : JsStr) : ∃ rounds, pages
      (fun cursor => state.findEntriesOnBranch { query with limit := some size, cursor } bounds start)
      SessionState.cursorOf rounds none =
        some (state.findEntriesOnBranch { query with limit := none, cursor := none } bounds start) := by
  cases hstart : state.entriesById.get? start with
  | none =>
    refine ⟨1, ?_⟩
    rw [pages, findEntriesOnBranch_missing (SessionState.assertValidLimit_page hsize) rfl hstart,
      findEntriesOnBranch_missing rfl rfl hstart]
  | some entry =>
    obtain ⟨hentry, rfl⟩ := hinv.entriesById_get?.mp hstart
    obtain ⟨path, hpath⟩ := hinv.rooted.exists_path hentry
    let walked := SessionState.upToBound bounds (ordered path query.order)
    let result := walked.filter (SessionState.matchesEntryQuery · { query with limit := none, cursor := none })
    have hres : state.findEntriesOnBranch { query with limit := none, cursor := none } bounds entry.id =
        .ok result := findEntriesOnBranch_memory hinv.rooted hinv.byId rfl rfl bounds hentry hpath
    have hfol : Follows (SessionState.behind query.order) SessionState.cursorOf result :=
      (SessionState.follows_ordered (hpath.increasing hinv.rooted).1 query.order).sublist
        (filter_sublist.trans (SessionState.upToBound_sublist bounds _))
    refine ⟨result.length + 1, ?_⟩
    rw [hres]
    refine pages_eq hfol (by omega : 0 < size.toNat) fun cursor hcur => ?_
    rw [findEntriesOnBranch_memory hinv.rooted hinv.byId (SessionState.assertValidLimit_page hsize)
      (SessionState.assertValidCursor_page hcur) bounds hentry hpath]
    exact congrArg Except.ok (SessionState.collect_page query size cursor)

omit hinv in
theorem nodup_ordered {entries : List Entry} (hnodup : (entries.map (·.id)).Nodup) (order : Option EntryOrder) :
    ((ordered entries order).map (·.id)).Nodup := by
  rw [ordered]
  split_ifs
  · exact hnodup
  · rw [map_reverse, nodup_reverse]
    exact hnodup

theorem nodup_findEntries {query : EntryQuery} {found : List Entry}
    (hfound : state.findEntries { query with limit := none, cursor := none } = .ok found) :
    (found.map (·.id)).Nodup := by
  have hnodup := nodup_ordered (nodup_append'.mp hinv.ids).1 query.order
  obtain rfl := Except.ok.inj hfound
  exact hnodup.sublist (filter_sublist.map _)

theorem nodup_findEntriesOnBranch {query : EntryQuery} {bounds : BranchBounds} {start : JsStr} {found : List Entry}
    (hfound : state.findEntriesOnBranch { query with limit := none, cursor := none } bounds start = .ok found) :
    (found.map (·.id)).Nodup := by
  cases hstart : state.entriesById.get? start with
  | none =>
    rw [findEntriesOnBranch_missing rfl rfl hstart] at hfound
    exact nomatch hfound
  | some entry =>
    obtain ⟨hentry, rfl⟩ := hinv.entriesById_get?.mp hstart
    obtain ⟨path, hpath⟩ := hinv.rooted.exists_path hentry
    rw [findEntriesOnBranch_memory hinv.rooted hinv.byId rfl rfl bounds hentry hpath] at hfound
    obtain rfl := Except.ok.inj hfound
    refine (nodup_ordered (hpath.keys_nodup hinv.rooted) query.order).sublist (List.Sublist.map _ ?_)
    exact filter_sublist.trans (SessionState.upToBound_sublist bounds _)

end Invariant

/-- **Cursor pagination.** In every reachable state the pages of a query, asked for with the sequence number of
the last entry read until one is empty, are the result of the query without a limit and a cursor, for the
query over all entries and for the one on a branch. No entry is in such a result twice. -/
theorem pagination_exact [JsNumber.Addition] (mutations : List SessionMutation) (query : EntryQuery) (size : Int)
    (hsize : 1 ≤ size) : let state := (SessionState.initial.offerAll mutations).1
    let whole : EntryQuery := { query with limit := none, cursor := none }
    let page := fun cursor => ({ query with limit := some size, cursor } : EntryQuery)
    (∃ rounds, pages (fun cursor => state.findEntries (page cursor)) SessionState.cursorOf rounds none =
      some (state.findEntries whole)) ∧
    (∀ bounds start, ∃ rounds,
      pages (fun cursor => state.findEntriesOnBranch (page cursor) bounds start) SessionState.cursorOf
        rounds none = some (state.findEntriesOnBranch whole bounds start)) ∧
    (∀ found, state.findEntries whole = .ok found → (found.map (·.id)).Nodup) ∧
    ∀ bounds start found, state.findEntriesOnBranch whole bounds start = .ok found → (found.map (·.id)).Nodup := by
  intro state whole page
  have hinv : Invariant state _ := offerAll_invariant mutations invariant_initial
  exact ⟨hinv.pages_findEntries query hsize, hinv.pages_findEntriesOnBranch query hsize,
    fun found => hinv.nodup_findEntries, fun bounds start found => hinv.nodup_findEntriesOnBranch⟩

section Samples

local instance paginationAddition : JsNumber.Addition := JsNumber.integerAddition

/-- A note and a note behind it. -/
def samplePage : List SessionMutation :=
  let payload : Payload := ⟨[(js "customType", .string (js "page"))], by decide +kernel, by decide +kernel⟩
  [.entry none ⟨⟨.custom, js "a", payload, by decide +kernel⟩, none, 1, 0⟩,
    .entry none ⟨⟨.custom, js "b", payload, by decide +kernel⟩, some (js "a"), 2, 0⟩]

theorem pagination_exact_sample : (1 : Int) ≤ 1 ∧ ∃ rounds, pages
      (fun cursor => (SessionState.initial.offerAll samplePage).1.findEntries { limit := some 1, cursor })
      SessionState.cursorOf rounds none = some ((SessionState.initial.offerAll samplePage).1.findEntries {}) :=
  ⟨le_refl 1, (pagination_exact samplePage {} 1 (le_refl 1)).1⟩

end Samples

end PiRp.Session

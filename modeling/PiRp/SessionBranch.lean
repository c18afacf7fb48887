import PiRp.ExceptBind
import PiRp.RootPath
import PiRp.SessionState

/-! The entries of a session as a forest. A query on a branch walks from an entry along the parent links, so it reads the
path of the entry from its root; entries that are copied are numbered from `1`. -/

namespace PiRp.Session

open List Option SessionState

def entryLinks : ParentLinks Entry JsStr where
  key := fun entry => entry.id
  parent := Entry.parentId
  rank := Entry.seq

/-! ### The walk in memory -/

theorem upToBound_eq (bounds : BranchBounds) (entries : List Entry) : upToBound bounds entries =
      Sql.upTo (reachesBound · bounds) entries := by
  induction entries with
  | nil => rfl
  | cons entry entries ih => rw [upToBound, Sql.upTo, ih]

theorem upTo_starts {α : Type*} (condition : α → Bool) (rows : List α) : Sql.upTo condition rows <+: rows := by
  induction rows with
  | nil => exact prefix_rfl
  | cons row rows ih =>
    rw [Sql.upTo]
    split_ifs
    · exact ⟨rows, rfl⟩
    · exact cons_prefix_cons.mpr ⟨rfl, ih⟩

variable {state : SessionState} {entries path : List Entry}

theorem walkFrom_eq (hroot : entryLinks.Rooted entries)
    (hbyId : ∀ entry ∈ entries, state.entriesById.get? entry.id = some entry) (bounds : BranchBounds)
    {leaf : Option JsStr} (hpath : entryLinks.RootPath entries leaf path) :
    ∀ {current : Entry} {fuel : Nat} {visited : List JsStr}, current ∈ entries →
      leaf = some current.id → path.length ≤ fuel → (∀ entry ∈ path, entry.id ∉ visited) →
      state.walkFrom bounds fuel visited current = ⟨upToBound bounds path.reverse, .done⟩ := by
  induction hpath with
  | nil =>
    intro current fuel visited _ hleaf
    exact nomatch hleaf
  | @concat entry front hentry hfront ih =>
    intro current fuel visited hcurr hleaf hfuel hvis
    obtain rfl : entry = current :=
      hroot.eq_of_key hentry hcurr (Option.some.inj hleaf)
    have hlast : entry ∈ front ++ [entry] := mem_append_right _ (mem_singleton_self _)
    have hkeys := (hfront.concat hentry).keys_nodup hroot
    rw [map_append, nodup_append'] at hkeys
    rw [length_append, length_singleton] at hfuel
    obtain ⟨rest, rfl⟩ : ∃ rest, fuel = rest + 1 := ⟨fuel - 1, by omega⟩
    rw [walkFrom, if_neg (hvis entry hlast), reverse_append, reverse_singleton, singleton_append, upToBound]
    split_ifs with hbound
    · rfl
    have hpar : entryLinks.parent entry = entry.parentId := rfl
    cases hparentId : entry.parentId with
    | none =>
      rw [hpar, hparentId] at hfront
      cases hfront
      rfl
    | some parentId =>
      rw [hpar, hparentId] at hfront ih
      obtain ⟨parent, hmem, _, _, hid, _⟩ := hfront.exists_concat
      obtain rfl : parent.id = parentId := hid
      dsimp only
      rw [hbyId parent hmem]
      dsimp only
      rw [ih hmem rfl (by omega)]
      intro other hother hseen
      rcases mem_cons.mp hseen with heq | hseen
      · exact hkeys.2.2 (mem_map_of_mem hother) (mem_singleton.mpr heq)
      · exact hvis other (mem_append_left _ hother) hseen

variable {entry : Entry}

theorem walkToRoot_eq (hroot : entryLinks.Rooted entries)
    (hbyId : state.entriesById.entries = entries.map fun entry => (entry.id, entry))
    (bounds : BranchBounds) (hentry : entry ∈ entries) (hpath : entryLinks.RootPath entries (some entry.id) path) :
    state.walkToRoot (some entry.id) bounds = ⟨upToBound bounds path.reverse, .done⟩ := by
  have hget : ∀ other ∈ entries, state.entriesById.get? other.id = some other := by
    intro other hother
    rw [JsMap.get?_eq_some, hbyId]
    exact mem_map.mpr ⟨other, hother, rfl⟩
  rw [walkToRoot, hget entry hentry]
  refine walkFrom_eq hroot hget bounds hpath hentry rfl ?_ fun _ _ => not_mem_nil
  have hle := hpath.length_le hroot
  rw [hbyId, length_map]
  omega

/-- The path from its root on or backwards, as a query asks for it. -/
def walked (path : List Entry) (query : EntryQuery) (bounds : BranchBounds) : List Entry :=
  upToBound bounds (if query.order = some .oldestFirst then path else path.reverse)

/-- **A branch query in memory**, on the path to its start. -/
theorem findEntriesOnBranch_memory (hroot : entryLinks.Rooted entries)
    (hbyId : state.entriesById.entries = entries.map fun entry => (entry.id, entry))
    {query : EntryQuery} (hlimit : assertValidLimit query.limit = .ok ())
    (hcur : assertValidCursor query.cursor = .ok ()) (bounds : BranchBounds) (hentry : entry ∈ entries)
    (hpath : entryLinks.RootPath entries (some entry.id) path) : state.findEntriesOnBranch query bounds entry.id =
      .ok (collect (matchesEntryQuery · query) query.limit (walked path query bounds)) := by
  have hunb : upToBound {} path.reverse = path.reverse := by
    induction path.reverse with
    | nil => rfl
    | cons entry rest ih =>
      rw [upToBound, ih]
      rfl
  rw [findEntriesOnBranch, hlimit, ok_bind, hcur, ok_bind, walked]
  split_ifs with horder
  · rw [walkToRoot_eq hroot hbyId {} hentry hpath, SessionState.Walk.toArray, hunb, ok_bind, reverse_reverse]
    rfl
  · rw [walkToRoot_eq hroot hbyId bounds hentry hpath]
    dsimp only
    split_ifs
    · rfl
    · rfl

theorem findEntriesOnBranch_missing {query : EntryQuery} (hlimit : assertValidLimit query.limit = .ok ())
    (hcur : assertValidCursor query.cursor = .ok ()) {bounds : BranchBounds} {start : JsStr}
    (hstart : state.entriesById.get? start = none) : state.findEntriesOnBranch query bounds start =
      .error ⟨.notFound, js "Entry not found: " ++ start⟩ := by
  have hwalk : ∀ bounds, state.walkToRoot (some start) bounds =
      ⟨[], .thrown ⟨.notFound, js "Entry not found: " ++ start⟩⟩ := by
    intro bounds
    rw [walkToRoot, hstart]
  have hempty : collect (matchesEntryQuery · query) query.limit [] = [] := by
    cases query.limit <;> simp [collect]
  rw [findEntriesOnBranch, hlimit, ok_bind, hcur, ok_bind]
  split_ifs with horder
  · rw [hwalk]
    rfl
  · rw [hwalk]
    dsimp only
    rw [hempty, if_neg]
    · rfl
    · intro hzero
      rw [hzero] at hlimit
      exact nomatch hlimit

theorem reachesBound_none {bounds : BranchBounds}
    (hnone : (bounds.stopAtType.isSome || bounds.stopAtId.isSome) = false) (entry : Entry) :
    reachesBound entry bounds = false := by
  rw [Bool.or_eq_false_iff, isSome_eq_false_iff, isSome_eq_false_iff, isNone_iff_eq_none, isNone_iff_eq_none] at hnone
  rw [reachesBound, hnone.1, hnone.2]
  rfl

theorem upTo_none {α : Type*} {condition : α → Bool} {rows : List α}
    (hnone : ∀ row, condition row = false) : Sql.upTo condition rows = rows := by
  induction rows with
  | nil => rfl
  | cons row rows ih =>
    rw [Sql.upTo, hnone, ih]
    rfl

/-! ### Numbering the entries -/

/-- Entries with consecutive sequence numbers. -/
def renumber (start : Nat) (entries : List Entry) : List Entry :=
  Sql.numbered (fun seq (entry : Entry) => { entry with seq }) start entries

theorem renumber_cons (start : Nat) (entry : Entry) (entries : List Entry) : renumber start (entry :: entries) =
      { entry with seq := start } :: renumber (start + 1) entries :=
  Sql.numbered_cons _ start entry entries

theorem renumber_ids (start : Nat) (entries : List Entry) :
    (renumber start entries).map (fun entry => entry.id) = entries.map fun entry => entry.id := by
  induction entries generalizing start with
  | nil => rfl
  | cons entry entries ih =>
    rw [renumber_cons, map_cons, map_cons, ih]

theorem mem_renumber {start : Nat} (hentry : entry ∈ renumber start entries) :
    ∃ source ∈ entries, source.id = entry.id ∧ source.parentId = entry.parentId ∧
      start ≤ entry.seq ∧ entry.seq < start + entries.length := by
  obtain ⟨source, hsrc, index, hindex, rfl⟩ := Sql.mem_numbered hentry
  exact ⟨source, hsrc, rfl, rfl, Nat.le_add_right _ _, Nat.add_lt_add_left hindex start⟩

theorem renumber_leaf {start : Nat} {copied : List Entry} {id : JsStr} (hid : ∃ entry ∈ copied, entry.id = id) :
    ∃ entry ∈ renumber start copied, entry.id = id := by
  obtain ⟨entry, hentry, rfl⟩ := hid
  have hmem : entry.id ∈ (renumber start copied).map fun entry => entry.id := by
    rw [renumber_ids]
    exact mem_map_of_mem hentry
  obtain ⟨found, hfound, heq⟩ := mem_map.mp hmem
  exact ⟨found, hfound, heq⟩

end PiRp.Session

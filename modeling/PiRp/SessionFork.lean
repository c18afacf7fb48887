import PiRp.ExceptBind
import PiRp.SessionInvariant

/-! The mutations a fork starts with. Every copied entry is an entry of the source. -/

namespace PiRp.Session.SessionState

open List

variable {state : SessionState} {accepted : List SessionMutation}

theorem mem_collect {α : Type} {isMatch : α → Bool} {limit : Option Int} {items : List α} {item : α}
    (hitem : item ∈ collect isMatch limit items) : item ∈ items := by
  cases limit with
  | none => exact mem_of_mem_filter hitem
  | some limit => exact mem_of_mem_filter (mem_of_mem_take hitem)

theorem mem_ordered {α : Type} {items : List α} {order : Option EntryOrder} {item : α} :
    item ∈ ordered items order ↔ item ∈ items := by
  rw [ordered]
  split_ifs
  · exact Iff.rfl
  · exact mem_reverse

variable {bounds : BranchBounds} {entry : Entry}

theorem mem_of_mem_upToBound {entries : List Entry}
    (hentry : entry ∈ upToBound bounds entries) : entry ∈ entries := by
  induction entries with
  | nil => exact hentry
  | cons first rest ih =>
    rw [upToBound] at hentry
    split_ifs at hentry
    · exact mem_singleton.mp hentry ▸ mem_cons_self
    · rcases mem_cons.mp hentry with rfl | hentry
      · exact mem_cons_self
      · exact mem_cons_of_mem _ (ih hentry)

variable (hinv : Invariant state accepted)

include hinv

theorem mem_of_mem_walkFrom {fuel : Nat}
    {visited : List JsStr} {current : Entry} (hcur : current ∈ state.entries)
    (hentry : entry ∈ (state.walkFrom bounds fuel visited current).yielded) : entry ∈ state.entries := by
  induction fuel generalizing visited current with
  | zero => exact absurd hentry not_mem_nil
  | succ fuel ih =>
    have hself : entry ∈ [current] → entry ∈ state.entries := fun h =>
      mem_singleton.mp h ▸ hcur
    rw [walkFrom] at hentry
    split_ifs at hentry
    · exact absurd hentry not_mem_nil
    · exact hself hentry
    split at hentry
    · exact hself hentry
    split at hentry
    · exact hself hentry
    · rename_i parent hparent
      rcases mem_cons.mp hentry with rfl | hentry
      · exact hcur
      · exact ih (hinv.entriesById_get?.mp hparent).1 hentry

theorem mem_of_mem_walkToRoot {start : Option JsStr}
    (hentry : entry ∈ (state.walkToRoot start bounds).yielded) : entry ∈ state.entries := by
  cases start with
  | none => exact absurd hentry not_mem_nil
  | some start =>
    rw [walkToRoot] at hentry
    cases hget : state.entriesById.get? start with
    | none =>
      rw [hget] at hentry
      exact absurd hentry not_mem_nil
    | some found =>
      rw [hget] at hentry
      exact mem_of_mem_walkFrom hinv (hinv.entriesById_get?.mp hget).1 hentry

omit hinv in
theorem mem_of_mem_findEntries {query : EntryQuery} {found : List Entry}
    (hfound : state.findEntries query = .ok found) (hentry : entry ∈ found) : entry ∈ state.entries := by
  obtain ⟨_, _, hrest⟩ := bind_eq_ok.mp hfound
  obtain ⟨_, _, hres⟩ := bind_eq_ok.mp hrest
  cases hres
  exact mem_ordered.mp (mem_collect hentry)

omit hinv in
theorem toArray_eq_ok {walk : Walk} {entries : List Entry} :
    walk.toArray = .ok entries ↔ walk.ending = .done ∧ walk.yielded = entries := by
  rw [Walk.toArray]
  cases walk.ending <;> simp

theorem mem_of_mem_findEntriesOnBranch {query : EntryQuery}
    {start : JsStr} {found : List Entry}
    (hfound : state.findEntriesOnBranch query bounds start = .ok found) (hentry : entry ∈ found) :
    entry ∈ state.entries := by
  obtain ⟨_, _, hrest⟩ := bind_eq_ok.mp hfound
  obtain ⟨_, _, hres⟩ := bind_eq_ok.mp hrest
  split_ifs at hres
  · obtain ⟨path, hpath, hfound⟩ := bind_eq_ok.mp hres
    cases hfound
    obtain ⟨_, rfl⟩ := toArray_eq_ok.mp hpath
    exact mem_of_mem_walkToRoot hinv
      (mem_reverse.mp (mem_of_mem_upToBound (mem_collect hentry)))
  · dsimp only at hres
    split_ifs at hres
    · cases hres
      exact mem_of_mem_walkToRoot hinv (mem_collect hentry)
    · obtain ⟨_, _, hfound⟩ := bind_eq_ok.mp hres
      cases hfound
      exact mem_of_mem_walkToRoot hinv (mem_collect hentry)

theorem mem_of_mem_forkSelection {options : ForkOptions}
    {copiedEntries : List Entry} {forkLanes : List LanePointer}
    (hsel : state.forkSelection options = .ok (copiedEntries, forkLanes)) :
    ∀ entry ∈ copiedEntries, entry ∈ state.entries := by
  intro entry hentry
  cases options with
  | tree =>
    obtain ⟨found, hfound, hres⟩ := bind_eq_ok.mp hsel
    cases hres
    exact mem_of_mem_findEntries hfound hentry
  | branch entryId position =>
    obtain ⟨targetId, _, hrest⟩ := bind_eq_ok.mp hsel
    cases targetId with
    | none =>
      cases hrest
      exact absurd hentry not_mem_nil
    | some targetId =>
      obtain ⟨found, hfound, hres⟩ := bind_eq_ok.mp hrest
      cases hres
      exact mem_of_mem_findEntriesOnBranch hinv hfound hentry

omit hinv in
theorem mem_numberDrafts {drafts : List (Nat → SessionMutation)} {mutation : SessionMutation}
    (hmut : mutation ∈ numberDrafts drafts) : ∃ draft ∈ drafts, ∃ seq, mutation = draft seq := by
  obtain ⟨index, hindex, rfl⟩ := mem_mapIdx.mp hmut
  exact ⟨_, getElem_mem hindex, _, rfl⟩

theorem createForkMutations_timestamp {options : ForkOptions}
    {mutations : List SessionMutation} (hfork : state.createForkMutations options = .ok mutations) :
    ∀ mutation ∈ mutations, ∀ timestamp, mutation.timestamp? = some timestamp →
      ∃ entry ∈ state.entries, entry.timestamp = timestamp := by
  obtain ⟨⟨copiedEntries, forkLanes⟩, hsel, hres⟩ := bind_eq_ok.mp hfork
  cases hres
  intro mutation hmut timestamp hstamp
  obtain ⟨draft, hdraft, seq, rfl⟩ := mem_numberDrafts hmut
  simp only [mem_append, mem_map, mem_filterMap, Option.map_eq_some_iff] at hdraft
  rcases hdraft with ((⟨entry, hentry, rfl⟩ | ⟨pointer, _, rfl⟩) | hname) |
    ⟨entry, _, label, _, rfl⟩
  · exact ⟨entry, mem_of_mem_forkSelection hinv hsel entry hentry, Option.some.inj hstamp⟩
  · cases hstamp
  · cases hstate : state.name with
    | none =>
      rw [hstate] at hname
      exact absurd hname not_mem_nil
    | some name =>
      rw [hstate] at hname
      obtain rfl := mem_singleton.mp hname
      cases hstamp
  · cases hstamp

end PiRp.Session.SessionState

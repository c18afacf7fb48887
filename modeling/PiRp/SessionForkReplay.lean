import PiRp.SessionFork
import PiRp.SessionPagination
import PiRp.SessionBranch

/-! Replaying a fork. `createForkMutations` numbers the copied entries, the lanes and the facts of a fork from
`1`; an empty state accepts them in this order, because the copied entries hold the parents of each other and
the leaves of the lanes. The fork has the branches of its source. -/

namespace PiRp.Session

open List JsNumber Sql

section Runs

variable [Addition]

/-! ### Numbered runs -/

/-- Items are replayed one by one, each with the next sequence number, when every one is accepted where the
ones before it led. -/
theorem SessionState.applies_numbered {α : Type} {make : Nat → α → SessionMutation}
    {good : List α → SessionState → Prop} {items : List α}
    (hstep : ∀ done item rest state, items = done ++ item :: rest → good done state →
      ∃ next, state.Applies (make (state.sequence + 1) item) next ∧ good (done ++ [item]) next)
    {state : SessionState} (hstart : good [] state) :
    ∃ next, state.AppliesAll (numbered make (state.sequence + 1) items) next ∧ good items next ∧
      next.sequence = state.sequence + items.length := by
  have hrest : ∀ rest done state, items = done ++ rest → good done state →
      ∃ next, state.AppliesAll (numbered make (state.sequence + 1) rest) next ∧ good items next ∧
        next.sequence = state.sequence + rest.length := by
    intro rest
    induction rest with
    | nil =>
      intro done state hitems hgood
      rw [append_nil] at hitems
      exact ⟨state, .nil, hitems ▸ hgood, rfl⟩
    | cons item rest ih =>
      intro done state hitems hgood
      obtain ⟨middle, happl, hmid⟩ := hstep done item rest state hitems hgood
      have hseq : middle.sequence = state.sequence + 1 := happl.effect.1.trans happl.seq_eq
      obtain ⟨next, hall, hgood, hlast⟩ := ih (done ++ [item]) middle
        (by rw [hitems, append_assoc, singleton_append]) hmid
      refine ⟨next, ?_, hgood, ?_⟩
      · rw [numbered_cons]
        rw [hseq] at hall
        exact .cons happl hall
      · rw [hlast, hseq, length_cons]
        omega
  exact hrest items [] state rfl hstart

/-! ### What a fork copies -/

/-- Entries that hold the parents of each other, in the order of their sequence numbers. -/
structure Copied (entries : List Entry) : Prop where
  rooted : entryLinks.Rooted entries
  seqs : Increasing Entry.seq entries

/-- A state with the copied entries, numbered from `1`, and no records. -/
structure Replayed (copied : List Entry) (state : SessionState) : Prop where
  invariant : ∃ accepted, Invariant state accepted
  entries : state.entries = renumber 1 copied
  records : state.records = []

namespace Replayed

variable {copied : List Entry} {state next : SessionState} {mutation : SessionMutation}

theorem step (hrep : Replayed copied state) (happl : state.Applies mutation next)
    (hentry : mutation.entry? = none) (hrec : mutation.record? = none) : Replayed copied next := by
  obtain ⟨accepted, hinv⟩ := hrep.invariant
  obtain ⟨-, -, hents, hrecor⟩ := happl.effect
  refine ⟨⟨_, hinv.step happl⟩, ?_, ?_⟩
  · rw [hents, hentry, hrep.entries]
    exact append_nil _
  · rw [hrecor, hrec, hrep.records]
    rfl

omit [Addition] in
theorem has_iff (hrep : Replayed copied state) {id : JsStr} :
    state.entriesById.has id = true ↔ ∃ entry ∈ copied, entry.id = id := by
  obtain ⟨accepted, hinv⟩ := hrep.invariant
  rw [hinv.entriesById_has, hrep.entries]
  have hids := renumber_ids 1 copied
  rw [← mem_map, ← mem_map, hids]

end Replayed

omit [Addition] in
theorem replayed_initial : Replayed [] .initial := ⟨⟨[], invariant_initial⟩, rfl, rfl⟩

/-- The draft of a copied entry. -/
def entryDraft (seq : Nat) (entry : Entry) : SessionMutation := .entry none { entry with seq }

theorem replay_entries {copied : List Entry} (hcopied : Copied copied) :
    ∃ next, SessionState.initial.AppliesAll (numbered entryDraft 1 copied) next ∧
      Replayed copied next ∧ next.lanes = SessionState.initial.lanes ∧ next.name = none ∧
      next.labels = .empty ∧ next.sequence = copied.length := by
  let good : List Entry → SessionState → Prop := fun done state =>
    Replayed done state ∧ state.lanes = SessionState.initial.lanes ∧ state.name = none ∧ state.labels = .empty ∧
      state.sequence = done.length
  have hstep : ∀ done entry rest state, copied = done ++ entry :: rest → good done state →
      ∃ next, state.Applies (entryDraft (state.sequence + 1) entry) next ∧ good (done ++ [entry]) next := by
    rintro done entry rest state hcop ⟨hrep, hlanes, hname, hlab, hseq⟩
    obtain ⟨accepted, hinv⟩ := hrep.invariant
    have hkeys := hcopied.rooted.keys
    rw [hcop, map_append, nodup_append'] at hkeys
    have hnew : entry.id ∉ state.usedIds := by
      rw [hinv.usedIds, hrep.records, hrep.entries, renumber_ids]
      intro hmem
      rw [map_nil, append_nil] at hmem
      exact hkeys.2.2 hmem mem_cons_self
    have hpar : ∀ id, entry.parentId = some id → state.entriesById.has id = true := by
      intro id hid
      obtain ⟨parent, hpar, rfl, hlt⟩ := hcopied.rooted.parents entry
        (by rw [hcop]; exact mem_append_right _ mem_cons_self) id hid
      rw [hcop] at hpar
      have hseqs := hcopied.seqs
      rw [hcop, Increasing, pairwise_append, pairwise_cons] at hseqs
      refine hrep.has_iff.mpr ⟨parent, ?_, rfl⟩
      rcases mem_append.mp hpar with hdone | hrest
      · exact hdone
      · have hlt : parent.seq < entry.seq := hlt
        rcases mem_cons.mp hrest with rfl | hrest
        · exact absurd hlt (Nat.lt_irrefl _)
        · exact absurd (hseqs.2.1.1 parent hrest) (Nat.lt_asymm hlt)
    have happl : state.Applies (entryDraft (state.sequence + 1) entry)
        (state.addEntry none { entry with seq := state.sequence + 1 }) :=
      .entry rfl hnew (fun name hlane => by cases hlane) hpar
    refine ⟨_, happl, ⟨⟨_, hinv.step happl⟩, ?_, hrep.records⟩, hlanes, hname, hlab, ?_⟩
    · rw [renumber, numbered_append, ← renumber, ← hrep.entries, hseq, Nat.add_comm]
      rfl
    · rw [length_append, ← hseq]
      rfl
  have hstart : good [] .initial := ⟨replayed_initial, rfl, rfl, rfl, rfl⟩
  obtain ⟨next, hall, ⟨hrep, hlanes, hname, hlab, hseq⟩, -⟩ :=
    SessionState.applies_numbered hstep hstart
  exact ⟨next, hall, hrep, hlanes, hname, hlab, hseq⟩

/-- The draft of a lane. -/
def laneDraft (seq : Nat) (pointer : LanePointer) : SessionMutation := .lane seq pointer.lane pointer.leafId

theorem replay_lanes {copied : List Entry} {lanes : List LanePointer} (hnames : (lanes.map (·.lane)).Nodup)
    (hleav : ∀ pointer ∈ lanes, ∀ id, pointer.leafId = some id → ∃ entry ∈ copied, entry.id = id)
    {state : SessionState} (hrep : Replayed copied state) :
    ∃ next, state.AppliesAll (numbered laneDraft (state.sequence + 1) lanes) next ∧ Replayed copied next ∧
      (∀ pointer ∈ lanes, next.lanes.get? pointer.lane = some pointer.leafId) ∧
      (∀ lane, lane ∉ lanes.map (·.lane) → next.lanes.get? lane = state.lanes.get? lane) ∧
      next.name = state.name ∧ next.labels = state.labels ∧ next.sequence = state.sequence + lanes.length := by
  let good : List LanePointer → SessionState → Prop := fun done next =>
    Replayed copied next ∧ (∀ pointer ∈ done, next.lanes.get? pointer.lane = some pointer.leafId) ∧
      (∀ lane, lane ∉ done.map (·.lane) → next.lanes.get? lane = state.lanes.get? lane) ∧
      next.name = state.name ∧ next.labels = state.labels
  have hstep : ∀ done pointer rest current, lanes = done ++ pointer :: rest → good done current →
      ∃ next, current.Applies (laneDraft (current.sequence + 1) pointer) next ∧ good (done ++ [pointer]) next := by
    rintro done pointer rest current hlanes ⟨hrep, hdone, hother, hname, hlab⟩
    rw [hlanes] at hnames hleav
    have happl : current.Applies (laneDraft (current.sequence + 1) pointer)
        (current.setLane (current.sequence + 1) pointer.lane pointer.leafId) :=
      .lane rfl fun id hid => hrep.has_iff.mpr
        (hleav pointer (mem_append_right _ mem_cons_self) id hid)
    refine ⟨_, happl, hrep.step happl rfl rfl, fun other hmem => ?_, fun lane hlane => ?_, hname,
      hlab⟩
    · rw [SessionState.setLane, JsMap.get?_set]
      rcases mem_append.mp hmem with hmem | hmem
      · rw [map_append, nodup_append'] at hnames
        have hne : other.lane ≠ pointer.lane := fun heq =>
          hnames.2.2 (mem_map_of_mem hmem) (heq ▸ mem_cons_self)
        rw [if_neg hne]
        exact hdone other hmem
      · rw [mem_singleton.mp hmem, if_pos rfl]
    · rw [map_append, mem_append, not_or] at hlane
      rw [SessionState.setLane, JsMap.get?_set, if_neg (by simpa using hlane.2)]
      exact hother lane hlane.1
  have hstart : good [] state :=
    ⟨hrep, fun _ hmem => absurd hmem not_mem_nil, fun _ _ => rfl, rfl, rfl⟩
  obtain ⟨next, hall, ⟨hrep, hdone, hother, hname, hlab⟩, hseq⟩ :=
    SessionState.applies_numbered hstep hstart
  exact ⟨next, hall, hrep, hdone, hother, hname, hlab, hseq⟩

/-- The draft of a label. -/
def labelDraft (seq : Nat) (label : JsStr × JsStr) : SessionMutation := .label seq label.1 (some label.2)

theorem replay_labels {copied : List Entry} {labels : List (JsStr × JsStr)}
    (htar : ∀ label ∈ labels, ∃ entry ∈ copied, entry.id = label.1) (hkeys : (labels.map Prod.fst).Nodup)
    {state : SessionState} (hrep : Replayed copied state) :
    ∃ next, state.AppliesAll (numbered labelDraft (state.sequence + 1) labels) next ∧ Replayed copied next ∧
      (∀ label ∈ labels, next.labels.get? label.1 = some label.2) ∧
      (∀ id, id ∉ labels.map Prod.fst → next.labels.get? id = state.labels.get? id) ∧
      next.name = state.name ∧ next.lanes = state.lanes := by
  let good : List (JsStr × JsStr) → SessionState → Prop := fun done next =>
    Replayed copied next ∧ (∀ label ∈ done, next.labels.get? label.1 = some label.2) ∧
      (∀ id, id ∉ done.map Prod.fst → next.labels.get? id = state.labels.get? id) ∧
      next.name = state.name ∧ next.lanes = state.lanes
  have hstep : ∀ done label rest current, labels = done ++ label :: rest → good done current →
      ∃ next, current.Applies (labelDraft (current.sequence + 1) label) next ∧ good (done ++ [label]) next := by
    rintro done label rest current hlab ⟨hrep, hdone, hother, hname, hlanes⟩
    rw [hlab] at htar hkeys
    have happl : current.Applies (labelDraft (current.sequence + 1) label)
        (current.setLabel (current.sequence + 1) label.1 (some label.2)) :=
      .label rfl (hrep.has_iff.mpr (htar label (mem_append_right _ mem_cons_self)))
    refine ⟨_, happl, hrep.step happl rfl rfl, fun other hmem => ?_, fun id hid => ?_, hname, hlanes⟩
    · simp only [SessionState.setLabel, JsMap.get?_set]
      rcases mem_append.mp hmem with hmem | hmem
      · rw [map_append, nodup_append'] at hkeys
        have hne : other.1 ≠ label.1 := fun heq =>
          hkeys.2.2 (mem_map_of_mem hmem) (heq ▸ mem_cons_self)
        rw [if_neg hne]
        exact hdone other hmem
      · rw [mem_singleton.mp hmem, if_pos rfl]
    · rw [map_append, mem_append, not_or] at hid
      simp only [SessionState.setLabel, JsMap.get?_set]
      rw [if_neg (by simpa using hid.2)]
      exact hother id hid.1
  have hstart : good [] state :=
    ⟨hrep, fun _ hmem => absurd hmem not_mem_nil, fun _ _ => rfl, rfl, rfl⟩
  obtain ⟨next, hall, ⟨hrep, hdone, hother, hname, hlanes⟩, -⟩ :=
    SessionState.applies_numbered hstep hstart
  exact ⟨next, hall, hrep, hdone, hother, hname, hlanes⟩

/-- The draft of a name. -/
def nameDraft (seq : Nat) (name : JsStr) : SessionMutation := .name seq (some name)

theorem replay_name {copied : List Entry} (name : Option JsStr) {state : SessionState}
    (hrep : Replayed copied state) (hunn : state.name = none) :
    ∃ next, state.AppliesAll (numbered nameDraft (state.sequence + 1) name.toList) next ∧
      Replayed copied next ∧ next.name = name ∧ next.lanes = state.lanes ∧ next.labels = state.labels ∧
      next.sequence = state.sequence + name.toList.length := by
  cases name with
  | none => exact ⟨state, .nil, hrep, hunn, rfl, rfl, rfl⟩
  | some name =>
    have happl : state.Applies (nameDraft (state.sequence + 1) name)
        (state.setName (state.sequence + 1) (some name)) := .name rfl
    exact ⟨_, .cons happl .nil, hrep.step happl rfl rfl, rfl, rfl, rfl, rfl⟩

end Runs

/-! ### The selection of a fork -/

theorem filter_all (entries : List Entry) :
    entries.filter (SessionState.matchesEntryQuery · { order := some .oldestFirst }) = entries :=
  filter_eq_self.mpr fun _ _ => rfl

variable {accepted : List SessionMutation}

theorem findEntriesOnBranch_path {state : SessionState}
    (hinv : Invariant state accepted) {id : JsStr} {path : List Entry}
    (hpath : entryLinks.RootPath state.entries (some id) path) :
    state.findEntriesOnBranch { order := some .oldestFirst } {} id = .ok path := by
  obtain ⟨entry, hentry, -, -, hid, -⟩ := hpath.exists_concat
  have hid : entry.id = id := hid
  subst hid
  rw [findEntriesOnBranch_memory hinv.rooted hinv.byId rfl rfl {} hentry hpath, walked,
    upToBound_eq, upTo_none (reachesBound_none rfl), if_pos rfl]
  exact congrArg Except.ok (filter_all path)

/-- What a fork selects: copied entries with the leaves of its lanes among them. -/
structure Selected (state : SessionState) (copied : List Entry) (lanes : List LanePointer) : Prop where
  closed : Copied copied
  subset : ∀ entry ∈ copied, entry ∈ state.entries
  names : (lanes.map (·.lane)).Nodup
  leaves : ∀ pointer ∈ lanes, ∀ id, pointer.leafId = some id → ∃ entry ∈ copied, entry.id = id
  main : js "main" ∈ lanes.map (·.lane)

theorem selected_tree {state : SessionState} (hinv : Invariant state accepted)
    (hmain : state.lanes.has (js "main") = true) : state.forkSelection .tree = .ok (state.entries, state.getLanes) ∧
      Selected state state.entries state.getLanes := by
  have hnames : state.getLanes.map (·.lane) = state.lanes.entries.map Prod.fst := by
    rw [SessionState.getLanes, map_map]
    rfl
  refine ⟨?_, ⟨hinv.rooted, hinv.entries_increasing⟩, fun _ hentry => hentry, ?_, ?_, ?_⟩
  · exact congrArg (fun entries => Except.ok (entries, state.getLanes)) (filter_all state.entries)
  · rw [hnames]
    exact state.lanes.nodup
  · intro pointer hpoin id hid
    obtain ⟨⟨lane, leafId⟩, hlane, rfl⟩ := mem_map.mp hpoin
    refine hinv.leaves lane id ?_
    rw [JsMap.get?_eq_some, ← show leafId = some id from hid]
    exact hlane
  · obtain ⟨leafId, hleafId⟩ := Option.isSome_iff_exists.mp hmain
    rw [hnames]
    exact mem_map_of_mem (f := Prod.fst) (JsMap.get?_eq_some.mp hleafId)

theorem selected_branch {state : SessionState} (hinv : Invariant state accepted)
    {entryId : Option JsStr} {position : Option ForkPosition} {copied : List Entry} {lanes : List LanePointer}
    (hselec : state.forkSelection (.branch entryId position) = .ok (copied, lanes)) :
    ∃ targetId, state.forkTarget entryId position = .ok targetId ∧ lanes = [⟨js "main", targetId⟩] ∧
      Selected state copied lanes := by
  obtain ⟨targetId, htgt, hrest⟩ := bind_eq_ok.mp hselec
  refine ⟨targetId, htgt, ?_⟩
  cases targetId with
  | none =>
    cases hrest
    refine ⟨rfl, ⟨⟨nodup_nil, fun _ hmem => absurd hmem not_mem_nil⟩, .nil⟩,
      fun _ hmem => absurd hmem not_mem_nil, nodup_singleton _,
      fun pointer hpoin id hid => ?_, mem_singleton_self _⟩
    rw [mem_singleton.mp hpoin] at hid
    exact nomatch hid
  | some targetId =>
    obtain ⟨found, hfound, hres⟩ := bind_eq_ok.mp hrest
    cases hres
    cases hget : state.entriesById.get? targetId with
    | none =>
      rw [findEntriesOnBranch_missing rfl rfl hget] at hfound
      exact nomatch hfound
    | some entry =>
      obtain ⟨hentry, rfl⟩ := hinv.entriesById_get?.mp hget
      obtain ⟨path, hpath⟩ := hinv.rooted.exists_path hentry
      rw [show state.findEntriesOnBranch { order := some .oldestFirst } {} entry.id = .ok path from
        findEntriesOnBranch_path hinv hpath] at hfound
      obtain rfl := Except.ok.inj hfound
      refine ⟨rfl, ⟨hpath.rooted hinv.rooted, (hpath.increasing hinv.rooted).1⟩, hpath.subset,
        nodup_singleton _, fun pointer hpoin id hid => ?_, mem_singleton_self _⟩
      rw [mem_singleton.mp hpoin] at hid
      obtain ⟨last, _, front, rfl, hid', _⟩ := hpath.exists_concat
      exact ⟨last, mem_append_right _ (mem_singleton_self _), hid'.trans (Option.some.inj hid)⟩

/-! ### The mutations of a fork -/

theorem numberDrafts_eq (drafts : List (Nat → SessionMutation)) :
    SessionState.numberDrafts drafts = numbered (fun seq draft => draft seq) 1 drafts := by
  rw [SessionState.numberDrafts, numbered]
  exact mapIdx_eq_mapIdx_iff.mpr fun index _ => by rw [Nat.add_comm]

theorem numbered_drafts {α : Type} (make : Nat → α → SessionMutation) (start : Nat) (items : List α) :
    numbered (fun seq (draft : Nat → SessionMutation) => draft seq) start (items.map fun item seq => make seq item) =
      numbered make start items := by
  induction items generalizing start with
  | nil => rfl
  | cons item items ih => rw [map_cons, numbered_cons, numbered_cons, ih]

/-- The labels of the copied entries. -/
def labelsOf (state : SessionState) (copied : List Entry) : List (JsStr × JsStr) :=
  copied.filterMap fun entry => (state.labels.get? entry.id).map fun label => (entry.id, label)

theorem mem_labelsOf {state : SessionState} {copied : List Entry} {label : JsStr × JsStr} :
    label ∈ labelsOf state copied ↔ (∃ entry ∈ copied, entry.id = label.1) ∧ state.labels.get? label.1 = some label.2 := by
  obtain ⟨id, text⟩ := label
  simp only [labelsOf, mem_filterMap, Option.map_eq_some_iff, Prod.mk.injEq]
  constructor
  · rintro ⟨entry, hentry, found, hfound, rfl, rfl⟩
    exact ⟨⟨entry, hentry, rfl⟩, hfound⟩
  · rintro ⟨⟨entry, hentry, rfl⟩, hfound⟩
    exact ⟨entry, hentry, text, hfound, rfl, rfl⟩

theorem labelsOf_keys (state : SessionState) (copied : List Entry) :
    ((labelsOf state copied).map Prod.fst).Sublist (copied.map fun entry => entry.id) := by
  induction copied with
  | nil => exact .slnil
  | cons entry copied ih =>
    rw [labelsOf, filterMap_cons]
    cases state.labels.get? entry.id with
    | none => exact ih.cons _
    | some label => exact ih.cons_cons _

theorem createForkMutations_eq {state : SessionState} {options : ForkOptions} {copied : List Entry}
    {lanes : List LanePointer} (hselec : state.forkSelection options = .ok (copied, lanes)) :
    state.createForkMutations options = .ok (numbered entryDraft 1 copied ++
      (numbered laneDraft (1 + copied.length) lanes ++
        (numbered nameDraft (1 + copied.length + lanes.length) state.name.toList ++
          numbered labelDraft (1 + copied.length + lanes.length + state.name.toList.length)
            (labelsOf state copied)))) := by
  have hlab : (copied.filterMap fun entry =>
      (state.labels.get? entry.id).map fun label seq => SessionMutation.label seq entry.id (some label)) =
        (labelsOf state copied).map fun label seq => labelDraft seq label := by
    rw [labelsOf, map_filterMap]
    refine filterMap_congr fun entry _ => ?_
    rw [Option.map_map]
    rfl
  rw [SessionState.createForkMutations, hselec, ok_bind]
  have hdraf : SessionState.numberDrafts ((copied.map fun entry seq => entryDraft seq entry) ++
      (lanes.map fun pointer seq => laneDraft seq pointer) ++ (state.name.toList.map fun name seq => nameDraft seq name) ++
      ((labelsOf state copied).map fun label seq => labelDraft seq label)) = numbered entryDraft 1 copied ++
        (numbered laneDraft (1 + copied.length) lanes ++
          (numbered nameDraft (1 + copied.length + lanes.length) state.name.toList ++
            numbered labelDraft (1 + copied.length + lanes.length + state.name.toList.length)
              (labelsOf state copied))) := by
    rw [numberDrafts_eq, append_assoc, append_assoc, numbered_append, numbered_append,
      numbered_append, length_map, length_map, length_map, numbered_drafts, numbered_drafts,
      numbered_drafts, numbered_drafts]
  rw [← hdraf, ← hlab]
  cases state.name <;> rfl

/-! ### The fork -/

/-- An entry without its sequence number. -/
def unnumbered (entry : Entry) : Entry := { entry with seq := 0 }

theorem map_unnumbered_renumber (start : Nat) (entries : List Entry) :
    (renumber start entries).map unnumbered = entries.map unnumbered := by
  induction entries generalizing start with
  | nil => rfl
  | cons entry entries ih =>
    rw [renumber_cons, map_cons, map_cons, ih]
    rfl

theorem path_unnumbered {entries others path other : List Entry} (hroot : entryLinks.Rooted entries)
    (hsour : ∀ entry ∈ others, ∃ source ∈ entries, unnumbered source = unnumbered entry) {leaf : Option JsStr}
    (hpath : entryLinks.RootPath entries leaf path) (hother : entryLinks.RootPath others leaf other) :
    other.map unnumbered = path.map unnumbered := by
  induction hother generalizing path with
  | nil =>
    cases hpath
    rfl
  | @concat entry front hentry hfront ih =>
    obtain ⟨source, hsrc, hsame⟩ := hsour entry hentry
    obtain ⟨last, hlast, rest, rfl, hkey, hrest⟩ := hpath.exists_concat
    have hid : (unnumbered source).id = (unnumbered entry).id := congrArg (fun entry : Entry => entry.id) hsame
    have hpar : (unnumbered source).parentId = (unnumbered entry).parentId :=
      congrArg (fun entry : Entry => entry.parentId) hsame
    obtain rfl : last = source := hroot.eq_of_key hlast hsrc (hkey.trans hid.symm)
    have hpar : entryLinks.parent last = entryLinks.parent entry := hpar
    rw [map_append, map_append, ih (hpar ▸ hrest), map_singleton, map_singleton, hsame]

theorem upToBound_unnumbered (bounds : BranchBounds) (entries : List Entry) :
    SessionState.upToBound bounds (entries.map unnumbered) = (SessionState.upToBound bounds entries).map unnumbered := by
  induction entries with
  | nil => rfl
  | cons entry rest ih =>
    rw [map_cons, SessionState.upToBound, SessionState.upToBound,
      show SessionState.reachesBound (unnumbered entry) bounds = SessionState.reachesBound entry bounds from rfl, ih]
    split_ifs <;> rfl

theorem collect_unnumbered {query : EntryQuery} (hcur : query.cursor = none) (entries : List Entry) :
    collect (SessionState.matchesEntryQuery · query) query.limit (entries.map unnumbered) =
      (collect (SessionState.matchesEntryQuery · query) query.limit entries).map unnumbered := by
  have hmat : ((SessionState.matchesEntryQuery · query) ∘ unnumbered) = (SessionState.matchesEntryQuery · query) := by
    funext entry
    rw [Function.comp_apply, SessionState.matchesEntryQuery, SessionState.matchesEntryQuery, hcur]
    rfl
  have hfil : (entries.map unnumbered).filter (SessionState.matchesEntryQuery · query) =
      (entries.filter (SessionState.matchesEntryQuery · query)).map unnumbered := by
    rw [filter_map, hmat]
  cases hlimit : query.limit with
  | none => exact hfil
  | some limit =>
    rw [collect, collect, hfil, map_take]

theorem walked_unnumbered (query : EntryQuery) (bounds : BranchBounds) (path : List Entry) :
    walked (path.map unnumbered) query bounds = (walked path query bounds).map unnumbered := by
  rw [walked, walked, ← map_reverse]
  split_ifs
  · exact upToBound_unnumbered bounds path
  · exact upToBound_unnumbered bounds path.reverse

/-- What a fork has of its source. -/
structure ForkOf (state : SessionState) (options : ForkOptions) (forked : SessionState) : Prop where
  name : forked.getName = state.getName
  labels : ∀ entry ∈ forked.entries, forked.getLabel entry.id = state.getLabel entry.id
  /-- From every copied entry a branch query without a cursor finds what it finds in the source. -/
  branches : ∀ entry ∈ forked.entries, ∀ query bounds, assertValidLimit query.limit = .ok () → query.cursor = none →
    ∃ source found, state.findEntriesOnBranch query bounds entry.id = .ok source ∧
      forked.findEntriesOnBranch query bounds entry.id = .ok found ∧ found.map unnumbered = source.map unnumbered
  /-- The leaf of the main lane is the selected target, and it was copied. -/
  main : match options with
    | .tree => forked.requireLane (js "main") = state.requireLane (js "main")
    | .branch entryId position => ∃ targetId, state.forkTarget entryId position = .ok targetId ∧
        forked.requireLane (js "main") = .ok targetId
  leaf : ∀ id, forked.requireLane (js "main") = .ok (some id) → ∃ entry ∈ forked.entries, entry.id = id
  /-- A fork of the tree has its lanes and its entries. -/
  tree : options = .tree → (∀ lane, forked.lanes.get? lane = state.lanes.get? lane) ∧
    forked.entries.map unnumbered = state.entries.map unnumbered

theorem requireLane_eq {state : SessionState} {lane : JsStr} {leafId : Option JsStr} :
    state.requireLane lane = .ok leafId ↔ state.lanes.get? lane = some leafId := by
  rw [SessionState.requireLane]
  cases state.lanes.get? lane with
  | none => simp
  | some found => simp

section Replay

variable [Addition]

theorem offerAll_of_appliesAll {state next : SessionState} {mutations : List SessionMutation}
    (hall : state.AppliesAll mutations next) : state.offerAll mutations = (next, mutations) := by
  induction hall with
  | nil => rfl
  | cons happl _ ih => rw [SessionState.offerAll, happl.applyMutation_eq, if_pos rfl, ih]

theorem applies_lanes {state next : SessionState} {mutation : SessionMutation}
    (happl : state.Applies mutation next) {lane : JsStr} (hlane : state.lanes.has lane = true) :
    next.lanes.has lane = true := by
  cases happl with
  | @entry target entry _ _ _ _ =>
    cases target with
    | none => exact hlane
    | some target => exact JsMap.has_set.mpr (.inr hlane)
  | record => exact hlane
  | lane => exact JsMap.has_set.mpr (.inr hlane)
  | name => exact hlane
  | label => exact hlane

theorem offerAll_lanes {state : SessionState} {lane : JsStr} (hlane : state.lanes.has lane = true)
    (mutations : List SessionMutation) : (state.offerAll mutations).1.lanes.has lane = true := by
  induction mutations generalizing state with
  | nil => exact hlane
  | cons mutation mutations ih =>
    rcases state.applyMutation_spec mutation with ⟨error, heq⟩ | ⟨next, heq, happl⟩
    · rw [SessionState.offerAll, heq]
      exact ih hlane
    · rw [SessionState.offerAll, heq]
      exact ih (applies_lanes happl hlane)

theorem replay_selected {state : SessionState} {copied : List Entry} {lanes : List LanePointer}
    (hsel : Selected state copied lanes) {options : ForkOptions} {fork : List SessionMutation}
    (hselec : state.forkSelection options = .ok (copied, lanes)) (hfork : state.createForkMutations options = .ok fork) :
    ∃ forked, SessionState.initial.AppliesAll fork forked ∧ Replayed copied forked ∧ forked.name = state.name ∧
      (∀ pointer ∈ lanes, forked.lanes.get? pointer.lane = some pointer.leafId) ∧
      (∀ lane, lane ∉ lanes.map (·.lane) → forked.lanes.get? lane = none) ∧
      ∀ entry ∈ copied, forked.labels.get? entry.id = state.labels.get? entry.id := by
  rw [createForkMutations_eq hselec] at hfork
  obtain rfl := Except.ok.inj hfork
  obtain ⟨first, hents, hrep, hlanes₁, hname₁, hlab₁, hseq₁⟩ := replay_entries hsel.closed
  obtain ⟨second, hpoint, hrep, hdone₂, hother₂, hname₂, hlab₂, hseq₂⟩ :=
    replay_lanes hsel.names hsel.leaves hrep
  obtain ⟨third, hnames, hrep, hname₃, hlanes₃, hlab₃, hseq₃⟩ :=
    replay_name state.name hrep (hname₂.trans hname₁)
  have htar : ∀ label ∈ labelsOf state copied, ∃ entry ∈ copied, entry.id = label.1 := by
    intro label hlabel
    exact (mem_labelsOf.mp hlabel).1
  have hkeys : ((labelsOf state copied).map Prod.fst).Nodup :=
    (labelsOf_keys state copied).nodup hsel.closed.rooted.keys
  obtain ⟨forked, hlabell, hrep, hdone₄, hother₄, hname₄, hlanes₄⟩ :=
    replay_labels htar hkeys hrep
  have hfirst : first.sequence + 1 = 1 + copied.length := by omega
  have hsnd : second.sequence + 1 = 1 + copied.length + lanes.length := by omega
  have hthird : third.sequence + 1 = 1 + copied.length + lanes.length + state.name.toList.length := by omega
  rw [hfirst] at hpoint
  rw [hsnd] at hnames
  rw [hthird] at hlabell
  refine ⟨forked, hents.append (hpoint.append (hnames.append hlabell)), hrep, hname₄.trans hname₃,
    fun pointer hpoin => ?_, fun lane hlane => ?_, fun entry hentry => ?_⟩
  · rw [hlanes₄, hlanes₃]
    exact hdone₂ pointer hpoin
  · have hmain : lane ≠ js "main" := fun heq => hlane (heq ▸ hsel.main)
    rw [hlanes₄, hlanes₃, hother₂ lane hlane, hlanes₁, SessionState.initial, JsMap.get?_set, if_neg hmain]
    rfl
  · cases hlabel : state.labels.get? entry.id with
    | some text => exact hdone₄ (entry.id, text) (mem_labelsOf.mpr ⟨⟨entry, hentry, rfl⟩, hlabel⟩)
    | none =>
      have hmis : entry.id ∉ (labelsOf state copied).map Prod.fst := by
        intro hmem
        obtain ⟨label, hmem, hid⟩ := mem_map.mp hmem
        have hfound := (mem_labelsOf.mp hmem).2
        rw [hid, hlabel] at hfound
        cases hfound
      rw [hother₄ _ hmis, hlab₃, hlab₂, hlab₁]
      rfl

omit [Addition] in
theorem forkOf {state forked : SessionState} {accepted : List SessionMutation} (hinv : Invariant state accepted)
    {copied : List Entry} {lanes : List LanePointer} (hsel : Selected state copied lanes)
    (hrep : Replayed copied forked) (hname : forked.name = state.name)
    (hlab : ∀ entry ∈ copied, forked.labels.get? entry.id = state.labels.get? entry.id) {options : ForkOptions}
    (hmain : match options with
      | .tree => forked.requireLane (js "main") = state.requireLane (js "main")
      | .branch entryId position => ∃ targetId, state.forkTarget entryId position = .ok targetId ∧
          forked.requireLane (js "main") = .ok targetId)
    (hleaf : ∀ id, forked.requireLane (js "main") = .ok (some id) → ∃ entry ∈ copied, entry.id = id)
    (htree : options = .tree → (∀ lane, forked.lanes.get? lane = state.lanes.get? lane) ∧
      forked.entries.map unnumbered = state.entries.map unnumbered) : ForkOf state options forked where
  name := hname
  labels entry hentry := by
    rw [hrep.entries] at hentry
    obtain ⟨source, hsrc, hid, -⟩ := mem_renumber hentry
    exact hid ▸ hlab source hsrc
  branches entry hentry query bounds hlimit hcur := by
    obtain ⟨_, hfor⟩ := hrep.invariant
    have hsour : ∀ entry ∈ forked.entries, ∃ source ∈ state.entries, unnumbered source = unnumbered entry := by
      intro entry hentry
      have hmem : unnumbered entry ∈ forked.entries.map unnumbered := mem_map_of_mem hentry
      rw [hrep.entries, map_unnumbered_renumber] at hmem
      obtain ⟨source, hsrc, hsame⟩ := mem_map.mp hmem
      exact ⟨source, hsel.subset source hsrc, hsame⟩
    obtain ⟨source, hsrc, hsame⟩ := hsour entry hentry
    have hid : (unnumbered source).id = (unnumbered entry).id := congrArg (fun entry : Entry => entry.id) hsame
    have hid : source.id = entry.id := hid
    have hvalid : assertValidCursor query.cursor = .ok () := by rw [hcur]; rfl
    obtain ⟨path, hpath⟩ := hinv.rooted.exists_path hsrc
    obtain ⟨other, hother⟩ := hfor.rooted.exists_path hentry
    have hfound := findEntriesOnBranch_memory hinv.rooted hinv.byId hlimit hvalid bounds hsrc hpath
    have hcopy := findEntriesOnBranch_memory hfor.rooted hfor.byId hlimit hvalid bounds hentry hother
    rw [hid] at hfound
    refine ⟨_, _, hfound, hcopy, ?_⟩
    have hpath : entryLinks.RootPath state.entries (some entry.id) path := hid ▸ hpath
    rw [← collect_unnumbered hcur, ← walked_unnumbered, path_unnumbered hinv.rooted hsour hpath hother,
      walked_unnumbered, collect_unnumbered hcur]
  main := hmain
  leaf id hid := by
    obtain ⟨entry, hentry, hsame⟩ := renumber_leaf (hleaf id hid)
    exact ⟨entry, hrep.entries ▸ hentry, hsame⟩
  tree := htree

/-- For every session and every fork it offers: an empty session takes the mutations of the fork one after the
other, and then it is a fork of the session. -/
theorem forks_replay (mutations : List SessionMutation) (options : ForkOptions) (fork : List SessionMutation)
    (hfork : (SessionState.initial.offerAll mutations).1.createForkMutations options = .ok fork) :
    ∃ forked, SessionState.initial.offerAll fork = (forked, fork) ∧
      ForkOf (SessionState.initial.offerAll mutations).1 options forked := by
  have hinv := offerAll_invariant mutations invariant_initial
  have hmain : (SessionState.initial.offerAll mutations).1.lanes.has (js "main") = true :=
    offerAll_lanes rfl mutations
  generalize (SessionState.initial.offerAll mutations).1 = state at hfork hinv hmain ⊢
  obtain ⟨⟨copied, lanes⟩, hselec, -⟩ := bind_eq_ok.mp hfork
  cases options with
  | tree =>
    obtain ⟨htree, hsel⟩ := selected_tree hinv hmain
    obtain ⟨forked, hall, hrep, hname, hdone, hother, hlab⟩ := replay_selected hsel htree hfork
    have hlane : ∀ lane, forked.lanes.get? lane = state.lanes.get? lane := by
      intro lane
      cases hget : state.lanes.get? lane with
      | some leafId =>
        exact hdone ⟨lane, leafId⟩ (mem_map.mpr ⟨(lane, leafId), JsMap.get?_eq_some.mp hget, rfl⟩)
      | none =>
        refine hother lane fun hmem => ?_
        obtain ⟨pointer, hpoin, rfl⟩ := mem_map.mp hmem
        obtain ⟨⟨lane, leafId⟩, hentry, rfl⟩ := mem_map.mp hpoin
        rw [JsMap.get?_eq_some.mpr hentry] at hget
        exact nomatch hget
    refine ⟨forked, offerAll_of_appliesAll hall, forkOf hinv hsel hrep hname hlab ?_ ?_ ?_⟩
    · rw [SessionState.requireLane, SessionState.requireLane, hlane]
    · intro id hid
      rw [requireLane_eq, hlane] at hid
      exact hinv.leaves _ id hid
    · exact fun _ => ⟨hlane, by rw [hrep.entries, map_unnumbered_renumber]⟩
  | branch entryId position =>
    obtain ⟨targetId, htgt, rfl, hsel⟩ := selected_branch hinv hselec
    obtain ⟨forked, hall, hrep, hname, hdone, -, hlab⟩ := replay_selected hsel hselec hfork
    have hlane := hdone _ (mem_singleton_self _)
    refine ⟨forked, offerAll_of_appliesAll hall, forkOf hinv hsel hrep hname hlab ?_ ?_ ?_⟩
    · exact ⟨targetId, htgt, requireLane_eq.mpr hlane⟩
    · intro id hid
      rw [requireLane_eq, hlane] at hid
      exact hsel.leaves _ (mem_singleton_self _) id (Option.some.inj hid)
    · exact fun htree => nomatch htree

end Replay

section Samples

local instance forkAddition : Addition := integerAddition

/-- A message, a labelled message behind it, and a name. -/
def sampleSource : List SessionMutation :=
  let payload : Payload :=
    ⟨[(js "message", .object [(js "role", .string (js "user"))])], by decide +kernel, by decide +kernel⟩
  [.entry (some (js "main")) ⟨⟨.message, js "a", payload, by decide +kernel⟩, none, 1, 0⟩,
    .entry (some (js "main")) ⟨⟨.message, js "b", payload, by decide +kernel⟩, some (js "a"), 2, 0⟩,
    .label 3 (js "a") (some (js "start")), .name 4 (some (js "talk"))]

/-- The fork before the second message: the first one, the main lane at it, the name and the label. -/
def sampleFork : List SessionMutation :=
  let payload : Payload :=
    ⟨[(js "message", .object [(js "role", .string (js "user"))])], by decide +kernel, by decide +kernel⟩
  [.entry none ⟨⟨.message, js "a", payload, by decide +kernel⟩, none, 1, 0⟩, .lane 2 (js "main") (some (js "a")),
    .name 3 (some (js "talk")), .label 4 (js "a") (some (js "start"))]

theorem forks_replay_sample :
    (SessionState.initial.offerAll sampleSource).1.createForkMutations (.branch (some (js "b")) none) = .ok sampleFork ∧
      ∃ forked, SessionState.initial.offerAll sampleFork = (forked, sampleFork) ∧
        ForkOf (SessionState.initial.offerAll sampleSource).1 (.branch (some (js "b")) none) forked :=
  have hfork : (SessionState.initial.offerAll sampleSource).1.createForkMutations (.branch (some (js "b")) none) =
    .ok sampleFork := by decide +kernel
  ⟨hfork, forks_replay sampleSource _ sampleFork hfork⟩

end Samples

end PiRp.Session

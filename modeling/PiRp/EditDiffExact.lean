import PiRp.EditDiffNormalize
import PiRp.Splicing

/-! Edits that are matched exactly. The matches are disjoint and replaced at once, in whichever order the edits
are given; but the count that is to make a match unique is taken in the normalized content, without the
occurrences that overlap others. -/

namespace PiRp.EditDiff

open List Sequenced JsStr Splicing
open Splicing (Range replaceAtOnce)
open Splicing.Range (Before Apart splice finish)

section Exact

variable [Nfkc] {content path : JsStr} {edits others : List Edit}

/-- No edit needs fuzzy matching. -/
def ExactOnly (content : JsStr) (edits : List Edit) : Prop :=
  ∀ edit ∈ edits, (fuzzyFindText content (normalizeEdit edit).oldText).usedFuzzyMatch = false

instance (content : JsStr) (edits : List Edit) : Decidable (ExactOnly content edits) :=
  inferInstanceAs (Decidable (∀ edit ∈ edits, _))

omit [Nfkc] in
/-- The range an edit replaces. -/
def rangeOf (content : JsStr) (edit : Edit) : Range UInt16 :=
  ⟨(indexOf (normalizeEdit edit).oldText content).getD 0, (normalizeEdit edit).oldText.length,
    (normalizeEdit edit).newText⟩

/-- An edit that is matched exactly and not counted twice. -/
def Matches (content : JsStr) (edit : Edit) : Prop :=
  (normalizeEdit edit).oldText ≠ [] ∧ (indexOf (normalizeEdit edit).oldText content).isSome = true ∧
    countOccurrences content (normalizeEdit edit).oldText ≤ 1

/-! ### Matching -/

theorem fuzzyFindText_exact {oldText : JsStr} (hexact : (fuzzyFindText content oldText).usedFuzzyMatch = false)
    (hfound : (fuzzyFindText content oldText).found = true) : ∃ index, indexOf oldText content = some index := by
  rw [fuzzyFindText] at hexact hfound
  cases hindex : indexOf oldText content with
  | some index => exact ⟨index, rfl⟩
  | none =>
    rw [hindex] at hexact hfound
    cases hfuzzy : indexOf (normalizeForFuzzyMatch oldText) (normalizeForFuzzyMatch content) with
    | none => simp only [hfuzzy] at hfound; exact nomatch hfound
    | some index => simp only [hfuzzy] at hexact; exact nomatch hexact

theorem matchEdit_eq_ok {edit : Edit} {editIndex total : Nat} {found : MatchedEdit}
    (hexact : (fuzzyFindText content edit.oldText).usedFuzzyMatch = false) :
    matchEdit content path total (edit, editIndex) = .ok found ↔
      ∃ index, indexOf edit.oldText content = some index ∧ countOccurrences content edit.oldText ≤ 1 ∧
        found = ⟨⟨index, edit.oldText.length, edit.newText⟩, editIndex⟩ := by
  rw [matchEdit]
  cases hfound : (fuzzyFindText content edit.oldText).found with
  | false =>
    rw [Bool.not_false, if_pos rfl]
    refine iff_of_false (fun herror => nomatch herror) ?_
    rintro ⟨index, hindex, -, -⟩
    rw [fuzzyFindText, hindex] at hfound
    exact nomatch hfound
  | true =>
    obtain ⟨index, hindex⟩ := fuzzyFindText_exact hexact hfound
    have hmatch : fuzzyFindText content edit.oldText = ⟨true, index, edit.oldText.length, false, content⟩ := by
      rw [fuzzyFindText, hindex]
    simp only [hmatch, hindex, Bool.not_true, Bool.false_eq_true, if_false, Option.some.injEq, exists_eq_left']
    by_cases hcount : countOccurrences content edit.oldText ≤ 1
    · rw [if_neg (not_lt.mpr hcount), Except.ok.injEq]
      simp only [hcount, true_and, eq_comm]
    · rw [if_pos (not_le.mp hcount)]
      exact iff_of_false (fun herror => nomatch herror) fun hall => hcount hall.1

omit [Nfkc] in
/-- The range of a matched edit. -/
def MatchedEdit.range (edit : MatchedEdit) : Range UInt16 := ⟨edit.matchIndex, edit.matchLength, edit.newText⟩

theorem matches_of_mapM {found : List MatchedEdit} {total offset : Nat} (hexact : ExactOnly content edits)
    (hne : ∀ edit ∈ edits, (normalizeEdit edit).oldText ≠ [])
    (hfound : ((edits.map normalizeEdit).zipIdx offset).mapM (matchEdit content path total) = .ok found) :
    (∀ edit ∈ edits, Matches content edit) ∧ found.map MatchedEdit.range = edits.map (rangeOf content) := by
  rw [mapM_eq_ok] at hfound
  induction edits generalizing found offset with
  | nil =>
    cases hfound
    exact ⟨fun _ hedit => absurd hedit not_mem_nil, rfl⟩
  | cons edit rest ih =>
    rw [map_cons, zipIdx_cons] at hfound
    obtain ⟨hexact, hexac⟩ := forall_mem_cons.mp hexact
    obtain ⟨hne, hnes⟩ := forall_mem_cons.mp hne
    cases hfound with
    | cons hfirst hoth =>
      obtain ⟨index, hindex, hcount, rfl⟩ := (matchEdit_eq_ok hexact).mp hfirst
      obtain ⟨hmat, hran⟩ := ih hexac hnes hoth
      refine ⟨forall_mem_cons.mpr ⟨⟨hne, hindex ▸ rfl, hcount⟩, hmat⟩, ?_⟩
      rw [map_cons, map_cons, hran, rangeOf, hindex]
      rfl

theorem mapM_of_matches (path : JsStr) (total offset : Nat) (hexact : ExactOnly content edits)
    (hmat : ∀ edit ∈ edits, Matches content edit) :
    ∃ found, ((edits.map normalizeEdit).zipIdx offset).mapM (matchEdit content path total) = .ok found := by
  simp only [mapM_eq_ok]
  induction edits generalizing offset with
  | nil => exact ⟨[], .nil⟩
  | cons edit rest ih =>
    obtain ⟨hexact, hexac⟩ := forall_mem_cons.mp hexact
    obtain ⟨⟨-, hfound, hcount⟩, hmat⟩ := forall_mem_cons.mp hmat
    obtain ⟨index, hindex⟩ := Option.isSome_iff_exists.mp hfound
    obtain ⟨found, hrest⟩ := ih (offset + 1) hexac hmat
    exact ⟨_ :: found, .cons ((matchEdit_eq_ok hexact).mpr ⟨index, hindex, hcount, rfl⟩) hrest⟩

/-! ### Ranges -/

omit [Nfkc] in
theorem checkOverlaps_eq_ok {matched : List MatchedEdit} :
    checkOverlaps path matched = .ok () ↔ (matched.map MatchedEdit.range).IsChain Before := by
  induction matched with
  | nil => exact iff_of_true rfl .nil
  | cons previous rest ih =>
    cases rest with
    | nil => exact iff_of_true rfl (.singleton _)
    | cons current rest =>
      rw [checkOverlaps, map_cons, map_cons, isChain_cons_cons, ← map_cons, ← ih]
      have hbef : Before previous.range current.range ↔
          ¬ current.matchIndex < previous.matchIndex + previous.matchLength := Nat.not_lt.symm
      rw [hbef]
      split_ifs with hover
      · exact iff_of_false (fun herror => nomatch herror) fun hboth => hboth.1 hover
      · exact (and_iff_right hover).symm

omit [Nfkc] in
theorem applyReplacements_eq (matched : List MatchedEdit) :
    applyReplacements content (matched.map MatchedEdit.toTextReplacement) 0 =
      (matched.map MatchedEdit.range).foldr splice content := by
  rw [applyReplacements, foldr_map, foldr_map]
  rfl

omit [Nfkc] in
theorem rangeOf_inside (hmat : ∀ edit ∈ edits, (normalizeEdit edit).oldText ≠ [] ∧
      (indexOf (normalizeEdit edit).oldText content).isSome = true) :
    ∀ range ∈ edits.map (rangeOf content), 0 < range.length ∧ range.finish ≤ content.length := by
  intro range hrange
  obtain ⟨edit, hedit, rfl⟩ := mem_map.mp hrange
  obtain ⟨hne, hfound⟩ := hmat edit hedit
  obtain ⟨index, hindex⟩ := Option.isSome_iff_exists.mp hfound
  refine ⟨length_pos_iff.mpr hne, ?_⟩
  rw [finish, rangeOf, hindex]
  exact (indexOf_eq_some hindex).length_le hne

section Sorted

variable {found : List MatchedEdit} {ranges : List (Range UInt16)}

omit [Nfkc] in
theorem sorted_perm (hfound : found.map MatchedEdit.range = ranges) :
    ((bySequence (fun edit : MatchedEdit => edit.matchIndex) found).map MatchedEdit.range).Perm ranges :=
  hfound ▸ (bySequence_perm _ found).map _

omit [Nfkc] in
theorem sorted_before_iff (hfound : found.map MatchedEdit.range = ranges) (hpos : ∀ range ∈ ranges, 0 < range.length) :
    ((bySequence (fun edit : MatchedEdit => edit.matchIndex) found).map MatchedEdit.range).Pairwise Before ↔
      ranges.Pairwise Apart := by
  have hperm := sorted_perm hfound
  have hsor : ((bySequence (fun edit : MatchedEdit => edit.matchIndex) found).map MatchedEdit.range).Pairwise
      fun first second => first.start ≤ second.start := pairwise_map.mpr (bySequence_sorted _ found)
  rw [pairwise_before_iff (fun range hrange => hpos range (hperm.mem_iff.mp hrange)) hsor]
  exact hperm.pairwise_iff Apart.symm

omit [Nfkc] in
theorem checkOverlaps_sorted (hfound : found.map MatchedEdit.range = ranges)
    (hpos : ∀ range ∈ ranges, 0 < range.length) :
    checkOverlaps path (bySequence (fun edit : MatchedEdit => edit.matchIndex) found) = .ok () ↔
      ranges.Pairwise Apart := by
  rw [checkOverlaps_eq_ok, isChain_iff_pairwise]
  exact sorted_before_iff hfound hpos

omit [Nfkc] in
theorem applyReplacements_sorted (hfound : found.map MatchedEdit.range = ranges)
    (hins : ∀ range ∈ ranges, 0 < range.length ∧ range.finish ≤ content.length) (hapart : ranges.Pairwise Apart) :
    applyReplacements content ((bySequence (fun edit : MatchedEdit => edit.matchIndex) found).map
      MatchedEdit.toTextReplacement) 0 = replaceAtOnce ranges content := by
  have hperm := sorted_perm hfound
  have hord := (sorted_before_iff hfound fun range hrange => (hins range hrange).1).mpr hapart
  have hins' := fun range hrange => hins range (hperm.mem_iff.mp hrange)
  rw [applyReplacements_eq, foldr_splice hord (fun range hrange => (hins' range hrange).1)
    (fun range hrange => (hins' range hrange).2) (fun range _ => Nat.zero_le range.start) (Nat.zero_le _),
    take_zero, nil_append]
  calc (positions 0 content.length).flatMap (emitted _ content)
    _ = replaceAtOnce _ content := by rw [positions, Nat.sub_zero, ← range_eq_range']; rfl
    _ = replaceAtOnce ranges content :=
        replaceAtOnce_perm hperm (fun range hrange => (hins' range hrange).1)
        ((hperm.pairwise_iff Apart.symm).mpr hapart) content

end Sorted

theorem applyEdits_eq_ok {result : AppliedEditsResult} (hexact : ExactOnly content edits) :
    applyEditsToNormalizedContent content edits path = .ok result ↔
      (∀ edit ∈ edits, Matches content edit) ∧ (edits.map (rangeOf content)).Pairwise Apart ∧
        replaceAtOnce (edits.map (rangeOf content)) content ≠ content ∧
        result = ⟨content, replaceAtOnce (edits.map (rangeOf content)) content⟩ := by
  have hfuzzy : ((edits.map normalizeEdit).map fun edit => fuzzyFindText content edit.oldText).any
      FuzzyMatchResult.usedFuzzyMatch = false := by
    rw [← Bool.not_eq_true, any_eq_true]
    rintro ⟨found, hfound, hused⟩
    rw [map_map] at hfound
    obtain ⟨edit, hedit, rfl⟩ := mem_map.mp hfound
    exact nomatch hused.symm.trans (hexact edit hedit)
  have hempty : (edits.map normalizeEdit).findIdx? (fun edit => edit.oldText.length = 0) = none ↔
      ∀ edit ∈ edits, (normalizeEdit edit).oldText ≠ [] := by
    rw [findIdx?_eq_none_iff]
    simp [length_eq_zero_iff]
  rw [applyEditsToNormalizedContent]
  cases hfirst : (edits.map normalizeEdit).findIdx? fun edit => edit.oldText.length = 0 with
  | some editIndex =>
    refine iff_of_false (fun herror => nomatch herror) fun hall => ?_
    have hnone := hempty.mpr fun edit hedit => (hall.1 edit hedit).1
    exact nomatch hfirst.symm.trans hnone
  | none =>
    have hne := hempty.mp hfirst
    simp only [hfuzzy, Bool.false_eq_true, if_false]
    constructor
    · intro hacc
      obtain ⟨found, hfound, hacc⟩ := bind_eq_ok.mp hacc
      obtain ⟨_, hchec, hacc⟩ := bind_eq_ok.mp hacc
      obtain ⟨hmat, hran⟩ := matches_of_mapM hexact hne hfound
      have hins := rangeOf_inside fun edit hedit => ⟨(hmat edit hedit).1, (hmat edit hedit).2.1⟩
      have hapart := (checkOverlaps_sorted hran fun range hrange => (hins range hrange).1).mp hchec
      rw [applyReplacements_sorted hran hins hapart, ok_bind] at hacc
      split_ifs at hacc with hsame
      exact ⟨hmat, hapart, Ne.symm hsame, (Except.ok.inj hacc).symm⟩
    · rintro ⟨hmat, hapart, hchg, rfl⟩
      obtain ⟨found, hfound⟩ := mapM_of_matches path (edits.map normalizeEdit).length 0 hexact hmat
      obtain ⟨-, hran⟩ := matches_of_mapM hexact hne hfound
      have hins := rangeOf_inside fun edit hedit => ⟨(hmat edit hedit).1, (hmat edit hedit).2.1⟩
      have hchec : checkOverlaps path (bySequence (fun edit : MatchedEdit => edit.matchIndex) found) = .ok () :=
        (checkOverlaps_sorted hran fun range hrange => (hins range hrange).1).mpr hapart
      rw [hfound, ok_bind, hchec, ok_bind, applyReplacements_sorted hran hins hapart, ok_bind, if_neg (Ne.symm hchg)]
      rfl

/-! ### What acceptance means -/

/-- Every edit replaces the one place where its text stands, all of them at once and in no particular order. -/
structure Unambiguous (content path : JsStr) (edits : List Edit) (newContent : JsStr) : Prop where
  unique : ∀ edit ∈ edits, ∃! position, OccursAt (normalizeEdit edit).oldText content position
  apart : (edits.map (rangeOf content)).Pairwise Apart
  atOnce : newContent = replaceAtOnce (edits.map (rangeOf content)) content
  unordered : ∀ others, others.Perm edits → ∃ result,
    applyEditsToNormalizedContent content others path = .ok result ∧ result.newContent = newContent

/-- Where a text stands twice, its normalized form is counted more than once. -/
def ShowsRepetition (content oldText : JsStr) : Prop :=
  Repeated oldText content →
    if normalizeForFuzzyMatch oldText = [] then 2 < (normalizeForFuzzyMatch content).length
    else Repeated (normalizeForFuzzyMatch oldText) (normalizeForFuzzyMatch content)

theorem one_lt_countOccurrences {oldText : JsStr} : 1 < countOccurrences content oldText ↔
    if normalizeForFuzzyMatch oldText = [] then 2 < (normalizeForFuzzyMatch content).length
    else Repeated (normalizeForFuzzyMatch oldText) (normalizeForFuzzyMatch content) := by
  rw [countOccurrences, splitBy]
  split_ifs with hempty
  · rw [length_map]
    omega
  · rw [← two_lt_length_splitGo hempty [], ← split]
    omega

theorem applyEdits_perm (hexact : ExactOnly content edits) (hperm : others.Perm edits)
    {result : AppliedEditsResult} (hacc : applyEditsToNormalizedContent content edits path = .ok result) :
    applyEditsToNormalizedContent content others path = .ok result := by
  obtain ⟨hmat, hapart, hchg, rfl⟩ := (applyEdits_eq_ok hexact).mp hacc
  have hins := rangeOf_inside fun edit hedit => ⟨(hmat edit hedit).1, (hmat edit hedit).2.1⟩
  have hran : (edits.map (rangeOf content)).Perm (others.map (rangeOf content)) := (hperm.map _).symm
  have hsame := replaceAtOnce_perm hran (fun range hrange => (hins range hrange).1) hapart content
  refine (applyEdits_eq_ok fun edit hedit => hexact edit (hperm.mem_iff.mp hedit)).mpr ⟨?_, ?_, ?_, ?_⟩
  · exact fun edit hedit => hmat edit (hperm.mem_iff.mp hedit)
  · exact (hran.pairwise_iff Apart.symm).mp hapart
  · exact hsame ▸ hchg
  · rw [hsame]

/-- **When accepted exact edits are unambiguous**: when no text overlaps itself in the content and normalization
hides no repetition. That they are disjoint, replaced at once and in any order holds always. -/
theorem applyEdits_unambiguous_iff {result : AppliedEditsResult} (hexact : ExactOnly content edits)
    (hacc : applyEditsToNormalizedContent content edits path = .ok result) :
    Unambiguous content path edits result.newContent ↔
      ∀ edit ∈ edits, ¬ Overlapping (normalizeEdit edit).oldText content ∧
        ShowsRepetition content (normalizeEdit edit).oldText := by
  obtain ⟨hmat, hapart, -, hres⟩ := (applyEdits_eq_ok hexact).mp hacc
  have huniq : ∀ edit ∈ edits, (∃! position, OccursAt (normalizeEdit edit).oldText content position) ↔
      ¬ Overlapping (normalizeEdit edit).oldText content ∧ ShowsRepetition content (normalizeEdit edit).oldText := by
    intro edit hedit
    obtain ⟨hne, hfound, hcount⟩ := hmat edit hedit
    obtain ⟨index, hindex⟩ := Option.isSome_iff_exists.mp hfound
    have hhid : ShowsRepetition content (normalizeEdit edit).oldText ↔
        ¬ Repeated (normalizeEdit edit).oldText content := by
      rw [ShowsRepetition, ← one_lt_countOccurrences]
      exact imp_iff_not (not_lt.mpr hcount)
    rw [existsUnique_occursAt hne (indexOf_eq_some hindex), hhid]
  constructor
  · intro hunam edit hedit
    exact (huniq edit hedit).mp (hunam.unique edit hedit)
  · intro hshown
    exact {
      unique := fun edit hedit => (huniq edit hedit).mpr (hshown edit hedit)
      apart := hapart
      atOnce := congrArg AppliedEditsResult.newContent hres
      unordered := fun others hperm => ⟨result, applyEdits_perm hexact hperm hacc, rfl⟩ }

end Exact

section Samples

/-- NFKC on ASCII. -/
local instance asciiNfkc : Nfkc where
  normalize text := text

/-- An edit that is to replace the first of two overlapping occurrences. -/
def overlappingEdit : Edit := ⟨js "aa", js "b"⟩

theorem overlappingEdit_accepted :
    applyEditsToNormalizedContent (js "aaa") [overlappingEdit] (js "f") = .ok ⟨js "aaa", js "ba"⟩ := by
  decide +kernel

theorem overlappingEdit_exact : ExactOnly (js "aaa") [overlappingEdit] := by decide +kernel

/-- `aa` is accepted as unique in `aaa`. -/
theorem overlapping_accepted : ExactOnly (js "aaa") [overlappingEdit] ∧
    applyEditsToNormalizedContent (js "aaa") [overlappingEdit] (js "f") = .ok ⟨js "aaa", js "ba"⟩ ∧
    ¬ Unambiguous (js "aaa") (js "f") [overlappingEdit] (js "ba") := by
  refine ⟨overlappingEdit_exact, overlappingEdit_accepted, fun hunam => ?_⟩
  obtain ⟨only, -, honly⟩ := hunam.unique overlappingEdit mem_cons_self
  have hfirst : OccursAt (normalizeEdit overlappingEdit).oldText (js "aaa") 0 :=
    isPrefixOf_iff_prefix.mp (by decide +kernel)
  have hsnd : OccursAt (normalizeEdit overlappingEdit).oldText (js "aaa") 1 :=
    isPrefixOf_iff_prefix.mp (by decide +kernel)
  exact Nat.zero_ne_one ((honly 0 hfirst).trans (honly 1 hsnd).symm)

theorem applyEdits_unambiguous_iff_sample : Unambiguous (js "aaa") (js "f") [overlappingEdit] (js "ba") ↔
      ∀ edit ∈ [overlappingEdit], ¬ Overlapping (normalizeEdit edit).oldText (js "aaa") ∧
        ShowsRepetition (js "aaa") (normalizeEdit edit).oldText :=
  applyEdits_unambiguous_iff overlappingEdit_exact overlappingEdit_accepted

end Samples

end PiRp.EditDiff

import PiRp.EditDiffBlocks
import PiRp.EditDiffLines

/-! Edits of which one needs fuzzy matching. All of them are matched in the normalized content, and the lines that no
match touches are the original's. -/

namespace PiRp.EditDiff

open List Sequenced JsStr
open Splicing (Range replaceAtOnce emitted emitted_perm positions)
open Splicing.Range (Before Apart finish)

section Fuzzy

variable [Nfkc] {content path : JsStr} {edits : List Edit}

/-- An edit needs fuzzy matching. -/
def NeedsFuzzy (content : JsStr) (edits : List Edit) : Prop :=
  ∃ edit ∈ edits, (fuzzyFindText content (normalizeEdit edit).oldText).usedFuzzyMatch = true

instance (content : JsStr) (edits : List Edit) : Decidable (NeedsFuzzy content edits) :=
  inferInstanceAs (Decidable (∃ edit ∈ edits, _))

/-- The range that an edit replaces in the normalized content. -/
def matchOf (base : JsStr) (edit : Edit) : Range UInt16 :=
  let found := fuzzyFindText base (normalizeEdit edit).oldText
  ⟨found.index, found.matchLength, (normalizeEdit edit).newText⟩

/-- The edit's text, normalized, is not empty and stands once in the normalized content. -/
def MatchedOnce (content : JsStr) (edit : Edit) : Prop :=
  let oldText := normalizeForFuzzyMatch (normalizeEdit edit).oldText
  oldText ≠ [] ∧ ∃! position, OccursAt oldText (normalizeForFuzzyMatch content) position

/-! ### Matching -/

omit [Nfkc] in
theorem indexOf_isSome {word text : JsStr} {position : Nat} (hocc : OccursAt word text position) :
    (indexOf word text).isSome = true := by
  induction text generalizing position with
  | nil =>
    rw [OccursAt, drop_nil, prefix_nil] at hocc
    subst hocc
    rfl
  | cons unit rest ih =>
    rw [indexOf]
    split_ifs with hstar
    · rfl
    · cases position with
      | zero => exact absurd ( isPrefixOf_iff_prefix.mpr hocc) hstar
      | succ position =>
        rw [Option.isSome_map]
        exact ih hocc

section Matching

variable [LawfulNfkc] {edit : Edit}

section

variable (honce : MatchedOnce content edit)

include honce

theorem MatchedOnce.oldText_ne_nil : (normalizeEdit edit).oldText ≠ [] := by
  intro hnil
  exact honce.1 (by rw [hnil, normalizeForFuzzyMatch_nil])

theorem MatchedOnce.found :
    (fuzzyFindText (normalizeForFuzzyMatch content) (normalizeEdit edit).oldText).found = true ∧
      0 < (matchOf (normalizeForFuzzyMatch content) edit).length ∧
      (matchOf (normalizeForFuzzyMatch content) edit).finish ≤ (normalizeForFuzzyMatch content).length := by
  have hraw := honce.oldText_ne_nil
  obtain ⟨hne, position, hocc, -⟩ := honce
  rw [matchOf, fuzzyFindText, finish]
  cases hexact : indexOf (normalizeEdit edit).oldText (normalizeForFuzzyMatch content) with
  | some index => exact ⟨rfl, length_pos_iff.mpr hraw, (indexOf_eq_some hexact).length_le hraw⟩
  | none =>
    simp only [normalizeForFuzzyMatch_idem]
    obtain ⟨index, hindex⟩ := Option.isSome_iff_exists.mp (indexOf_isSome hocc)
    rw [hindex]
    exact ⟨rfl, length_pos_iff.mpr hne, (indexOf_eq_some hindex).length_le hne⟩

theorem MatchedOnce.countOccurrences_le :
    countOccurrences (normalizeForFuzzyMatch content) (normalizeEdit edit).oldText ≤ 1 := by
  by_contra hmany
  have hrep := one_lt_countOccurrences.mp (not_le.mp hmany)
  rw [if_neg honce.1, normalizeForFuzzyMatch_idem] at hrep
  obtain ⟨first, second, hlt, hfirst, hsnd⟩ := hrep.twice honce.1
  exact hlt.ne (honce.2.unique hfirst hsnd)

end

theorem mapM_matchEdit (path : JsStr) (total start : Nat) (honce : ∀ edit ∈ edits, MatchedOnce content edit) :
    ∃ found, ((edits.map normalizeEdit).zipIdx start).mapM (matchEdit (normalizeForFuzzyMatch content) path total) =
        .ok found ∧ found.map MatchedEdit.range = edits.map (matchOf (normalizeForFuzzyMatch content)) := by
  simp only [mapM_eq_ok]
  induction edits generalizing start with
  | nil => exact ⟨[], .nil, rfl⟩
  | cons edit rest ih =>
    obtain ⟨hfirst, hoth⟩ := forall_mem_cons.mp honce
    obtain ⟨found, hrest, hran⟩ := ih (start + 1) hoth
    have hmatch : matchEdit (normalizeForFuzzyMatch content) path total (normalizeEdit edit, start) =
        .ok ⟨⟨(matchOf (normalizeForFuzzyMatch content) edit).start,
          (matchOf (normalizeForFuzzyMatch content) edit).length, (normalizeEdit edit).newText⟩, start⟩ := by
      rw [matchEdit, hfirst.found.1]
      simp only [Bool.not_true, Bool.false_eq_true, if_false]
      rw [if_neg (not_lt.mpr hfirst.countOccurrences_le)]
      rfl
    refine ⟨_ :: found, .cons hmatch hrest, ?_⟩
    rw [map_cons, map_cons, hran]
    rfl

end Matching

/-! ### What the edits give -/

/-- The lines of the original, where no match touches the line of the normalized content that it became. -/
def overlaid (content : JsStr) (edits : List Edit) (kept : List JsStr) : JsStr :=
  let base := normalizeForFuzzyMatch content
  assembled (splitLinesWithEndings base) (edits.map (matchOf base)) kept
    (List.range (splitLinesWithEndings content).length)

/-- Lines that no match touches keep their bytes and their order; and when they are normalized, what is there is the
normalized content with all matches replaced. -/
structure KeepsLines (content path : JsStr) (edits : List Edit) (newContent : JsStr) : Prop where
  accepted : applyEditsToNormalizedContent content edits path =
    if content = newContent then .error (getNoChangeError path edits.length) else .ok ⟨content, newContent⟩
  kept : newContent = overlaid content edits (splitLinesWithEndings content)
  normalized : overlaid content edits ((splitLinesWithEndings content).map normalizeForFuzzyMatch) =
    replaceAtOnce (edits.map (matchOf (normalizeForFuzzyMatch content))) (normalizeForFuzzyMatch content)

/-- Something is left of every line when it is normalized. Only a last line without a line feed can vanish. -/
def NoLineVanishes (content : JsStr) : Prop :=
  ∀ line ∈ splitLinesWithEndings content, normalizeForFuzzyMatch line ≠ []

instance (content : JsStr) : Decidable (NoLineVanishes content) :=
  inferInstanceAs (Decidable (∀ line ∈ splitLinesWithEndings content, _))

omit [Nfkc] in
theorem assembled_perm {lines kept : List JsStr} {ranges others : List (Range UInt16)} (hperm : ranges.Perm others)
    (hpos : ∀ range ∈ ranges, 0 < range.length) (hapart : ranges.Pairwise Apart) (order : List Nat) :
    assembled lines ranges kept order = assembled lines others kept order := by
  refine flatMap_congr fun line _ => ?_
  have htouc : (∃ range ∈ ranges, Touches lines line range) ↔ ∃ range ∈ others, Touches lines line range :=
    exists_congr fun range => and_congr_left' hperm.mem_iff
  have hwrt : written lines ranges line = written lines others line :=
    flatMap_congr fun position _ => emitted_perm hperm hpos hapart _ position
  simp only [htouc, hwrt]

section Applied

variable [LawfulNfkc] (hfuzzy : NeedsFuzzy content edits) (honce : ∀ edit ∈ edits, MatchedOnce content edit)
  (hapart : (edits.map (matchOf (normalizeForFuzzyMatch content))).Pairwise Apart)

include hfuzzy honce hapart

theorem applyEdits_eq (path : JsStr) : ∃ replacements : List TextReplacement,
      (replacements.map TextReplacement.range).Perm (edits.map (matchOf (normalizeForFuzzyMatch content))) ∧
      (replacements.map TextReplacement.range).Pairwise Before ∧ applyEditsToNormalizedContent content edits path =
        (do
          let newContent ← applyReplacementsPreservingUnchangedLines content (normalizeForFuzzyMatch content)
            replacements
          if content = newContent then .error (getNoChangeError path edits.length)
          else return ⟨content, newContent⟩) := by
  obtain ⟨found, hfound, hran⟩ := mapM_matchEdit path edits.length 0 honce
  have hpos : ∀ range ∈ edits.map (matchOf (normalizeForFuzzyMatch content)), 0 < range.length :=
    forall_mem_map.mpr fun edit hedit => (honce edit hedit).found.2.1
  have hchec := (@checkOverlaps_sorted path _ _ hran hpos).mpr hapart
  have hord := (sorted_before_iff hran hpos).mpr hapart
  have hperm := sorted_perm hran
  have hreplac : ((bySequence (fun edit : MatchedEdit => edit.matchIndex) found).map
      MatchedEdit.toTextReplacement).map TextReplacement.range =
      (bySequence (fun edit : MatchedEdit => edit.matchIndex) found).map MatchedEdit.range := by
    rw [map_map]
    rfl
  have hempty : (edits.map normalizeEdit).findIdx? (fun edit => edit.oldText.length = 0) = none := by
    rw [findIdx?_eq_none_iff]
    refine forall_mem_map.mpr fun edit hedit => decide_eq_false fun hlen => ?_
    exact (honce edit hedit).oldText_ne_nil (length_eq_zero_iff.mp hlen)
  have hused : ((edits.map normalizeEdit).map fun edit => fuzzyFindText content edit.oldText).any
      FuzzyMatchResult.usedFuzzyMatch = true := by
    obtain ⟨edit, hedit, hused⟩ := hfuzzy
    rw [map_map]
    exact any_eq_true.mpr ⟨_, mem_map_of_mem hedit, hused⟩
  refine ⟨_, hreplac ▸ hperm, hreplac ▸ hord, ?_⟩
  rw [applyEditsToNormalizedContent, hempty]
  simp only [hused, if_true, length_map]
  rw [hfound, ok_bind, hchec, ok_bind]

end Applied

omit [Nfkc] in
theorem getNoChangeError_ne (path : JsStr) (totalEdits : Nat) : getNoChangeError path totalEdits ≠
      js "Cannot preserve unchanged lines because the base content has a different line count." := by
  have hfirst : (getNoChangeError path totalEdits).head? = some 0x4E := by
    rw [getNoChangeError]
    split <;> rfl
  intro heq
  rw [heq] at hfirst
  exact absurd hfirst (by decide)

omit [Nfkc] in
theorem positions_zero (stop : Nat) : positions 0 stop = List.range stop := by
  rw [positions, Nat.sub_zero, range_eq_range']

section Lines

variable [LawfulNfkc]

theorem splitLines_of_noLineVanishes (hlines : NoLineVanishes content) :
    splitLinesWithEndings (normalizeForFuzzyMatch content) =
      (splitLinesWithEndings content).map normalizeForFuzzyMatch := by
  rw [splitLines_normalize, filter_eq_self]
  exact forall_mem_map.mpr fun line hline => decide_eq_true (hlines line hline)

theorem length_splitLines_eq_iff :
    (splitLinesWithEndings content).length = (splitLinesWithEndings (normalizeForFuzzyMatch content)).length ↔
      NoLineVanishes content := by
  constructor
  · intro hlen
    have hall : (((splitLinesWithEndings content).map normalizeForFuzzyMatch).filter (· ≠ [])).length =
        ((splitLinesWithEndings content).map normalizeForFuzzyMatch).length := by
      rw [← splitLines_normalize, ← hlen, length_map]
    intro line hline
    exact of_decide_eq_true (length_filter_eq_length_iff.mp hall _ (mem_map_of_mem hline))
  · intro hlines
    rw [splitLines_of_noLineVanishes hlines, length_map]

end Lines

/-- Fuzzy edits keep the lines that no match touches, exactly when normalizing makes no line vanish. -/
theorem applyEdits_keepsLines_iff [LawfulNfkc] (path : JsStr) (hfuzzy : NeedsFuzzy content edits)
    (honce : ∀ edit ∈ edits, MatchedOnce content edit)
    (hapart : (edits.map (matchOf (normalizeForFuzzyMatch content))).Pairwise Apart) :
    (∃ newContent, KeepsLines content path edits newContent) ↔ NoLineVanishes content := by
  obtain ⟨replacements, hperm, hord, happ⟩ := applyEdits_eq hfuzzy honce hapart path
  constructor
  · rintro ⟨newContent, hacc, -, -⟩
    by_contra hvanishes
    have hfail : applyReplacementsPreservingUnchangedLines content (normalizeForFuzzyMatch content) replacements =
        .error (js "Cannot preserve unchanged lines because the base content has a different line count.") := by
      rw [applyReplacementsPreservingUnchangedLines]
      simp only [getLineSpans, length_spansFrom]
      exact if_pos (length_splitLines_eq_iff.not.mpr hvanishes)
    rw [happ, hfail, error_bind] at hacc
    split_ifs at hacc
    exact getNoChangeError_ne path edits.length (Except.error.inj hacc).symm
  · intro hlines
    have hran : ∀ range ∈ replacements.map TextReplacement.range,
        0 < range.length ∧ range.finish ≤ (normalizeForFuzzyMatch content).length := by
      intro range hrange
      obtain ⟨edit, hedit, rfl⟩ := mem_map.mp (hperm.mem_iff.mp hrange)
      exact (honce edit hedit).found.2
    have hpos : ∀ range ∈ edits.map (matchOf (normalizeForFuzzyMatch content)), 0 < range.length := fun range hrange =>
      (hran range (hperm.mem_iff.mpr hrange)).1
    have hlen := length_splitLines_eq_iff.mpr hlines
    have hnew := applyReplacementsPreservingUnchangedLines_eq hlen (flatten_splitLines _) hord
      (fun replacement hrepl => (hran _ (mem_map_of_mem hrepl)).1)
      (fun replacement hrepl => (hran _ (mem_map_of_mem hrepl)).2)
    have hover : overlaid content edits (splitLinesWithEndings content) =
        assembled (splitLinesWithEndings (normalizeForFuzzyMatch content)) (replacements.map TextReplacement.range)
          (splitLinesWithEndings content)
          (positions 0 (splitLinesWithEndings (normalizeForFuzzyMatch content)).length) := by
      rw [assembled_perm hperm fun range hrange => (hran range hrange).1]
      · rw [overlaid, positions_zero, hlen]
      · exact hord.imp Or.inl
    refine ⟨overlaid content edits (splitLinesWithEndings content), ?_, rfl, ?_⟩
    · rw [happ, hnew, ok_bind, ← hover]
      rfl
    · have hself := @assembled_self (splitLinesWithEndings (normalizeForFuzzyMatch content)) _ hpos
      rw [flatten_splitLines, positions_zero, positions_zero] at hself
      rw [overlaid, hlen, ← splitLines_of_noLineVanishes hlines]
      exact hself

end Fuzzy

section Samples

/-- NFKC on texts that it leaves as they are: ASCII and quotation marks. -/
local instance plainNfkc : Nfkc where
  normalize text := text

local instance lawfulPlainNfkc : LawfulNfkc where
  normalize_nil := rfl
  normalize_normalize _ := rfl
  normalize_infix _ _ := rfl
  normalize_boundary _ _ _ := rfl
  lineFeed_mem := id

/-- An edit in straight quotes for a content in smart ones. -/
def quotedEdit : Edit := ⟨js "\"x\"", js "y"⟩

theorem quotedEdit_matchedOnce {content : JsStr}
    (hall : ∀ position ≤ (normalizeForFuzzyMatch content).length, (normalizeForFuzzyMatch (js "\"x\"")).isPrefixOf
      ((normalizeForFuzzyMatch content).drop position) = true ↔ position = 0) :
    ∀ edit ∈ [quotedEdit], MatchedOnce content edit := by
  rw [forall_mem_singleton]
  have hne : normalizeForFuzzyMatch (normalizeEdit quotedEdit).oldText ≠ [] := by decide +kernel
  refine ⟨hne, 0, isPrefixOf_iff_prefix.mp ((hall 0 (Nat.zero_le _)).mpr rfl), fun position hocc => ?_⟩
  have hlen := OccursAt.length_le hocc hne
  exact (hall position (by omega)).mp ( isPrefixOf_iff_prefix.mpr hocc)

theorem applyEdits_keepsLines_iff_sample :
    (∃ newContent, KeepsLines (js "“x”\nkeep \n") (js "f") [quotedEdit] newContent) ↔
      NoLineVanishes (js "“x”\nkeep \n") :=
  applyEdits_keepsLines_iff (js "f") (by decide +kernel) (quotedEdit_matchedOnce (by decide +kernel))
    (pairwise_singleton _ _)

/-- A last line of white space vanishes, and the edit fails. -/
theorem vanishing_line_fails : NeedsFuzzy (js "“x”\n ") [quotedEdit] ∧
    (∀ edit ∈ [quotedEdit], MatchedOnce (js "“x”\n ") edit) ∧
    ([quotedEdit].map (matchOf (normalizeForFuzzyMatch (js "“x”\n ")))).Pairwise Apart ∧
    ¬ ∃ newContent, KeepsLines (js "“x”\n ") (js "f") [quotedEdit] newContent := by
  refine ⟨by decide +kernel, quotedEdit_matchedOnce (by decide +kernel), pairwise_singleton _ _, ?_⟩
  rintro ⟨newContent, hacc, -, -⟩
  have hfail : applyEditsToNormalizedContent (js "“x”\n ") [quotedEdit] (js "f") =
      .error (js "Cannot preserve unchanged lines because the base content has a different line count.") := by
    decide +kernel
  rw [hfail] at hacc
  split_ifs at hacc
  exact getNoChangeError_ne (js "f") 1 (Except.error.inj hacc).symm

end Samples

end PiRp.EditDiff

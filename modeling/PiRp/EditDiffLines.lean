import PiRp.EditDiffNormalize

/-! The normalization for fuzzy matching line by line. It keeps the lines of a content, except that a last line that
nothing is left of is no longer one, and normalizing again changes nothing. -/

namespace PiRp.EditDiff

open List JsStr Bool

/-- Units that neither change under NFKC nor combine with what stands beside them: the line feed, and what the
character classes are replaced by. -/
def boundaries : List UInt16 := [0x0A, 0x20, 0x22, 0x27, 0x2D]

/-- What Unicode promises about NFKC. -/
class LawfulNfkc [Nfkc] : Prop where
  normalize_nil : Nfkc.normalize [] = []
  normalize_normalize (text : JsStr) : Nfkc.normalize (Nfkc.normalize text) = Nfkc.normalize text
  /-- a part of a normalized text is normalized -/
  normalize_infix {text part : JsStr} : Nfkc.normalize text = text → part <:+: text → Nfkc.normalize part = part
  normalize_boundary {unit : UInt16} (front rest : JsStr) : unit ∈ boundaries →
    Nfkc.normalize (front ++ unit :: rest) = Nfkc.normalize front ++ unit :: Nfkc.normalize rest
  /-- no character decomposes into line feeds -/
  lineFeed_mem {text : JsStr} : lineFeed ∈ Nfkc.normalize text → lineFeed ∈ text

/-! ### Units -/

theorem plainUnit_eq (unit : UInt16) : plainUnit unit = if smartSingleQuotes.contains unit then 0x27
    else if smartDoubleQuotes.contains unit then 0x22 else if dashes.contains unit then 0x2D
    else if isSpecialSpace unit then 0x20 else unit := by
  unfold plainUnit
  by_cases hsin : smartSingleQuotes.contains unit = true
  · simp only [hsin, if_true]
    rfl
  · by_cases hdoub : smartDoubleQuotes.contains unit = true
    · simp only [hsin, hdoub, if_true, false_eq_true, if_false]
      rfl
    · by_cases hdash : dashes.contains unit = true
      · simp only [hsin, hdoub, hdash, if_true, false_eq_true, if_false]
        rfl
      · simp only [hsin, hdoub, hdash, false_eq_true, if_false]

theorem plainUnit_cases (unit : UInt16) :
    plainUnit unit = unit ∨ plainUnit unit ∈ boundaries ∧ plainUnit unit ≠ lineFeed := by
  rw [plainUnit_eq]
  split_ifs
  · exact .inr (by decide)
  · exact .inr (by decide)
  · exact .inr (by decide)
  · exact .inr (by decide)
  · exact .inl rfl

theorem isWhitespace_of_special {unit : UInt16} (hspec : isSpecialSpace unit = true) : isWhitespace unit = true := by
  simp only [isSpecialSpace, or_eq_true, and_eq_true, decide_eq_true_eq, UInt16.le_iff_toNat_le] at hspec
  rcases hspec with (((rfl | ⟨hge, hle⟩) | rfl) | rfl) | rfl
  · rfl
  · have hge' : 0x2000 ≤ unit.toNat := le_trans (by decide) hge
    have hle' : unit.toNat ≤ 0x200A := hle
    simp only [isWhitespace, decide_eq_true hge', decide_eq_true hle', Bool.and_self, Bool.or_true, Bool.true_or]
  · rfl
  · rfl
  · rfl

theorem isWhitespace_plainUnit (unit : UInt16) : isWhitespace (plainUnit unit) = isWhitespace unit := by
  have hblack (quotes : List UInt16) (hall : quotes.any isWhitespace = false) (hmem : quotes.contains unit = true) :
      isWhitespace unit = false := eq_false_of_not_eq_true fun hwhit =>
    (any_eq_false.mp hall) unit (contains_iff_mem.mp hmem) hwhit
  rw [plainUnit_eq]
  split_ifs with hsin hdoub hdash hspec
  · exact (hblack smartSingleQuotes (by decide) hsin).symm
  · exact (hblack smartDoubleQuotes (by decide) hdoub).symm
  · exact (hblack dashes (by decide) hdash).symm
  · exact (isWhitespace_of_special hspec).symm
  · rfl

theorem plainUnit_plainUnit (unit : UInt16) : plainUnit (plainUnit unit) = plainUnit unit := by
  rcases plainUnit_cases unit with hsame | ⟨hboun, -⟩
  · rw [hsame, hsame]
  · have hfixed : boundaries.all (fun boundary => plainUnit boundary = boundary) = true := by decide
    exact of_decide_eq_true (all_eq_true.mp hfixed _ hboun)

theorem plainUnit_eq_lineFeed {unit : UInt16} : plainUnit unit = lineFeed ↔ unit = lineFeed := by
  constructor
  · intro hfeed
    rcases plainUnit_cases unit with hsame | ⟨-, hne⟩
    · rw [← hsame, hfeed]
    · exact absurd hfeed hne
  · rintro rfl
    rfl

/-! ### Stripping -/

theorem isTrailing_append_feed (text rest : JsStr) : isTrailing (text ++ lineFeed :: rest) = isTrailing text := by
  induction text with
  | nil => rfl
  | cons unit text ih => rw [cons_append, isTrailing, isTrailing, ih]

theorem stripLines_append_feed (text rest : JsStr) :
    stripLines (text ++ lineFeed :: rest) = stripLines text ++ lineFeed :: stripLines rest := by
  induction text with
  | nil =>
    have hkept : ¬ (lineFeed ≠ lineFeed ∧ isWhitespace lineFeed = true ∧ isTrailing rest = true) := fun h => h.1 rfl
    exact if_neg hkept
  | cons unit text ih =>
    rw [cons_append, stripLines, stripLines, isTrailing_append_feed, ih]
    split <;> rfl

theorem stripLines_sublist (text : JsStr) : (stripLines text).Sublist text := by
  induction text with
  | nil => exact List.Sublist.refl _
  | cons unit text ih =>
    rw [stripLines]
    split
    · exact ih.cons unit
    · exact ih.cons_cons unit

theorem stripLines_of_trailing {text : JsStr} (htrail : isTrailing text = true) (hfeed : lineFeed ∉ text) :
    stripLines text = [] := by
  induction text with
  | nil => rfl
  | cons unit text ih =>
    have hne : unit ≠ lineFeed := fun heq => hfeed (heq ▸ mem_cons_self)
    rw [isTrailing, decide_eq_false hne, Bool.false_or, and_eq_true] at htrail
    rw [stripLines, if_pos ⟨hne, htrail⟩, ih htrail.2 fun hmem => hfeed (mem_cons_of_mem _ hmem)]

theorem stripLines_isPrefix {text : JsStr} (hfeed : lineFeed ∉ text) : stripLines text <+: text := by
  induction text with
  | nil => exact prefix_refl _
  | cons unit text ih =>
    have hrest : lineFeed ∉ text := fun hmem => hfeed (mem_cons_of_mem _ hmem)
    rw [stripLines]
    split_ifs with hstr
    · rw [stripLines_of_trailing hstr.2.2 hrest]
      exact nil_prefix
    · exact (prefix_cons_inj unit).mpr (ih hrest)

theorem isTrailing_stripLines (text : JsStr) : isTrailing (stripLines text) = isTrailing text := by
  induction text with
  | nil => rfl
  | cons unit text ih =>
    rw [stripLines]
    split_ifs with hstr
    · rw [ih, isTrailing, hstr.2.1, hstr.2.2, Bool.and_self, Bool.or_true]
    · rw [isTrailing, isTrailing, ih]

theorem stripLines_stripLines (text : JsStr) : stripLines (stripLines text) = stripLines text := by
  induction text with
  | nil => rfl
  | cons unit text ih =>
    rw [stripLines]
    split_ifs with hstr
    · exact ih
    · rw [stripLines, isTrailing_stripLines, if_neg hstr, ih]

theorem isTrailing_map (text : JsStr) : isTrailing (text.map plainUnit) = isTrailing text := by
  induction text with
  | nil => rfl
  | cons unit text ih =>
    rw [map_cons, isTrailing, isTrailing, ih, isWhitespace_plainUnit, decide_eq_decide.mpr plainUnit_eq_lineFeed]

theorem stripLines_map (text : JsStr) : stripLines (text.map plainUnit) = (stripLines text).map plainUnit := by
  induction text with
  | nil => rfl
  | cons unit text ih =>
    rw [map_cons, stripLines, stripLines, isTrailing_map, isWhitespace_plainUnit, ih]
    simp only [ne_eq, plainUnit_eq_lineFeed]
    split <;> rfl

/-! ### Normal forms -/

section Normal

variable [Nfkc] [LawfulNfkc]

theorem normal_stripLines {text : JsStr} (hnor : Nfkc.normalize text = text) :
    Nfkc.normalize (stripLines text) = stripLines text := by
  induction hlength : text.length using Nat.strong_induction_on generalizing text with
  | _ length ih =>
    by_cases hfeed : lineFeed ∈ text
    · obtain ⟨front, rest, rfl, -⟩ := eq_append_cons_of_mem hfeed
      have hfront := LawfulNfkc.normalize_infix hnor (prefix_append front _).isInfix
      have hrest := @LawfulNfkc.normalize_infix _ _ _ rest hnor ⟨front ++ [lineFeed], [], by simp⟩
      rw [length_append, length_cons] at hlength
      rw [stripLines_append_feed, LawfulNfkc.normalize_boundary _ _ (by decide),
        ih front.length (by omega) hfront rfl, ih rest.length (by omega) hrest rfl]
    · exact LawfulNfkc.normalize_infix hnor (stripLines_isPrefix hfeed).isInfix

theorem normal_map {front text : JsStr} (hnor : Nfkc.normalize (front ++ text) = front ++ text) :
    Nfkc.normalize (front ++ text.map plainUnit) = front ++ text.map plainUnit := by
  induction text generalizing front with
  | nil => exact hnor
  | cons unit text ih =>
    rcases plainUnit_cases unit with hsame | ⟨hboun, -⟩
    · rw [map_cons, hsame, append_cons]
      rw [append_cons] at hnor
      exact ih hnor
    · have hfront := LawfulNfkc.normalize_infix hnor (prefix_append front _).isInfix
      have hrest := @LawfulNfkc.normalize_infix _ _ _ text hnor ⟨front ++ [unit], [], by simp⟩
      have hmap := @ih [] hrest
      rw [nil_append] at hmap
      rw [map_cons, LawfulNfkc.normalize_boundary _ _ hboun, hfront, hmap]

theorem normalizeForFuzzyMatch_idem (text : JsStr) :
    normalizeForFuzzyMatch (normalizeForFuzzyMatch text) = normalizeForFuzzyMatch text := by
  have hnor : Nfkc.normalize (normalizeForFuzzyMatch text) = normalizeForFuzzyMatch text := by
    rw [normalizeForFuzzyMatch_eq text]
    exact @normal_map _ _ [] _ (normal_stripLines (LawfulNfkc.normalize_normalize text))
  calc normalizeForFuzzyMatch (normalizeForFuzzyMatch text)
    _ = (stripLines (normalizeForFuzzyMatch text)).map plainUnit := by rw [normalizeForFuzzyMatch_eq, hnor]
    _ = ((stripLines (Nfkc.normalize text)).map plainUnit).map plainUnit := by
        rw [normalizeForFuzzyMatch_eq text, stripLines_map, stripLines_stripLines]
    _ = (stripLines (Nfkc.normalize text)).map plainUnit := by
        rw [map_map]
        simp only [Function.comp_def, plainUnit_plainUnit]
    _ = normalizeForFuzzyMatch text := (normalizeForFuzzyMatch_eq text).symm

theorem normalizeForFuzzyMatch_nil : normalizeForFuzzyMatch [] = [] := by
  rw [normalizeForFuzzyMatch_eq, LawfulNfkc.normalize_nil]
  rfl

theorem normalizeForFuzzyMatch_append_feed (front rest : JsStr) : normalizeForFuzzyMatch (front ++ lineFeed :: rest) =
      normalizeForFuzzyMatch front ++ lineFeed :: normalizeForFuzzyMatch rest := by
  rw [normalizeForFuzzyMatch_eq, normalizeForFuzzyMatch_eq, normalizeForFuzzyMatch_eq,
    LawfulNfkc.normalize_boundary _ _ (by decide), stripLines_append_feed, map_append, map_cons,
    plainUnit_eq_lineFeed.mpr rfl]

theorem lineFeed_notMem_normalize {text : JsStr} (hfeed : lineFeed ∉ text) :
    lineFeed ∉ normalizeForFuzzyMatch text := by
  rw [normalizeForFuzzyMatch_eq, mem_map]
  rintro ⟨unit, hunit, heq⟩
  rw [plainUnit_eq_lineFeed] at heq
  exact hfeed (LawfulNfkc.lineFeed_mem (heq ▸ (stripLines_sublist _).subset hunit))

end Normal

/-! ### Lines -/

theorem linesGo_append_feed (line : JsStr) {front : JsStr} (rest : JsStr) (hfeed : lineFeed ∉ front) :
    linesGo line (front ++ lineFeed :: rest) = (line ++ front ++ [lineFeed]) :: linesGo [] rest := by
  induction front generalizing line with
  | nil => rw [nil_append, linesGo, if_pos rfl, append_nil]
  | cons unit front ih =>
    have hne : unit ≠ lineFeed := fun heq => hfeed (heq ▸ mem_cons_self)
    rw [cons_append, linesGo, if_neg hne, ih _ fun hmem => hfeed (mem_cons_of_mem _ hmem),
      append_cons line unit front]

theorem linesGo_of_notMem (line : JsStr) {text : JsStr} (hfeed : lineFeed ∉ text) :
    linesGo line text = if line ++ text = [] then [] else [line ++ text] := by
  induction text generalizing line with
  | nil => rw [linesGo, append_nil]
  | cons unit text ih =>
    have hne : unit ≠ lineFeed := fun heq => hfeed (heq ▸ mem_cons_self)
    rw [linesGo, if_neg hne, ih _ fun hmem => hfeed (mem_cons_of_mem _ hmem), append_cons line unit text]

theorem flatten_linesGo (line text : JsStr) : (linesGo line text).flatten = line ++ text := by
  induction text generalizing line with
  | nil =>
    rw [linesGo]
    split_ifs with hempty
    · rw [hempty]
      rfl
    · simp
  | cons unit text ih =>
    rw [linesGo]
    split_ifs with hfeed
    · rw [flatten_cons, ih, nil_append, append_assoc]
      rfl
    · rw [ih, append_assoc]
      rfl

theorem flatten_splitLines (content : JsStr) : (splitLinesWithEndings content).flatten = content :=
  flatten_linesGo [] content

theorem splitLines_normalize [Nfkc] [LawfulNfkc] (content : JsStr) :
    splitLinesWithEndings (normalizeForFuzzyMatch content) =
      ((splitLinesWithEndings content).map normalizeForFuzzyMatch).filter (· ≠ []) := by
  induction hlength : content.length using Nat.strong_induction_on generalizing content with
  | _ length ih =>
    by_cases hfeed : lineFeed ∈ content
    · obtain ⟨front, rest, rfl, hfront⟩ := eq_append_cons_of_mem hfeed
      rw [length_append, length_cons] at hlength
      have hrest := ih rest.length (by omega) rest rfl
      have hline : normalizeForFuzzyMatch (front ++ [lineFeed]) = normalizeForFuzzyMatch front ++ [lineFeed] := by
        rw [normalizeForFuzzyMatch_append_feed, normalizeForFuzzyMatch_nil]
      rw [normalizeForFuzzyMatch_append_feed]
      unfold splitLinesWithEndings at hrest ⊢
      rw [linesGo_append_feed _ _ (lineFeed_notMem_normalize hfront), linesGo_append_feed _ _ hfront, hrest,
        nil_append, nil_append, map_cons, hline, filter_cons_of_pos (by simp)]
    · unfold splitLinesWithEndings
      rw [linesGo_of_notMem _ (lineFeed_notMem_normalize hfeed), linesGo_of_notMem _ hfeed, nil_append, nil_append]
      by_cases hempty : content = []
      · subst hempty
        rw [normalizeForFuzzyMatch_nil]
        rfl
      · rw [if_neg hempty, map_singleton, filter_singleton]
        by_cases hblank : normalizeForFuzzyMatch content = []
        · simp [hblank]
        · simp [hblank]

end PiRp.EditDiff

import PiRp.EditDiff

/-! The normalization for fuzzy matching unit by unit: white space is dropped when nothing but white space stands
between it and the end of its line. Where a text is part of another one, so is its normalized form. -/

namespace PiRp.EditDiff

open List JsStr

/-- The rest of the line is blank. -/
def isTrailing : JsStr → Bool
  | [] => true
  | unit :: rest => unit = lineFeed || (isWhitespace unit && isTrailing rest)

/-- Drops the white space at the end of every line. -/
def stripLines : JsStr → JsStr
  | [] => []
  | unit :: rest =>
    if unit ≠ lineFeed ∧ isWhitespace unit = true ∧ isTrailing rest = true then stripLines rest
    else unit :: stripLines rest

theorem trimEnd_append_white {line : JsStr} {unit : UInt16} (hwhite : isWhitespace unit = true) :
    trimEnd (line ++ [unit]) = trimEnd line := by
  rw [trimEnd, trimEnd, reverse_append, reverse_singleton, singleton_append, dropWhile_cons_of_pos hwhite]

theorem trimEnd_append_black {line : JsStr} {unit : UInt16} (hblack : ¬ isWhitespace unit = true) :
    trimEnd (line ++ [unit]) = line ++ [unit] := by
  rw [trimEnd, reverse_append, reverse_singleton, singleton_append,
    dropWhile_cons_of_neg hblack, reverse_cons, reverse_reverse]

theorem join_trimEnd_splitGo (line text : JsStr) : join [lineFeed] ((splitGo [lineFeed] 0 line text).map trimEnd) =
      (if isTrailing text then trimEnd line else line) ++ stripLines text := by
  induction text generalizing line with
  | nil => simp [splitGo, join, isTrailing, stripLines]
  | cons unit rest ih =>
    by_cases hfeed : unit = lineFeed
    · have hne : (splitGo [lineFeed] 0 [] rest).map trimEnd ≠ [] :=
        map_eq_nil_iff.not.mpr (splitGo_ne_nil [lineFeed] 0 [] rest)
      subst hfeed
      have hstar : List.isPrefixOf [lineFeed] (lineFeed :: rest) = true :=
        isPrefixOf_iff_prefix.mpr ⟨rest, rfl⟩
      rw [splitGo, if_pos hstar, length_singleton, Nat.sub_self, map_cons, join_cons _ _ hne, ih]
      have hnil : trimEnd [] = [] := rfl
      simp [isTrailing, stripLines, hnil]
    · have hstar : ¬ List.isPrefixOf [lineFeed] (unit :: rest) = true := by
        rw [ isPrefixOf_iff_prefix, cons_prefix_cons]
        exact fun hboth => hfeed hboth.1.symm
      rw [splitGo, if_neg hstar, ih]
      by_cases hwhite : isWhitespace unit = true
      · rw [trimEnd_append_white hwhite]
        cases htrail : isTrailing rest with
        | true => simp [isTrailing, stripLines, hfeed, hwhite, htrail]
        | false => simp [isTrailing, stripLines, hfeed, hwhite, htrail]
      · rw [trimEnd_append_black hwhite]
        simp [isTrailing, stripLines, hfeed, hwhite]

/-- What the character classes make of a unit. -/
def plainUnit (unit : UInt16) : UInt16 :=
  let unit := if smartSingleQuotes.contains unit then 0x27 else unit
  let unit := if smartDoubleQuotes.contains unit then 0x22 else unit
  let unit := if dashes.contains unit then 0x2D else unit
  if isSpecialSpace unit then 0x20 else unit

theorem normalizeForFuzzyMatch_eq [Nfkc] (text : JsStr) :
    normalizeForFuzzyMatch text = (stripLines (Nfkc.normalize text)).map plainUnit := by
  have hstr := join_trimEnd_splitGo [] (Nfkc.normalize text)
  have hnil : trimEnd [] = [] := rfl
  rw [hnil, ite_self, nil_append, ← split] at hstr
  simp only [normalizeForFuzzyMatch, hstr, replaceClass, map_map]
  rfl

/-! ### Parts of a text -/

end PiRp.EditDiff

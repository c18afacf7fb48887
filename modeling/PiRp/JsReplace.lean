import Mathlib.Data.List.Basic
import Mathlib.Tactic
import PiRp.JsText

/-! Replacing every occurrence of a fixed text. `replaceAll` is the string method `replace` with a global
pattern: the replacement is expanded, so that `$$`, `$&`, `$` with a backquote and `$` with a quote stand for
something else. `substitute` replaces several patterns literally in one pass. The two agree on a replacement
without such a sequence, and two passes agree with one when the first writes no occurrence of the second's
pattern. -/

namespace PiRp

open List

namespace JsStr

/-- The code unit `$`. -/
def dollar : UInt16 := 0x24

/-- What `$` followed by `next` stands for in a replacement, for a match without capture groups. -/
def patternText (matched before after : JsStr) (next : UInt16) : Option JsStr :=
  if next = 0x24 then some [dollar]
  else if next = 0x26 then some matched
  else if next = 0x60 then some before
  else if next = 0x27 then some after
  else none

/-- `GetSubstitution`: the replacement with its `$` sequences expanded. -/
def getSubstitution (matched before after : JsStr) : JsStr → JsStr
  | [] => []
  | [unit] => [unit]
  | unit :: next :: rest =>
    match if unit = dollar then patternText matched before after next else none with
    | some text => text ++ getSubstitution matched before after rest
    | none => unit :: getSubstitution matched before after (next :: rest)

/-- Whether `$` followed by `next` stands for something else. -/
def isPattern (next : UInt16) : Bool := next == 0x24 || next == 0x26 || next == 0x60 || next == 0x27

/-- A replacement that no `$` sequence changes. -/
def isPlain : JsStr → Bool
  | [] => true
  | [_] => true
  | unit :: next :: rest => !(unit == dollar && isPattern next) && isPlain (next :: rest)

theorem patternText_eq_none {matched before after : JsStr} {next : UInt16} :
    patternText matched before after next = none ↔ isPattern next = false := by
  rw [patternText, isPattern]
  split_ifs <;> simp_all

variable {replacement : JsStr}

theorem getSubstitution_plain {matched before after : JsStr} (hplain : isPlain replacement = true) :
    getSubstitution matched before after replacement = replacement := by
  induction replacement using isPlain.induct with
  | case1 => rfl
  | case2 unit => rfl
  | case3 unit next rest ih =>
    rw [isPlain, Bool.and_eq_true, Bool.not_eq_true'] at hplain
    have hnone : (if unit = dollar then patternText matched before after next else none) = none := by
      split_ifs with hunit
      · rw [patternText_eq_none]
        simpa [hunit] using hplain.1
      · rfl
    simp only [getSubstitution, hnone, ih hplain.2]

section Dollars

variable {matched before after : JsStr} (hmat : dollar ∉ matched) (hbef : dollar ∉ before)
  (hafter : dollar ∉ after)

include hmat hbef hafter

theorem count_patternText {next : UInt16} {text : JsStr} (htext : patternText matched before after next = some text) :
    text.count dollar < (dollar :: next :: []).count dollar := by
  rw [patternText] at htext
  split_ifs at htext with hdol <;> cases htext
  · simp [hdol, dollar]
  all_goals
    rw [count_eq_zero_of_not_mem (by assumption), count_cons_self]
    exact Nat.succ_pos _

theorem count_getSubstitution (replacement : JsStr) :
    (getSubstitution matched before after replacement).count dollar ≤ replacement.count dollar ∧
      (isPlain replacement = false →
        (getSubstitution matched before after replacement).count dollar < replacement.count dollar) := by
  induction replacement using getSubstitution.induct matched before after with
  | case1 => exact ⟨Nat.le_refl _, fun hplain => by simp [isPlain] at hplain⟩
  | case2 unit => exact ⟨Nat.le_refl _, fun hplain => by simp [isPlain] at hplain⟩
  | case3 unit next rest text htext ih =>
    have hunit : unit = dollar := by
      by_contra hunit
      rw [if_neg hunit] at htext
      exact absurd htext (by simp)
    have hfewer := count_patternText hmat hbef hafter (by rwa [if_pos hunit] at htext)
    have hcount : (unit :: next :: rest).count dollar =
        (dollar :: next :: []).count dollar + rest.count dollar := by
      rw [hunit, ← count_append]
      rfl
    simp only [getSubstitution, htext, count_append, hcount]
    have := ih.1
    exact ⟨by omega, fun _ => by omega⟩
  | case4 unit next rest hnone ih =>
    simp only [getSubstitution, hnone, count_cons]
    refine ⟨by have := ih.1; rw [count_cons] at this; omega, fun hplain => ?_⟩
    have hseq : (unit == dollar && isPattern next) = false := by
      by_cases hunit : unit = dollar
      · rw [if_pos hunit, patternText_eq_none] at hnone
        simp [hnone]
      · simp [hunit]
    rw [isPlain, hseq, Bool.not_false, Bool.true_and] at hplain
    have := ih.2 hplain
    rw [count_cons] at this
    omega

end Dollars

/-- The matching loop of `replace`: `skip` units of a match are still to be passed over and `before` is the
text read so far. -/
def replaceGo (pattern : JsStr) (make : JsStr → JsStr → JsStr) : Nat → JsStr → JsStr → JsStr
  | _, _, [] => []
  | skip + 1, before, unit :: rest => replaceGo pattern make skip (before ++ [unit]) rest
  | 0, before, unit :: rest =>
    if pattern.isPrefixOf (unit :: rest) then
      make before ((unit :: rest).drop pattern.length) ++
        replaceGo pattern make (pattern.length - 1) (before ++ [unit]) rest
    else unit :: replaceGo pattern make 0 (before ++ [unit]) rest

/-- `text.replace(/pattern/g, replacement)` for a pattern that matches itself only. -/
def replaceAll (pattern replacement text : JsStr) : JsStr :=
  replaceGo pattern (fun before after => getSubstitution pattern before after replacement) 0 [] text

/-- The loop of a literal substitution: `skip` units of a match are still to be passed over. -/
def substituteGo (rules : List (JsStr × JsStr)) : Nat → JsStr → JsStr
  | _, [] => []
  | skip + 1, _ :: rest => substituteGo rules skip rest
  | 0, unit :: rest =>
    match rules.find? (fun rule => rule.1.isPrefixOf (unit :: rest)) with
    | some rule => rule.2 ++ substituteGo rules (rule.1.length - 1) rest
    | none => unit :: substituteGo rules 0 rest

/-- Every occurrence of a rule's pattern replaced by the rule's text, in one pass: what was substituted is
not looked at again. -/
def substitute (rules : List (JsStr × JsStr)) (text : JsStr) : JsStr := substituteGo rules 0 text

/-- How many positions of the text the pattern starts at. -/
def occurrences (pattern text : JsStr) : Nat := text.tails.countP pattern.isPrefixOf

theorem substituteGo_skip (rules : List (JsStr × JsStr)) (skip : Nat) (text : JsStr) :
    substituteGo rules skip text = substitute rules (text.drop skip) := by
  induction text generalizing skip with
  | nil => cases skip <;> rfl
  | cons unit rest ih =>
    cases skip with
    | zero => rfl
    | succ skip => exact ih skip

@[simp] theorem substitute_nil (rules : List (JsStr × JsStr)) : substitute rules [] = [] := rfl

variable {rest : JsStr}

theorem substitute_append {rules : List (JsStr × JsStr)} (rule : JsStr × JsStr)
    (hne : rule.1 ≠ []) (hrule : rules.find? (fun rule' => rule'.1.isPrefixOf (rule.1 ++ rest)) = some rule) :
    substitute rules (rule.1 ++ rest) = rule.2 ++ substitute rules rest := by
  obtain ⟨unit, units, hunits⟩ := exists_cons_of_ne_nil hne
  rw [hunits, cons_append] at hrule ⊢
  rw [substitute, substituteGo, hrule]
  simp only [substituteGo_skip, hunits, length_cons, Nat.add_sub_cancel, drop_left]

theorem substitute_cons {rules : List (JsStr × JsStr)} {unit : UInt16}
    (hrule : rules.find? (fun rule => rule.1.isPrefixOf (unit :: rest)) = none) :
    substitute rules (unit :: rest) = unit :: substitute rules rest := by
  rw [substitute, substituteGo, hrule]
  rfl

variable {pattern : JsStr}

theorem replaceGo_plain (make : JsStr → JsStr → JsStr)
    (hmake : ∀ before after, make before after = replacement) (skip : Nat) (before text : JsStr) :
    replaceGo pattern make skip before text = substituteGo [(pattern, replacement)] skip text := by
  induction text generalizing skip before with
  | nil => cases skip <;> rfl
  | cons unit rest ih =>
    cases skip with
    | zero =>
      rw [replaceGo, substituteGo, find?_singleton]
      split_ifs with hmatch
      · rw [hmake, ih]
      · rw [ih]
    | succ skip => exact ih skip _

theorem replaceAll_plain (hplain : isPlain replacement = true)
    (pattern text : JsStr) : replaceAll pattern replacement text = substitute [(pattern, replacement)] text :=
  replaceGo_plain _ (fun _ _ => getSubstitution_plain hplain) 0 [] text

variable {text : JsStr}

theorem occurrences_nil (hne : pattern ≠ []) : occurrences pattern [] = 0 := by
  cases pattern with
  | nil => exact absurd rfl hne
  | cons unit rest => rfl

theorem occurrences_cons (pattern : JsStr) (unit : UInt16) (rest : JsStr) : occurrences pattern (unit :: rest) =
      occurrences pattern rest + if pattern.isPrefixOf (unit :: rest) then 1 else 0 := by
  rw [occurrences, tails_cons, countP_cons, occurrences]

theorem replaceGo_absent (make : JsStr → JsStr → JsStr)
    (skip : Nat) (before : JsStr) (habs : occurrences pattern (text.drop skip) = 0) :
    replaceGo pattern make skip before text = substituteGo [(pattern, replacement)] skip text := by
  induction text generalizing skip before with
  | nil => cases skip <;> rfl
  | cons unit rest ih =>
    cases skip with
    | zero =>
      rw [drop_zero, occurrences_cons] at habs
      rw [replaceGo, substituteGo, find?_singleton]
      split_ifs at habs ⊢ with hmatch
      rw [ih 0 _ habs]
    | succ skip => exact ih skip _ habs

theorem count_replaceGo (make : JsStr → JsStr → JsStr) (hmake : ∀ before after, dollar ∉ before → dollar ∉ after →
      (make before after).count dollar < replacement.count dollar)
    {before : JsStr} (hbef : dollar ∉ before) (htext : dollar ∉ text) (skip : Nat) (hne : pattern ≠ []) :
    (replaceGo pattern make skip before text).count dollar + min 1 (occurrences pattern (text.drop skip)) ≤
      (substituteGo [(pattern, replacement)] skip text).count dollar := by
  induction text generalizing skip before with
  | nil =>
    rw [drop_nil, occurrences_nil hne]
    cases skip <;> exact Nat.le_refl _
  | cons unit rest ih =>
    have hrest : dollar ∉ rest := fun hmem => htext (mem_cons_of_mem _ hmem)
    have hread : dollar ∉ before ++ [unit] := by
      simp only [mem_append, mem_singleton, not_or]
      exact ⟨hbef, fun heq => htext (heq ▸ mem_cons_self)⟩
    cases skip with
    | zero =>
      rw [replaceGo, substituteGo, find?_singleton, drop_zero, occurrences_cons]
      split_ifs with hmatch
      · have hmade := hmake before ((unit :: rest).drop pattern.length) hbef fun hmem =>
          htext (mem_of_mem_drop hmem)
        have hlater := ih hread hrest (pattern.length - 1)
        rw [count_append, count_append]
        dsimp only
        omega
      · have hlater := ih hread hrest 0
        rw [drop_zero] at hlater
        rw [count_cons, count_cons]
        omega
    | succ skip => exact ih hread hrest skip

theorem occurrences_unit {unit : UInt16} (hstar : pattern.isPrefixOf (unit :: rest) = false) :
    occurrences pattern (unit :: rest) = occurrences pattern rest := by
  rw [occurrences_cons, hstar, if_neg Bool.false_ne_true, Nat.add_zero]

theorem occurrences_le_append (pattern front text : JsStr) :
    occurrences pattern text ≤ occurrences pattern (front ++ text) := by
  induction front with
  | nil => exact Nat.le_refl _
  | cons unit rest ih =>
    rw [cons_append, occurrences_cons]
    omega

theorem occurrences_add_le (pattern front text : JsStr) :
    occurrences pattern front + occurrences pattern text ≤ occurrences pattern (front ++ text) + occurrences pattern [] := by
  induction front with
  | nil => rw [nil_append]; omega
  | cons unit rest ih =>
    rw [cons_append, occurrences_cons, occurrences_cons]
    split_ifs with hfront happ
    · omega
    · exact absurd ( isPrefixOf_iff_prefix.mpr
        (( isPrefixOf_iff_prefix.mp hfront).trans (prefix_append (unit :: rest) text))) happ
    · omega
    · omega

/-- A literal substitution in a text before which others stand: as long as the others bring no occurrence,
they stay as they are. -/
theorem substitute_append_left {front : JsStr}
    (hfront : occurrences pattern (front ++ text) = occurrences pattern text) :
    substitute [(pattern, replacement)] (front ++ text) = front ++ substitute [(pattern, replacement)] text := by
  induction front with
  | nil => rfl
  | cons unit rest ih =>
    have hmore := occurrences_le_append pattern rest text
    rw [cons_append, occurrences_cons] at hfront
    split_ifs at hfront with hstar
    · omega
    · rw [cons_append, substitute_cons (by rw [find?_singleton, if_neg hstar]), ih (by omega), cons_append]

/-- Whether an occurrence of `pattern` may begin at the start of `text`, given what may follow the text. -/
def mayBegin (pattern text : JsStr) : Bool := pattern.isPrefixOf text || text.isPrefixOf pattern

/-- No occurrence of `pattern` begins inside `text`, whatever follows it. -/
def isClear (pattern : JsStr) : JsStr → Bool
  | [] => true
  | unit :: rest => !mayBegin pattern (unit :: rest) && isClear pattern rest

theorem mayBegin_of_starts (hstar : pattern.isPrefixOf (text ++ rest) = true) : mayBegin pattern text = true := by
  rw [mayBegin, Bool.or_eq_true, isPrefixOf_iff_prefix, isPrefixOf_iff_prefix]
  exact prefix_or_prefix_of_prefix ( isPrefixOf_iff_prefix.mp hstar) (prefix_append _ _)

theorem occurrences_clear {front : JsStr} (hclear : isClear pattern front = true) (text : JsStr) :
    occurrences pattern (front ++ text) = occurrences pattern text := by
  induction front with
  | nil => rfl
  | cons unit rest ih =>
    rw [isClear, Bool.and_eq_true, Bool.not_eq_true'] at hclear
    have hstar : ¬pattern.isPrefixOf (unit :: rest ++ text) = true := fun hstar => by
      rw [mayBegin_of_starts hstar] at hclear
      exact absurd hclear.1 (by decide)
    rw [cons_append, occurrences_cons, ← cons_append, if_neg hstar, ih hclear.2, Nat.add_zero]

theorem occurrences_self (hne : pattern ≠ []) (hclear : isClear pattern pattern.tail = true)
    (text : JsStr) : occurrences pattern (pattern ++ text) = occurrences pattern text + 1 := by
  obtain ⟨unit, units, rfl⟩ := exists_cons_of_ne_nil hne
  have hstar : (unit :: units).isPrefixOf (unit :: (units ++ text)) = true :=
    isPrefixOf_iff_prefix.mpr (prefix_append (unit :: units) text)
  rw [tail_cons] at hclear
  rw [cons_append, occurrences_cons, if_pos hstar, occurrences_clear hclear]

theorem pattern_induction {motive : JsStr → Prop} {first second : JsStr} (hfirst : first ≠ [])
    (hsnd : second ≠ []) (nil : motive []) (atFirst : ∀ rest, motive rest → motive (first ++ rest))
    (atSecond : ∀ rest, motive rest → motive (second ++ rest))
    (unit : ∀ unit rest, first.isPrefixOf (unit :: rest) = false → second.isPrefixOf (unit :: rest) = false →
      motive rest → motive (unit :: rest)) (text : JsStr) : motive text := by
  induction hlength : text.length using Nat.strong_induction_on generalizing text with
  | _ length ih =>
    cases hfirstAt : first.isPrefixOf text with
    | true =>
      obtain ⟨rest, rfl⟩ := isPrefixOf_iff_prefix.mp hfirstAt
      have := length_pos_of_ne_nil hfirst
      exact atFirst rest (ih rest.length (by rw [← hlength, length_append]; omega) rest rfl)
    | false =>
      cases hsecondAt : second.isPrefixOf text with
      | true =>
        obtain ⟨rest, rfl⟩ := isPrefixOf_iff_prefix.mp hsecondAt
        have := length_pos_of_ne_nil hsnd
        exact atSecond rest (ih rest.length (by rw [← hlength, length_append]; omega) rest rfl)
      | false =>
        cases text with
        | nil => exact nil
        | cons head rest =>
          exact unit head rest hfirstAt hsecondAt (ih rest.length (by rw [← hlength]; simp) rest rfl)

section TwoPasses

variable {first second : JsStr} (hfirst : first ≠ []) (hsnd : second ≠ [])
  (hinFirst : isClear second first = true) (hinSecond : isClear first second = true)
  (hself : isClear second second.tail = true)

include hfirst in
theorem substitute_first (text rest : JsStr) :
    substitute [(first, text)] (first ++ rest) = text ++ substitute [(first, text)] rest := by
  refine substitute_append (first, text) hfirst ?_
  rw [find?_singleton, if_pos ( isPrefixOf_iff_prefix.mpr (prefix_append first rest))]

include hinSecond in
theorem substitute_clear (text rest : JsStr) :
    substitute [(first, text)] (second ++ rest) = second ++ substitute [(first, text)] rest :=
  substitute_append_left (occurrences_clear hinSecond rest)

include hfirst in
theorem substitute_both_first (text other rest : JsStr) :
    substitute [(first, text), (second, other)] (first ++ rest) =
      text ++ substitute [(first, text), (second, other)] rest := by
  refine substitute_append (first, text) hfirst ?_
  exact find?_cons_of_pos ( isPrefixOf_iff_prefix.mpr (prefix_append first rest))

include hsnd hinSecond in
theorem substitute_both_second (text other rest : JsStr) :
    substitute [(first, text), (second, other)] (second ++ rest) =
      other ++ substitute [(first, text), (second, other)] rest := by
  refine substitute_append (second, other) hsnd ?_
  have hstar : ¬first.isPrefixOf (second ++ rest) = true := fun hstar => by
    obtain ⟨unit, units, rfl⟩ := exists_cons_of_ne_nil hsnd
    rw [isClear, mayBegin_of_starts hstar, Bool.not_true, Bool.false_and] at hinSecond
    exact absurd hinSecond Bool.false_ne_true
  have hself : second.isPrefixOf (second ++ rest) = true :=
    isPrefixOf_iff_prefix.mpr (prefix_append second rest)
  simp only [find?_cons, Bool.eq_false_of_not_eq_true hstar, hself]

theorem substitute_both_unit {unit : UInt16} {rest : JsStr} (text other : JsStr)
    (hfirstAt : first.isPrefixOf (unit :: rest) = false) (hsecondAt : second.isPrefixOf (unit :: rest) = false) :
    substitute [(first, text), (second, other)] (unit :: rest) =
      unit :: substitute [(first, text), (second, other)] rest := by
  refine substitute_cons ?_
  rw [find?_cons_of_neg (by rw [hfirstAt]; decide), find?_singleton, if_neg (by rw [hsecondAt]; decide)]

theorem substitute_one_unit {unit : UInt16} {rest : JsStr} (text : JsStr)
    (hfirstAt : first.isPrefixOf (unit :: rest) = false) :
    substitute [(first, text)] (unit :: rest) = unit :: substitute [(first, text)] rest := by
  refine substitute_cons ?_
  rw [find?_singleton, if_neg (by rw [hfirstAt]; decide)]

include hfirst hsnd hinFirst hinSecond hself in
theorem occurrences_le_substitute (text base : JsStr) :
    occurrences second base ≤ occurrences second (substitute [(first, text)] base) := by
  induction base using pattern_induction hfirst hsnd with
  | nil => exact Nat.le_refl _
  | atFirst rest ih =>
    rw [occurrences_clear hinFirst, substitute_first hfirst]
    exact ih.trans (occurrences_le_append _ _ _)
  | atSecond rest ih =>
    rw [substitute_clear hinSecond, occurrences_self hsnd hself, occurrences_self hsnd hself]
    omega
  | unit unit rest hfirstAt hsecondAt ih =>
    rw [substitute_one_unit text hfirstAt, occurrences_unit hsecondAt, occurrences_cons]
    omega

include hfirst hsnd hinFirst hinSecond hself in
theorem occurrences_lt_substitute {text base : JsStr} (htext : occurrences second text ≠ 0)
    (hbase : occurrences first base ≠ 0) :
    occurrences second base < occurrences second (substitute [(first, text)] base) := by
  induction base using pattern_induction hfirst hsnd with
  | nil => exact absurd (occurrences_nil hfirst) hbase
  | atFirst rest ih =>
    have hrest := occurrences_le_substitute hfirst hsnd hinFirst hinSecond hself text rest
    have hadd := occurrences_add_le second text (substitute [(first, text)] rest)
    rw [occurrences_nil hsnd] at hadd
    rw [occurrences_clear hinFirst, substitute_first hfirst]
    omega
  | atSecond rest ih =>
    rw [occurrences_clear hinSecond] at hbase
    have := ih hbase
    rw [substitute_clear hinSecond, occurrences_self hsnd hself, occurrences_self hsnd hself]
    omega
  | unit unit rest hfirstAt hsecondAt ih =>
    rw [occurrences_unit hfirstAt] at hbase
    have := ih hbase
    rw [substitute_one_unit text hfirstAt, occurrences_unit hsecondAt, occurrences_cons]
    omega

include hfirst hsnd hinFirst hinSecond hself in
theorem substitute_twice {text other base : JsStr}
    (hcount : occurrences second (substitute [(first, text)] base) = occurrences second base) :
    substitute [(second, other)] (substitute [(first, text)] base) =
      substitute [(first, text), (second, other)] base := by
  induction base using pattern_induction hfirst hsnd with
  | nil => rfl
  | atFirst rest ih =>
    have hrest := occurrences_le_substitute hfirst hsnd hinFirst hinSecond hself text rest
    have hmore := occurrences_le_append second text (substitute [(first, text)] rest)
    rw [occurrences_clear hinFirst, substitute_first hfirst] at hcount
    rw [substitute_first hfirst, substitute_both_first hfirst, substitute_append_left (by omega),
      ih (by omega)]
  | atSecond rest ih =>
    rw [substitute_clear hinSecond, occurrences_self hsnd hself, occurrences_self hsnd hself] at hcount
    rw [substitute_clear hinSecond, substitute_first hsnd, substitute_both_second hsnd hinSecond, ih (by omega)]
  | unit unit rest hfirstAt hsecondAt ih =>
    have hrest := occurrences_le_substitute hfirst hsnd hinFirst hinSecond hself text rest
    rw [substitute_one_unit text hfirstAt, occurrences_cons, occurrences_unit hsecondAt] at hcount
    rw [substitute_one_unit text hfirstAt, substitute_both_unit text other hfirstAt hsecondAt]
    split_ifs at hcount with hstar
    · omega
    · rw [substitute_one_unit other (Bool.eq_false_of_not_eq_true hstar), ih (by omega)]

section Weights

variable (weight : JsStr → Nat) (hnil : weight [] = 0)
  (happ : ∀ front back, weight (front ++ back) = weight front + weight back)

include hsnd hself hnil happ in
theorem weight_substitute (other text : JsStr) :
    weight (substitute [(second, other)] text) + occurrences second text * weight second =
      weight text + occurrences second text * weight other := by
  induction text using pattern_induction hsnd hsnd with
  | nil => simp [hnil, occurrences_nil hsnd]
  | atFirst rest ih =>
    rw [substitute_first hsnd, occurrences_self hsnd hself, happ, happ, Nat.add_mul, Nat.add_mul]
    omega
  | atSecond rest ih =>
    rw [substitute_first hsnd, occurrences_self hsnd hself, happ, happ, Nat.add_mul, Nat.add_mul]
    omega
  | unit unit rest hstar _ ih =>
    have hone := happ [unit] rest
    have hother := happ [unit] (substitute [(second, other)] rest)
    rw [singleton_append] at hone hother
    rw [substitute_one_unit other hstar, occurrences_unit hstar, hone, hother]
    omega

include hfirst hsnd hinFirst hinSecond hself hnil happ in
theorem weight_substitute_both (text other base : JsStr) :
    weight (substitute [(first, text), (second, other)] base) + occurrences second base * weight second =
      weight (substitute [(first, text)] base) + occurrences second base * weight other := by
  induction base using pattern_induction hfirst hsnd with
  | nil => simp [hnil, occurrences_nil hsnd]
  | atFirst rest ih =>
    rw [substitute_both_first hfirst, substitute_first hfirst, occurrences_clear hinFirst, happ, happ]
    omega
  | atSecond rest ih =>
    rw [substitute_both_second hsnd hinSecond, substitute_clear hinSecond, occurrences_self hsnd hself,
      happ, happ, Nat.add_mul, Nat.add_mul]
    omega
  | unit unit rest hfirstAt hsecondAt ih =>
    have hone := happ [unit] (substitute [(first, text)] rest)
    have hboth := happ [unit] (substitute [(first, text), (second, other)] rest)
    rw [singleton_append] at hone hboth
    rw [substitute_both_unit text other hfirstAt hsecondAt, substitute_one_unit text hfirstAt,
      occurrences_unit hsecondAt, hone, hboth]
    omega

end Weights

end TwoPasses

end JsStr

end PiRp

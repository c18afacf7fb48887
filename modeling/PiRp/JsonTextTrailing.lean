import PiRp.JsonTextPrefix

/-! A blank behind a JSON text is not seen: `JSON.parse` gives the same with it and without it. The reader's
budget and rounds are as large as the text, so the text with the blank is read with one more of each; more than
the length of the text makes no difference. -/

namespace PiRp.JsonText

open List Json

/-- What is left of a text with one more unit at its end. -/
def behind {α : Type} (blank : UInt16) (parsed : α × JsStr) : α × JsStr :=
  (parsed.1, parsed.2 ++ [blank])

/-! ### More rounds -/

section Rounds

variable {read other : JsStr → Option (Json × JsStr)}

theorem length_of_uses {α : Type} {text : JsStr} {parsed : Option (α × JsStr)} (huses : UsesBalanced text parsed)
    {value : α} {rest : JsStr} (hpar : parsed = some (value, rest)) : rest.length ≤ text.length := by
  obtain ⟨used, rfl, _⟩ := huses value rest hpar
  rw [length_append]
  exact Nat.le_add_left _ _

theorem length_skipWhitespace (text : JsStr) : (skipWhitespace text).length ≤ text.length :=
  (dropWhile_suffix _).length_le

theorem length_of_skipWhitespace {text rest : JsStr} {unit : UInt16} (hskip : skipWhitespace text = unit :: rest) :
    rest.length < text.length := by
  have hle := length_skipWhitespace text
  rw [hskip, length_cons] at hle
  exact hle

theorem length_of_parseUnits {text string rest : JsStr} (hparse : parseUnits text = some (string, rest)) :
    rest.length ≤ text.length := by
  obtain ⟨used, rfl, _⟩ := parseUnits_closes hparse
  rw [length_append]
  exact Nat.le_add_left _ _

theorem parseItems_nil (hread : ∀ text, UsesBalanced text (read text)) (rounds : Nat) :
    parseItems read rounds [] = none := by
  cases rounds with
  | zero => rfl
  | succ rounds =>
    rw [parseItems]
    cases hitem : read [] with
    | none => rfl
    | some parsed =>
      obtain ⟨item, rest⟩ := parsed
      have hrest := length_of_uses (hread []) hitem
      obtain rfl := eq_nil_of_length_eq_zero (Nat.le_zero.mp hrest)
      rfl

/-- Readers that agree on the text and what is in it, and enough rounds. -/
theorem parseItems_agree (hread : ∀ text, UsesBalanced text (read text))
    (hother : ∀ text, UsesBalanced text (other text)) {bound : Nat}
    (hagree : ∀ text : JsStr, text.length ≤ bound → read text = other text) {rounds more : Nat} {text : JsStr}
    (hbound : text.length ≤ bound) (hrounds : text.length ≤ rounds) (hmore : text.length ≤ more) :
    parseItems read rounds text = parseItems other more text := by
  induction rounds generalizing text more with
  | zero =>
    obtain rfl := eq_nil_of_length_eq_zero (Nat.le_zero.mp hrounds)
    rw [parseItems_nil hother]
    rfl
  | succ rounds ih =>
    cases more with
    | zero =>
      obtain rfl := eq_nil_of_length_eq_zero (Nat.le_zero.mp hmore)
      rw [parseItems_nil hread]
      rfl
    | succ more =>
      rw [parseItems, parseItems, ← hagree text hbound]
      cases hitem : read text with
      | none => rfl
      | some parsed =>
        obtain ⟨item, rest⟩ := parsed
        have hrest := length_of_uses (hread text) hitem
        cases hskip : skipWhitespace rest with
        | nil => simp only [hskip]
        | cons unit after =>
          have hafter := length_of_skipWhitespace hskip
          have hitems : parseItems read rounds after = parseItems other more after :=
            ih (by omega) (by omega) (by omega)
          simp only [hskip, hitems]

theorem parseMembers_nil (rounds : Nat) (result : Props Json) : parseMembers read rounds result [] = none := by
  cases rounds <;> rfl

theorem parseMembers_agree (hread : ∀ text, UsesBalanced text (read text)) {bound : Nat}
    (hagree : ∀ text : JsStr, text.length ≤ bound → read text = other text) {rounds more : Nat}
    {result : Props Json} {text : JsStr} (hbound : text.length ≤ bound) (hrounds : text.length ≤ rounds)
    (hmore : text.length ≤ more) : parseMembers read rounds result text = parseMembers other more result text := by
  induction rounds generalizing result text more with
  | zero =>
    obtain rfl := eq_nil_of_length_eq_zero (Nat.le_zero.mp hrounds)
    rw [parseMembers_nil, parseMembers_nil]
  | succ rounds ih =>
    cases more with
    | zero =>
      obtain rfl := eq_nil_of_length_eq_zero (Nat.le_zero.mp hmore)
      rw [parseMembers_nil, parseMembers_nil]
    | succ more =>
      rw [parseMembers, parseMembers]
      cases hmark : skipWhitespace text with
      | nil => simp only []
      | cons mark afterMark =>
        have hafterMark := length_of_skipWhitespace hmark
        cases hkey : parseUnits afterMark with
        | none => simp only [hkey]
        | some parsed =>
          obtain ⟨key, afterKey⟩ := parsed
          have hafterKey := length_of_parseUnits hkey
          cases hsep : skipWhitespace afterKey with
          | nil => simp only [hkey, hsep]
          | cons separator afterSeparator =>
            have hafterSeparator := length_of_skipWhitespace hsep
            have hvalueAgree := hagree afterSeparator (by omega)
            cases hvalue : read afterSeparator with
            | none => simp only [hkey, hsep, ← hvalueAgree, hvalue]
            | some parsed =>
              obtain ⟨value, afterValue⟩ := parsed
              have hafterValue := length_of_uses (hread afterSeparator) hvalue
              cases hunit : skipWhitespace afterValue with
              | nil => simp only [hkey, hsep, ← hvalueAgree, hvalue, hunit]
              | cons unit rest =>
                have hrest := length_of_skipWhitespace hunit
                have hmembers (members : Props Json) : parseMembers read rounds members rest =
                    parseMembers other more members rest := ih (by omega) (by omega) (by omega)
                simp only [hkey, hsep, ← hvalueAgree, hvalue, hunit, hmembers]

end Rounds

theorem parseValue_stable [NumberText] {budget : Nat} {text : JsStr} (hbud : text.length < budget) :
    parseValue (budget + 1) text = parseValue budget text := by
  induction budget generalizing text with
  | zero => exact absurd hbud (Nat.not_lt_zero _)
  | succ budget ih =>
    rw [parseValue, parseValue]
    cases hskip : skipWhitespace text with
    | nil => simp only []
    | cons unit rest =>
      have hrest := length_of_skipWhitespace hskip
      have hagree : ∀ inner : JsStr, inner.length ≤ rest.length →
          parseValue (budget + 1) inner = parseValue budget inner := fun inner hinner => ih (by omega)
      have hitems := parseItems_agree (parseValue_balanced (budget + 1)) (parseValue_balanced budget) hagree
        (Nat.le_refl _) (Nat.le_refl _) (Nat.le_refl _)
      have hmembs (members : Props Json) : parseMembers (parseValue (budget + 1)) rest.length members rest =
          parseMembers (parseValue budget) rest.length members rest :=
        parseMembers_agree (parseValue_balanced (budget + 1)) hagree (Nat.le_refl _) (Nat.le_refl _) (Nat.le_refl _)
      simp only [hitems, hmembs]

/-! ### A blank at the end -/

section Trailing

variable {blank : UInt16} (hblank : isWhitespace blank = true)

include hblank

theorem blank_cases : blank = 0x20 ∨ blank = 0x09 ∨ blank = 0x0a ∨ blank = 0x0d := by
  simpa only [isWhitespace, Bool.or_eq_true, decide_eq_true_eq, or_assoc] using hblank

theorem skipWhitespace_trailing (text : JsStr) : skipWhitespace (text ++ [blank]) =
      if skipWhitespace text = [] then [] else skipWhitespace text ++ [blank] := by
  rw [skipWhitespace, skipWhitespace, dropWhile_append]
  cases hskip : List.dropWhile isWhitespace text with
  | nil => simp [hblank]
  | cons unit rest => simp

theorem hexValue?_blank : hexValue? blank = none := by
  rcases blank_cases hblank with rfl | rfl | rfl | rfl <;> rfl

theorem unescape?_blank : unescape? blank = none := by
  rcases blank_cases hblank with rfl | rfl | rfl | rfl <;> rfl

theorem parseUnits_blank : parseUnits [blank] = none := by
  rcases blank_cases hblank with rfl | rfl | rfl | rfl <;> rfl

theorem hexValue4?_blank (first second third : UInt16) : hexValue4? first second third blank = none := by
  simp only [hexValue4?, hexValue?_blank hblank]
  cases hexValue? first <;> cases hexValue? second <;> cases hexValue? third <;> rfl

theorem parseUnits_trailing (text : JsStr) : parseUnits (text ++ [blank]) = (parseUnits text).map (behind blank) := by
  have hmark : backslash ≠ quoteMark := by decide
  induction text using parseUnits.induct with
  | case1 => exact parseUnits_blank hblank
  | case2 tail => rw [cons_append, parseUnits_quoteMark, parseUnits_quoteMark]; rfl
  | case3 =>
    have hlet : blank ≠ 0x75 := by
      rcases blank_cases hblank with rfl | rfl | rfl | rfl <;> decide
    rw [parseUnits.eq_def, parseUnits.eq_def [backslash]]
    simp [hmark, hlet, unescape?_blank hblank]
  | case4 first second third fourth tail hhex =>
    rw [parseUnits.eq_def, parseUnits.eq_def (_ :: _)]
    simp [hmark, hhex]
  | case5 first second third fourth tail decoded hhex _ ih =>
    rw [parseUnits.eq_def, parseUnits.eq_def (_ :: _)]
    simp only [cons_append, if_neg hmark, if_true, hhex, ih, Option.map_map]
    rfl
  | case6 tail htail =>
    rw [parseUnits.eq_def, parseUnits.eq_def (_ :: _)]
    simp only [cons_append, if_neg hmark, if_true]
    -- Three digits and the blank are no escape either.
    match tail, htail with
    | [], _ => rfl
    | [_], _ => rfl
    | [_, _], _ => rfl
    | [first, second, third], _ =>
      simp only [cons_append, nil_append, hexValue4?_blank hblank]
      rfl
    | first :: second :: third :: fourth :: rest, htail => exact absurd rfl (htail first second third fourth rest)
  | case7 letter tail hlet hesc =>
    rw [parseUnits.eq_def, parseUnits.eq_def (_ :: _)]
    simp [hmark, hlet, hesc]
  | case8 letter tail hlet decoded hesc _ ih =>
    rw [parseUnits.eq_def, parseUnits.eq_def (_ :: _)]
    simp only [cons_append, if_neg hmark, if_true, if_neg hlet, hesc, ih, Option.map_map]
    rfl
  | case9 unit tail hquote hbac hcon =>
    rw [parseUnits.eq_def, parseUnits.eq_def (_ :: _)]
    simp [hquote, hbac, hcon]
  | case10 unit tail hquote hbac hcon ih =>
    have hplain := parseUnits_plain ⟨hquote, hbac, Nat.not_lt.mp hcon⟩
    rw [cons_append, hplain, hplain, ih, Option.map_map, Option.map_map]
    rfl

omit hblank in
theorem dropWord_trailing {word : JsStr} (hword : blank ∉ word) (text : JsStr) :
    dropWord word (text ++ [blank]) = (dropWord word text).map (· ++ [blank]) := by
  induction word generalizing text with
  | nil => cases text <;> rfl
  | cons expected word ih =>
    rw [mem_cons, not_or] at hword
    cases text with
    | nil => simp [dropWord, hword.1]
    | cons unit text =>
      rw [cons_append, dropWord, dropWord]
      split_ifs
      · exact ih hword.2 text
      · rfl

theorem parseItems_trailing {read : JsStr → Option (Json × JsStr)}
    (hread : ∀ text, read (text ++ [blank]) = (read text).map (behind blank)) (rounds : Nat) (text : JsStr) :
    parseItems read rounds (text ++ [blank]) = (parseItems read rounds text).map (behind blank) := by
  induction rounds generalizing text with
  | zero => rfl
  | succ rounds ih =>
    rw [parseItems, parseItems, hread]
    cases hitem : read text with
    | none => rfl
    | some parsed =>
      obtain ⟨item, rest⟩ := parsed
      simp only [Option.map_some, behind, skipWhitespace_trailing hblank]
      cases hskip : skipWhitespace rest with
      | nil => rfl
      | cons unit after =>
        simp only [reduceCtorEq, if_false, cons_append, ih after]
        split_ifs
        · cases parseItems read rounds after <;> rfl
        · rfl
        · rfl

theorem parseMembers_trailing {read : JsStr → Option (Json × JsStr)}
    (hread : ∀ text, read (text ++ [blank]) = (read text).map (behind blank)) (rounds : Nat)
    (result : Props Json) (text : JsStr) : parseMembers read rounds result (text ++ [blank]) =
      (parseMembers read rounds result text).map (behind blank) := by
  induction rounds generalizing result text with
  | zero => rfl
  | succ rounds ih =>
    rw [parseMembers, parseMembers, skipWhitespace_trailing hblank]
    cases hmark : skipWhitespace text with
    | nil => rfl
    | cons mark afterMark =>
      simp only [reduceCtorEq, if_false, cons_append, parseUnits_trailing hblank]
      split_ifs
      · rfl
      · cases hkey : parseUnits afterMark with
        | none => rfl
        | some parsed =>
          obtain ⟨key, afterKey⟩ := parsed
          simp only [Option.map_some, behind, skipWhitespace_trailing hblank]
          cases hsep : skipWhitespace afterKey with
          | nil => rfl
          | cons separator afterSeparator =>
            simp only [reduceCtorEq, if_false, cons_append, hread]
            split_ifs
            · rfl
            · cases hvalue : read afterSeparator with
              | none => rfl
              | some parsed =>
                obtain ⟨value, afterValue⟩ := parsed
                simp only [Option.map_some, behind, skipWhitespace_trailing hblank]
                cases hunit : skipWhitespace afterValue with
                | nil => rfl
                | cons unit rest =>
                  simp only [reduceCtorEq, if_false, cons_append, ih]
                  split_ifs <;> rfl

theorem isNumberUnit_blank : isNumberUnit blank = false := by
  rcases blank_cases hblank with rfl | rfl | rfl | rfl <;> rfl

theorem number_trailing (text : JsStr) : (text ++ [blank]).takeWhile isNumberUnit = text.takeWhile isNumberUnit ∧
      (text ++ [blank]).dropWhile isNumberUnit = text.dropWhile isNumberUnit ++ [blank] := by
  have hnot := isNumberUnit_blank hblank
  induction text with
  | nil => simp [hnot]
  | cons unit rest ih =>
    rw [cons_append, takeWhile_cons, takeWhile_cons, dropWhile_cons, dropWhile_cons, ih.1, ih.2]
    split_ifs <;> exact ⟨rfl, rfl⟩

variable [NumberText]

theorem parseValue_trailing (budget : Nat) (text : JsStr) :
    parseValue budget (text ++ [blank]) = (parseValue budget text).map (behind blank) := by
  induction budget generalizing text with
  | zero => rfl
  | succ budget ih =>
    have hread := parseValue_balanced budget
    rw [parseValue, parseValue, skipWhitespace_trailing hblank]
    cases hskip : skipWhitespace text with
    | nil => rfl
    | cons unit rest =>
      have hitems : parseItems (parseValue budget) (rest ++ [blank]).length (rest ++ [blank]) =
          (parseItems (parseValue budget) rest.length rest).map (behind blank) := by
        rw [parseItems_trailing hblank ih, length_append, length_singleton,
          parseItems_agree hread hread (fun _ _ => rfl) (Nat.le_refl _) (Nat.le_succ _) (Nat.le_refl _)]
      have hmembs : parseMembers (parseValue budget) (rest ++ [blank]).length [] (rest ++ [blank]) =
          (parseMembers (parseValue budget) rest.length [] rest).map (behind blank) := by
        rw [parseMembers_trailing hblank ih, length_append, length_singleton,
          parseMembers_agree hread (fun _ _ => rfl) (Nat.le_refl _) (Nat.le_succ _) (Nat.le_refl _)]
      obtain ⟨htake, hdrop⟩ := number_trailing hblank (unit :: rest)
      rw [cons_append] at htake hdrop
      have hnotMem : blank ∉ js "ull" ∧ blank ∉ js "rue" ∧ blank ∉ js "alse" := by
        rcases blank_cases hblank with rfl | rfl | rfl | rfl <;> decide
      cases hinner : skipWhitespace rest with
      | nil =>
        simp only [reduceCtorEq, if_false, cons_append, parseUnits_trailing hblank, htake, hdrop,
          skipWhitespace_trailing hblank rest, hinner, if_true, dropWord_trailing hnotMem.1,
          dropWord_trailing hnotMem.2.1, dropWord_trailing hnotMem.2.2]
        split_ifs
        all_goals first
          | rfl
          | simp only [Option.map_map]; rfl
      | cons next after =>
        simp only [reduceCtorEq, if_false, cons_append, parseUnits_trailing hblank, htake, hdrop, hitems,
          hmembs, skipWhitespace_trailing hblank rest, hinner, dropWord_trailing hnotMem.1,
          dropWord_trailing hnotMem.2.1, dropWord_trailing hnotMem.2.2]
        split_ifs
        all_goals first
          | rfl
          | simp only [Option.map_map]; rfl

/-- **A blank behind a text is not seen.** -/
theorem parse_trailing (text : JsStr) : parse (text ++ [blank]) = parse text := by
  rw [parse, parse, parseValue_trailing hblank, length_append, length_singleton,
    parseValue_stable (Nat.lt_succ_self _)]
  cases hvalue : parseValue (text.length + 1) text with
  | none => rfl
  | some parsed =>
    obtain ⟨value, rest⟩ := parsed
    simp only [Option.map_some, behind, skipWhitespace_trailing hblank]
    cases hskip : skipWhitespace rest with
    | nil => rfl
    | cons unit after => simp

end Trailing

end PiRp.JsonText

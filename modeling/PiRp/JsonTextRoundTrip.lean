import PiRp.JsonText

/-! `JSON.parse` undoes `JSON.stringify` up to the sign of zero. -/

namespace PiRp.JsonText

open List Option

/-! ### Strings -/

theorem hexValue?_hexDigit {value : Nat} (hvalue : value < 16) : hexValue? (hexDigit value) = some value := by
  interval_cases value <;> rfl

theorem hexValue4?_unit (unit : UInt16) :
    hexValue4? (hexDigit (unit.toNat / 0x1000)) (hexDigit (unit.toNat / 0x100 % 0x10))
      (hexDigit (unit.toNat / 0x10 % 0x10)) (hexDigit (unit.toNat % 0x10)) = some unit := by
  have hlt := UInt16.toNat_lt unit
  have hsum : unit.toNat / 0x1000 * 0x1000 + unit.toNat / 0x100 % 0x10 * 0x100 +
      unit.toNat / 0x10 % 0x10 * 0x10 + unit.toNat % 0x10 = unit.toNat := by omega
  rw [hexValue4?, hexValue?_hexDigit (by omega), hexValue?_hexDigit (by omega),
    hexValue?_hexDigit (by omega), hexValue?_hexDigit (by omega)]
  simp only [bind_eq_bind, bind_some]
  rw [hsum, UInt16.ofNat_toNat]
  rfl

theorem parseUnits_unicodeEscape (unit : UInt16) (rest : JsStr) : parseUnits (unicodeEscape unit ++ rest) =
      (parseUnits rest).map fun parsed => (unit :: parsed.1, parsed.2) := by
  rw [unicodeEscape]
  simp only [cons_append, nil_append]
  rw [parseUnits.eq_def]
  simp only [if_neg (show backslash ≠ quoteMark by decide), if_true, hexValue4?_unit]

/-- A code unit that stands for itself in a string literal. -/
def IsPlain (unit : UInt16) : Prop := unit ≠ quoteMark ∧ unit ≠ backslash ∧ 0x20 ≤ unit.toNat

variable {unit : UInt16}

theorem parseUnits_plain (hplain : IsPlain unit) (rest : JsStr) : parseUnits (unit :: rest) =
      (parseUnits rest).map fun parsed => (unit :: parsed.1, parsed.2) := by
  rw [parseUnits.eq_def]
  simp only [if_neg hplain.1, if_neg hplain.2.1, if_neg (Nat.not_lt.mpr hplain.2.2)]

theorem unescape?_shortEscape {letter : UInt16} (hesc : shortEscape? unit = some letter) :
    unescape? letter = some unit ∧ letter ≠ 0x75 := by
  unfold shortEscape? at hesc
  split_ifs at hesc with h1 h2 h3 h4 h5 h6 h7
  all_goals
    obtain rfl := Option.some.inj hesc
    subst unit
    decide

theorem parseUnits_shortEscape {letter : UInt16} (hesc : shortEscape? unit = some letter) (rest : JsStr) :
    parseUnits (backslash :: letter :: rest) = (parseUnits rest).map fun parsed => (unit :: parsed.1, parsed.2) := by
  obtain ⟨hunes, hlet⟩ := unescape?_shortEscape hesc
  rw [parseUnits.eq_def]
  simp only [if_neg (show backslash ≠ quoteMark by decide), if_true, if_neg hlet, hunes]

theorem parseUnits_quoteMark (rest : JsStr) : parseUnits (quoteMark :: rest) = some ([], rest) := by
  rw [parseUnits.eq_def]
  simp only [if_true]

theorem isPlain_of_shortEscape?_none (hesc : shortEscape? unit = none) (hcon : 0x20 ≤ unit.toNat) : IsPlain unit := by
  refine ⟨?_, ?_, hcon⟩
  · rintro rfl
    exact nomatch hesc
  · rintro rfl
    exact nomatch hesc

theorem parseUnits_quoteUnit (unit : UInt16) (rest : JsStr) : parseUnits (quoteUnit unit ++ rest) =
      (parseUnits rest).map fun parsed => (unit :: parsed.1, parsed.2) := by
  rw [quoteUnit]
  cases hesc : shortEscape? unit with
  | some letter => exact parseUnits_shortEscape hesc rest
  | none =>
    dsimp only
    split_ifs with hspec
    · exact parseUnits_unicodeEscape unit rest
    · rw [Bool.or_eq_true, Bool.or_eq_true, not_or, not_or, decide_eq_true_eq] at hspec
      exact parseUnits_plain (isPlain_of_shortEscape?_none hesc (by omega)) rest

theorem isPlain_of_surrogate (hsur : isHighSurrogate unit = true ∨ isLowSurrogate unit = true) : IsPlain unit := by
  have hlarge : 0xd800 ≤ unit.toNat := by
    simp only [isHighSurrogate, isLowSurrogate, Bool.and_eq_true, decide_eq_true_eq] at hsur
    omega
  refine ⟨?_, ?_, by omega⟩
  · rintro rfl
    exact absurd hlarge (by decide)
  · rintro rfl
    exact absurd hlarge (by decide)

theorem parseUnits_quoteUnits (text rest : JsStr) :
    parseUnits (quoteUnits text ++ quoteMark :: rest) = some (text, rest) := by
  induction text using quoteUnits.induct with
  | case1 => rw [quoteUnits, nil_append, parseUnits_quoteMark]
  | case2 unit =>
    rw [quoteUnits, parseUnits_quoteUnit, parseUnits_quoteMark]
    rfl
  | case3 high low tail hpair ih =>
    rw [Bool.and_eq_true] at hpair
    rw [quoteUnits, if_pos (by rw [hpair.1, hpair.2]; rfl), cons_append, cons_append,
      parseUnits_plain (isPlain_of_surrogate (.inl hpair.1)),
      parseUnits_plain (isPlain_of_surrogate (.inr hpair.2)), ih]
    rfl
  | case4 high low tail hpair ih =>
    rw [quoteUnits, if_neg hpair, append_assoc, parseUnits_quoteUnit, ih]
    rfl

/-! ### Numbers -/

theorem isNumberUnit_of_step {state next : NumberState}
    (hstep : state.step unit = some next) : isNumberUnit unit = true := by
  have hzero : isDigit 0x30 = true := by decide
  unfold isNumberUnit
  simp only [Bool.or_eq_true, decide_eq_true_eq]
  cases state <;> simp only [NumberState.step] at hstep <;> split_ifs at hstep <;> simp_all
  all_goals tauto

variable {text : JsStr}

theorem readNumber_units {state : NumberState}
    (hread : readNumber state text = true) : ∀ unit ∈ text, isNumberUnit unit = true := by
  induction text generalizing state with
  | nil => exact fun _ hunit => absurd hunit not_mem_nil
  | cons first text ih =>
    intro unit hunit
    rw [readNumber] at hread
    cases hstep : state.step first with
    | none =>
      rw [hstep] at hread
      exact nomatch hread
    | some next =>
      rw [hstep] at hread
      rcases mem_cons.mp hunit with rfl | hunit
      · exact isNumberUnit_of_step hstep
      · exact ih hread unit hunit

theorem isNumberLiteral_head (hlit : isNumberLiteral text = true) :
    ∃ unit rest, text = unit :: rest ∧ (unit = 0x2d || isDigit unit) = true := by
  cases text with
  | nil => exact nomatch hlit
  | cons unit rest =>
    refine ⟨unit, rest, rfl, ?_⟩
    rw [isNumberLiteral, readNumber] at hlit
    rw [Bool.or_eq_true, decide_eq_true_eq]
    by_contra hother
    rw [not_or] at hother
    have hzero : unit ≠ 0x30 := by
      rintro rfl
      exact hother.2 rfl
    simp only [NumberState.step, if_neg hother.1, if_neg hzero, if_neg hother.2] at hlit
    exact nomatch hlit

/-- The text cannot continue a number literal. -/
def Stops (text : JsStr) : Prop := ∀ unit rest, text = unit :: rest → isNumberUnit unit = false

theorem takeWhile_number {rest : JsStr} (hlit : isNumberLiteral text = true) (hstops : Stops rest) :
    (text ++ rest).takeWhile isNumberUnit = text ∧ (text ++ rest).dropWhile isNumberUnit = rest := by
  have hunits := readNumber_units hlit
  rw [takeWhile_append_of_pos hunits, dropWhile_append_of_pos hunits]
  cases rest with
  | nil => exact ⟨append_nil _, rfl⟩
  | cons unit rest =>
    have hunit := hstops unit rest rfl
    rw [takeWhile_cons_of_neg (by rw [hunit]; exact Bool.false_ne_true),
      dropWhile_cons_of_neg (by rw [hunit]; exact Bool.false_ne_true)]
    exact ⟨append_nil _, rfl⟩

/-! ### Values -/

theorem stops_cons (rest : JsStr) (hunit : isNumberUnit unit = false) : Stops (unit :: rest) := by
  intro other tail heq
  cases heq
  exact hunit

theorem skipWhitespace_cons (rest : JsStr) (hunit : isWhitespace unit = false) :
    skipWhitespace (unit :: rest) = unit :: rest :=
  dropWhile_cons_of_neg (by rw [hunit]; exact Bool.false_ne_true)

theorem dropWord_append (word rest : JsStr) : dropWord word (word ++ rest) = some rest := by
  induction word with
  | nil => cases rest <;> rfl
  | cons unit word ih => rw [cons_append, dropWord, if_pos rfl, ih]

theorem quote_append (text rest : JsStr) :
    quote text ++ rest = quoteMark :: (quoteUnits text ++ quoteMark :: rest) := by
  rw [quote, cons_append, append_assoc, singleton_append]

theorem isNumberUnit_not_whitespace (hunit : (unit = 0x2d || isDigit unit) = true) :
    isWhitespace unit = false ∧ unit ≠ closeBracket ∧ unit ≠ quoteMark ∧ unit ≠ openBracket ∧ unit ≠ openBrace := by
  have hrange : 0x2d ≤ unit.toNat ∧ unit.toNat ≤ 0x39 := by
    rw [Bool.or_eq_true, decide_eq_true_eq] at hunit
    rcases hunit with rfl | hdigit
    · decide
    · simp only [isDigit, Bool.and_eq_true, decide_eq_true_eq] at hdigit
      omega
  refine ⟨?_, ?_, ?_, ?_, ?_⟩
  · rw [← Bool.not_eq_true]
    intro hspace
    simp only [isWhitespace, Bool.or_eq_true, decide_eq_true_eq] at hspace
    rcases hspace with ((rfl | rfl) | rfl) | rfl <;> exact absurd hrange (by decide)
  all_goals
    rintro rfl
    exact absurd hrange (by decide)

variable [NumberText]

variable {value : Json}

theorem stringify_head (hvalue : value.Serializable) :
    ∃ unit rest, stringify value = unit :: rest ∧ isWhitespace unit = false ∧ unit ≠ closeBracket := by
  cases hvalue with
  | null => exact ⟨_, _, by rw [stringify]; rfl, by decide, by decide⟩
  | bool value => cases value <;> exact ⟨_, _, by rw [stringify]; rfl, by decide, by decide⟩
  | number hfin =>
    obtain ⟨unit, rest, htext, hunit⟩ := isNumberLiteral_head (NumberText.text_literal _ hfin)
    obtain ⟨hspace, hbrac, _⟩ := isNumberUnit_not_whitespace hunit
    exact ⟨unit, rest, by rw [stringify, htext], hspace, hbrac⟩
  | string value => exact ⟨_, _, by rw [stringify]; rfl, by decide, by decide⟩
  | @array items _ => cases items <;> exact ⟨_, _, by rw [stringify], by decide, by decide⟩
  | @object props _ _ => cases props <;> exact ⟨_, _, by rw [stringify], by decide, by decide⟩

/-- The reader takes exactly the text of the value. -/
def ReadsText (read : JsStr → Option (Json × JsStr)) (value : Json) : Prop :=
  ∀ rest, Stops rest → read (stringify value ++ rest) = some (value.norm, rest)

theorem parseItems_stringify {read : JsStr → Option (Json × JsStr)} {item : Json}
    {items : List Json} {rounds : Nat} (rest : JsStr)
    (hread : ∀ other ∈ item :: items, ReadsText read other) (hroun : items.length < rounds) :
    parseItems read rounds (stringify item ++ (stringifyItems items ++ closeBracket :: rest)) =
      some (item.norm :: Json.normItems items, rest) := by
  induction items generalizing item rounds with
  | nil =>
    obtain ⟨rounds, rfl⟩ : ∃ left, rounds = left + 1 := ⟨rounds - 1, by omega⟩
    have hitem := hread item mem_cons_self (closeBracket :: rest) (stops_cons _ (by decide))
    rw [stringifyItems, nil_append, parseItems, hitem]
    simp only [skipWhitespace_cons rest (show isWhitespace closeBracket = false by decide),
      if_neg (show closeBracket ≠ comma by decide), if_true]
    rw [Json.normItems]
  | cons next items ih =>
    obtain ⟨rounds, rfl⟩ : ∃ left, rounds = left + 1 := ⟨rounds - 1, by omega⟩
    rw [stringifyItems, cons_append, append_assoc]
    have hitem := hread item mem_cons_self
      (comma :: (stringify next ++ (stringifyItems items ++ closeBracket :: rest)))
      (stops_cons _ (by decide))
    have hrest := @ih _ rounds
      (fun other hother => hread other (mem_cons_of_mem _ hother))
      (by rw [length_cons] at hroun; omega)
    rw [parseItems, hitem]
    simp only [skipWhitespace_cons _ (show isWhitespace comma = false by decide), if_true, hrest,
      map_some]
    rw [Json.normItems]

theorem parseMembers_stringify {read : JsStr → Option (Json × JsStr)} {key : JsStr}
    {props : Props Json} {rounds : Nat} (result : Props Json) (rest : JsStr)
    (hread : ∀ entry ∈ (key, value) :: props, ReadsText read entry.2)
    (hord : Props.Ordered (result ++ (key, value.norm) :: Json.normProps props)) (hroun : props.length < rounds) :
    parseMembers read rounds result
        (quote key ++ colon :: (stringify value ++ (stringifyMembers props ++ closeBrace :: rest))) =
      some (result ++ (key, value.norm) :: Json.normProps props, rest) := by
  induction props generalizing key value rounds result with
  | nil =>
    obtain ⟨rounds, rfl⟩ : ∃ left, rounds = left + 1 := ⟨rounds - 1, by omega⟩
    have hvalue := hread _ mem_cons_self (closeBrace :: rest) (stops_cons _ (by decide))
    rw [Json.normProps] at hord ⊢
    rw [stringifyMembers, nil_append, quote_append, parseMembers, skipWhitespace_cons _ (by decide)]
    simp only [ne_eq, not_true_eq_false, if_false, parseUnits_quoteUnits,
      skipWhitespace_cons _ (show isWhitespace colon = false by decide), hvalue,
      skipWhitespace_cons _ (show isWhitespace closeBrace = false by decide),
      if_neg (show closeBrace ≠ comma by decide), if_true, Props.set_last hord]
  | cons entry props ih =>
    obtain ⟨nextKey, nextValue⟩ := entry
    obtain ⟨rounds, rfl⟩ : ∃ left, rounds = left + 1 := ⟨rounds - 1, by omega⟩
    have hsplit : result ++ (key, value.norm) :: Json.normProps ((nextKey, nextValue) :: props) =
        result ++ [(key, value.norm)] ++ (nextKey, nextValue.norm) :: Json.normProps props := by
      rw [Json.normProps, append_assoc, singleton_append]
    rw [hsplit] at hord ⊢
    have hset := Props.set_last (pairwise_append.mp hord).1
    have hrest := @ih _ _ rounds (result ++ [(key, value.norm)])
      (fun entry hentry => hread entry (mem_cons_of_mem _ hentry)) hord
      (by rw [length_cons] at hroun; omega)
    rw [stringifyMembers, cons_append, append_assoc, append_assoc, cons_append,
      quote_append, parseMembers, skipWhitespace_cons _ (by decide)]
    have hvalue := hread _ mem_cons_self
      (comma :: (quote nextKey ++ colon :: (stringify nextValue ++
        (stringifyMembers props ++ closeBrace :: rest)))) (stops_cons _ (by decide))
    simp only [ne_eq, not_true_eq_false, if_false, parseUnits_quoteUnits,
      skipWhitespace_cons _ (show isWhitespace colon = false by decide), hvalue,
      skipWhitespace_cons _ (show isWhitespace comma = false by decide), if_true, hset, hrest]

theorem stringify_length_items {item : Json} {items : List Json} (hitem : item ∈ items) :
    (stringify item).length < (stringifyItems items).length := by
  induction items with
  | nil => exact absurd hitem not_mem_nil
  | cons first items ih =>
    rw [stringifyItems, length_cons, length_append]
    rcases mem_cons.mp hitem with rfl | hitem
    · omega
    · have hlt := ih hitem
      omega

theorem stringify_length_members {entry : JsStr × Json} {props : Props Json}
    (hentry : entry ∈ props) : (stringify entry.2).length < (stringifyMembers props).length := by
  induction props with
  | nil => exact absurd hentry not_mem_nil
  | cons first props ih =>
    rw [stringifyMembers, length_cons, length_append, length_append, length_cons]
    rcases mem_cons.mp hentry with rfl | hentry
    · omega
    · have hlt := ih hentry
      omega

theorem length_stringifyItems (items : List Json) : items.length ≤ (stringifyItems items).length := by
  induction items with
  | nil => exact Nat.zero_le _
  | cons item items ih =>
    rw [stringifyItems, length_cons, length_cons, length_append]
    omega

theorem length_stringifyMembers (props : Props Json) : props.length ≤ (stringifyMembers props).length := by
  induction props with
  | nil => exact Nat.zero_le _
  | cons entry props ih =>
    rw [stringifyMembers, length_cons, length_cons, length_append, length_append, length_cons]
    omega

theorem parseValue_number {value : JsNumber} (hfin : value.isFinite = true) (budget : Nat)
    {rest : JsStr} (hstops : Stops rest) :
    parseValue (budget + 1) (NumberText.text value ++ rest) = some (.number value.norm, rest) := by
  have hlit := NumberText.text_literal value hfin
  obtain ⟨unit, tail, htext, hunit⟩ := isNumberLiteral_head hlit
  obtain ⟨hspace, _, hquote, hbrac, hbrace⟩ := isNumberUnit_not_whitespace hunit
  obtain ⟨htake, hdrop⟩ := takeWhile_number hlit hstops
  have hcons : NumberText.text value ++ rest = unit :: (tail ++ rest) := by
    rw [htext, cons_append]
  rw [hcons] at htake hdrop ⊢
  rw [parseValue, skipWhitespace_cons _ hspace]
  simp only [if_neg hquote, if_neg hbrac, if_neg hbrace, if_pos hunit, htake, hdrop, hlit,
    if_true, NumberText.value_text value hfin]

/-- **The parser takes exactly the text of a serializable value**, whatever follows it. -/
theorem parseValue_stringify (hvalue : value.Serializable) {budget : Nat}
    (hbud : (stringify value).length < budget) : ReadsText (parseValue budget) value := by
  induction hvalue generalizing budget with
  | null =>
    obtain ⟨budget, rfl⟩ : ∃ left, budget = left + 1 := ⟨budget - 1, by omega⟩
    intro rest _
    rw [stringify, Json.norm, parseValue]
    exact congrArg (Option.map _) (dropWord_append (js "ull") rest)
  | bool value =>
    obtain ⟨budget, rfl⟩ : ∃ left, budget = left + 1 := ⟨budget - 1, by omega⟩
    intro rest _
    cases value with
    | false =>
      rw [stringify, Json.norm, parseValue]
      exact congrArg (Option.map _) (dropWord_append (js "alse") rest)
    | true =>
      rw [stringify, Json.norm, parseValue]
      exact congrArg (Option.map _) (dropWord_append (js "rue") rest)
  | number hfin =>
    obtain ⟨budget, rfl⟩ : ∃ left, budget = left + 1 := ⟨budget - 1, by omega⟩
    intro rest hstops
    rw [stringify, Json.norm]
    exact parseValue_number hfin budget hstops
  | string value =>
    obtain ⟨budget, rfl⟩ : ∃ left, budget = left + 1 := ⟨budget - 1, by omega⟩
    intro rest _
    rw [stringify, Json.norm, quote_append, parseValue, skipWhitespace_cons _ (by decide)]
    simp only [if_true, parseUnits_quoteUnits, map_some]
  | @array items hitems ih =>
    obtain ⟨budget, rfl⟩ : ∃ left, budget = left + 1 := ⟨budget - 1, by omega⟩
    intro rest _
    cases items with
    | nil =>
      rw [stringify, Json.norm, Json.normItems, cons_append, parseValue, skipWhitespace_cons _ (by decide)]
      rfl
    | cons item items =>
      rw [stringify, length_cons, length_append, length_append] at hbud
      obtain ⟨unit, tail, hhead, hspace, hbrac⟩ :=
        stringify_head (hitems item mem_cons_self)
      have hread : ∀ other ∈ item :: items, ReadsText (parseValue budget) other := by
        intro other hother
        refine ih other hother ?_
        rcases mem_cons.mp hother with rfl | htail
        · omega
        · have hlt := stringify_length_items htail
          omega
      have hcount := length_stringifyItems items
      have hitemsRead := @parseItems_stringify _ _ _ _ (stringify item ++ (stringifyItems items ++
        closeBracket :: rest)).length rest hread (by
          rw [length_append, length_append, length_cons]
          omega)
      rw [stringify, Json.norm, Json.normItems, cons_append, append_assoc,
        append_assoc, singleton_append, parseValue, skipWhitespace_cons _ (by decide)]
      simp only [if_neg (show openBracket ≠ quoteMark by decide), if_true]
      rw [hhead, cons_append, skipWhitespace_cons _ hspace]
      simp only [if_neg hbrac]
      rw [← cons_append, ← hhead, hitemsRead]
      rfl
  | @object props hord hval ih =>
    obtain ⟨budget, rfl⟩ : ∃ left, budget = left + 1 := ⟨budget - 1, by omega⟩
    intro rest _
    cases props with
    | nil =>
      rw [stringify, Json.norm, Json.normProps, cons_append, parseValue, skipWhitespace_cons _ (by decide)]
      rfl
    | cons entry props =>
      obtain ⟨key, value⟩ := entry
      rw [stringify, length_cons, length_append, length_append, length_append, length_cons] at hbud
      have hread : ∀ entry ∈ (key, value) :: props, ReadsText (parseValue budget) entry.2 := by
        intro entry hentry
        refine ih entry hentry ?_
        rcases mem_cons.mp hentry with rfl | htail
        · dsimp only
          omega
        · have hlt := stringify_length_members htail
          omega
      have hcount := length_stringifyMembers props
      have hnor := Json.normProps_ordered hord
      rw [Json.normProps] at hnor
      have hmembersRead := @parseMembers_stringify _ _ _ _ _ (quote key ++ colon :: (stringify value ++
        (stringifyMembers props ++ closeBrace :: rest))).length [] rest hread hnor (by
          rw [length_append, length_cons, length_append, length_append, length_cons]
          omega)
      rw [stringify, Json.norm, Json.normProps, cons_append, append_assoc,
        append_assoc, append_assoc, cons_append, singleton_append,
        parseValue, skipWhitespace_cons _ (by decide)]
      simp only [if_neg (show openBrace ≠ quoteMark by decide),
        if_neg (show openBrace ≠ openBracket by decide), if_true]
      rw [hmembersRead, quote_append, skipWhitespace_cons _ (by decide)]
      rfl

/-- **`JSON.parse` undoes `JSON.stringify`** up to the sign of zero. -/
theorem parse_stringify (hvalue : value.Serializable) : parse (stringify value) = some value.norm := by
  have hread := parseValue_stringify hvalue (Nat.lt_succ_self _) [] fun _ _ heq => nomatch heq
  rw [append_nil] at hread
  rw [parse, hread]
  rfl

mutual

theorem stringify_norm (value : Json) : stringify value.norm = stringify value := by
  match value with
  | .null => rw [Json.norm]
  | .bool value => rw [Json.norm]
  | .number value => rw [Json.norm, stringify, stringify, NumberText.text_norm]
  | .string value => rw [Json.norm]
  | .array [] => rw [Json.norm, Json.normItems]
  | .array (item :: items) =>
    rw [Json.norm, Json.normItems, stringify, stringify, stringify_norm item, stringifyItems_norm items]
  | .object [] => rw [Json.norm, Json.normProps]
  | .object ((key, value) :: props) =>
    rw [Json.norm, Json.normProps, stringify, stringify, stringify_norm value, stringifyMembers_norm props]

theorem stringifyItems_norm (items : List Json) : stringifyItems (Json.normItems items) = stringifyItems items := by
  match items with
  | [] => rw [Json.normItems]
  | item :: items =>
    rw [Json.normItems, stringifyItems, stringifyItems, stringify_norm item, stringifyItems_norm items]

theorem stringifyMembers_norm (props : List (JsStr × Json)) :
    stringifyMembers (Json.normProps props) = stringifyMembers props := by
  match props with
  | [] => rw [Json.normProps]
  | (key, value) :: props =>
    rw [Json.normProps, stringifyMembers, stringifyMembers, stringify_norm value, stringifyMembers_norm props]

end

end PiRp.JsonText

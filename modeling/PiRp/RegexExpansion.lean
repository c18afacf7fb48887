import PiRp.RegexReplacement

/-! What the two paths of a regex rule make of a template, piece by piece: `expandReplacementTemplate` when no
trim string occurs, and the native expansion of the template that `convertDollarZeroToFullMatch` rewrote. -/

namespace PiRp

open List

namespace RegexEngine

open JsStr

theorem splitGo_absent {separator : JsStr} (piece : JsStr) {text : JsStr}
    (habs : ¬separator <:+: text) : splitGo separator 0 piece text = [piece ++ text] := by
  induction text generalizing piece with
  | nil => simp [splitGo]
  | cons unit rest ih =>
    have hstart : ¬separator.isPrefixOf (unit :: rest) = true := fun hstart =>
      habs ( isPrefixOf_iff_prefix.mp hstart).isInfix
    rw [splitGo, if_neg hstart, ih _ fun hrest => habs (hrest.trans (suffix_cons unit rest).isInfix)]
    simp

theorem trimMatchedValue_eq {value : JsStr} {trimStrings : List JsStr}
    (habs : ∀ trimString ∈ trimStrings, trimString ≠ [] → ¬trimString <:+: value) :
    trimMatchedValue value trimStrings = value := by
  rw [trimMatchedValue]
  induction trimStrings with
  | nil => rfl
  | cons trimString rest ih =>
    have hstep : (if trimString.isEmpty then value else join [] (split trimString value)) = value := by
      split_ifs with hempty
      · rfl
      · rw [split, splitGo_absent [] (habs trimString mem_cons_self (by simpa using hempty))]
        simp [join]
    rw [foldl_cons, hstep]
    exact ih fun other hother => habs other (mem_cons_of_mem _ hother)

namespace Match

theorem mem_values {found : Match} {index : Nat} {value : JsStr}
    (hvalue : found.captures[index]? = some (some value)) : value ∈ found.values := by
  rw [values, mem_cons, List.reduceOption, mem_filterMap]
  exact Or.inr ⟨_, mem_of_getElem? hvalue, rfl⟩

theorem named_mem_values {found : Match} {groups : Groups} {name value : JsStr}
    (hvalue : found.named groups name = some value) : value ∈ found.values := by
  rw [named, Option.join_eq_some_iff] at hvalue
  obtain ⟨before, after, heq, -⟩ := lookup_eq_some_iff.mp hvalue
  have hmem : (some name, some value) ∈ groups.names.zip found.captures := by
    rw [heq]
    exact mem_append_right _ mem_cons_self
  rw [values, mem_cons, List.reduceOption, mem_filterMap]
  exact Or.inr ⟨_, (of_mem_zip hmem).2, rfl⟩

end Match

section Expansion

variable {groups : Groups} {found : Match} {text : JsStr} {trimStrings : List JsStr}

theorem captureAt_eq (hunt : ∀ value ∈ found.values, trimMatchedValue value trimStrings = value)
    (hempty : trimMatchedValue [] trimStrings = []) (index : Nat) :
    expandToken.captureAt found trimStrings index = found.capture index := by
  rw [expandToken.captureAt, Match.capture]
  cases hcap : found.captures[index - 1]? with
  | none => rfl
  | some capture =>
    cases capture with
    | none => exact hempty
    | some value => exact hunt value (Match.mem_values hcap)

theorem namedValue_eq (hunt : ∀ value ∈ found.values, trimMatchedValue value trimStrings = value) (name : JsStr) :
    expandToken.namedValue groups found trimStrings name =
      if groups.isNamed then (found.named groups name).getD [] else [] := by
  rw [expandToken.namedValue]
  split_ifs
  · cases hnamed : found.named groups name with
    | none => rfl
    | some value => exact hunt value (Match.named_mem_values hnamed)
  · rfl

variable {rest : JsStr}

theorem expand_bare (hbare : IsBare rest) : expandToken groups found text trimStrings rest = ([dollar], 0) := by
  cases rest with
  | nil => rfl
  | cons next rest =>
    obtain ⟨hsym, hdigit, hopening⟩ := hbare next rfl
    simp only [symbols, mem_cons, not_mem_nil, or_false, not_or] at hsym
    obtain ⟨hdol, hmat, hbef, hafter⟩ := hsym
    have hzero : next ≠ zero := by
      rintro rfl
      exact absurd hdigit (by decide)
    by_cases hname : next = opening
    · have := hopening hname
      simp_all [expandToken.eq_def]
    · simp [expandToken.eq_def, *]

theorem expand_whole (hstar : startsWithDigit rest = false) :
    expandToken groups found text trimStrings (zero :: rest) = (trimMatchedValue found.matched trimStrings, 1) := by
  simp [expandToken.eq_def, hstar, show zero ≠ dollar by decide,
    show zero ≠ ampersand by decide, show zero ≠ 0x60 by decide, show zero ≠ 0x27 by decide]

theorem expand_padded {second : UInt16} (rest : JsStr) (hsnd : isDigitCode second = true) :
    expandToken groups found text trimStrings (zero :: second :: rest) = ([dollar], 0) := by
  simp [expandToken.eq_def, startsWithDigit_cons, hsnd, show zero ≠ dollar by decide,
    show zero ≠ ampersand by decide, show zero ≠ 0x60 by decide, show zero ≠ 0x27 by decide]

theorem expand_digit {first : UInt16} (hfirst : isDigitCode first = true)
    (hzero : first ≠ zero) (hstar : startsWithDigit rest = false) :
    expandToken groups found text trimStrings (first :: rest) =
      (expandToken.captureAt found trimStrings (digitValue first), 1) := by
  obtain ⟨hdol, hmat, hbef, hafter⟩ := ne_of_digit hfirst
  cases rest with
  | nil => simp [expandToken.eq_def, *]
  | cons next rest =>
    rw [startsWithDigit_cons] at hstar
    simp [expandToken.eq_def, *]

theorem expand_digits {first second : UInt16} (rest : JsStr) (hfirst : isDigitCode first = true)
    (hzero : first ≠ zero) (hsnd : isDigitCode second = true) :
    expandToken groups found text trimStrings (first :: second :: rest) =
      (expandToken.captureAt found trimStrings (digitValue first * 10 + digitValue second), 2) := by
  obtain ⟨hdol, hmat, hbef, hafter⟩ := ne_of_digit hfirst
  simp [expandToken.eq_def, *]

theorem expand_named {name : JsStr} (hname : closing ∉ name) (hne : name ≠ []) (rest : JsStr) :
    expandToken groups found text trimStrings (opening :: (name ++ closing :: rest)) =
      (expandToken.namedValue groups found trimStrings name, name.length + 2) := by
  have hhead : ((name ++ closing :: rest).head? != some closing) = true := by
    obtain ⟨first, others, rfl⟩ := exists_cons_of_ne_nil hne
    rw [mem_cons, not_or] at hname
    simpa using fun heq : first = closing => hname.1 heq.symm
  rw [expandToken.eq_def]
  simp only [takeWhile_closing hname, hhead, show opening ≠ dollar by decide,
    show opening ≠ ampersand by decide, show opening ≠ 0x60 by decide, show opening ≠ 0x27 by decide,
    show opening ≠ zero by decide, show isDigitCode opening = false by decide]
  simp

theorem expand_unnamed (rest : JsStr) :
    expandToken groups found text trimStrings (opening :: closing :: rest) = ([dollar], 0) := by
  simp [expandToken.eq_def, show opening ≠ dollar by decide, show opening ≠ ampersand by decide,
    show opening ≠ 0x60 by decide, show opening ≠ 0x27 by decide, show opening ≠ zero by decide,
    show isDigitCode opening = false by decide]

theorem expandReplacementTemplate_eq (hunt : ∀ value ∈ found.values, trimMatchedValue value trimStrings = value)
    (hempty : trimMatchedValue [] trimStrings = []) (template : JsStr) :
    expandReplacementTemplate groups found text trimStrings template =
      (pieces template).flatMap (Piece.expand groups found text) := by
  rw [expandReplacementTemplate]
  induction template using template_induction with
  | nil => rfl
  | unit unit rest hunit ih =>
    rw [scan_cons _ _ hunit, pieces_cons rest hunit, flatMap_cons, ih]
    rfl
  | bare rest hbare ih =>
    rw [scan_dollar, pieces_dollar, expand_bare hbare, readPiece_bare hbare, flatMap_cons, drop_zero, ih]
    rfl
  | symbol symbol rest hsym ih =>
    rw [scan_dollar, pieces_dollar, flatMap_cons]
    simp only [symbols, mem_cons, not_mem_nil, or_false] at hsym
    obtain rfl | rfl | rfl | rfl := hsym
    · exact congrArg (dollar :: ·) ih
    · exact congrArg₂ (· ++ ·) (hunt _ mem_cons_self) ih
    · exact congrArg₂ (· ++ ·) rfl ih
    · exact congrArg₂ (· ++ ·) rfl ih
  | whole rest hstar ih =>
    rw [scan_dollar, pieces_dollar, expand_whole hstar, readPiece_whole hstar, flatMap_cons]
    exact congrArg₂ (· ++ ·) (hunt _ mem_cons_self) ih
  | padded second rest hsnd ih =>
    rw [scan_dollar, pieces_dollar, expand_padded rest hsnd, readPiece_padded rest hsnd, flatMap_cons,
      drop_zero, scan_cons _ _ (by decide), scan_cons _ _ (ne_of_digit hsnd).1, ih]
    rfl
  | digit first rest hfirst hzero hstar ih =>
    rw [scan_dollar, pieces_dollar, expand_digit hfirst hzero hstar, readPiece_digit hfirst hzero hstar,
      flatMap_cons, captureAt_eq hunt hempty]
    exact congrArg₂ (· ++ ·) rfl ih
  | digits first second rest hfirst hzero hsnd ih =>
    rw [scan_dollar, pieces_dollar, expand_digits rest hfirst hzero hsnd,
      readPiece_digits rest hfirst hzero hsnd, flatMap_cons, captureAt_eq hunt hempty]
    exact congrArg₂ (· ++ ·) rfl ih
  | named name rest hname ih =>
    rw [scan_dollar, pieces_dollar, readPiece_named hname, flatMap_cons, drop_named, Piece.expand]
    split_ifs with hne hnamed
    · subst hne
      rw [nil_append, expand_unnamed, drop_zero, scan_cons _ _ (by decide), scan_cons _ _ (by decide), ih]
      rfl
    all_goals
      rw [expand_named hname hne, drop_named, namedValue_eq hunt, ih]
      simp [hnamed]

end Expansion

section Conversion

theorem convert_cons {unit : UInt16} (rest : JsStr) (hunit : unit ≠ dollar) :
    convertDollarZeroToFullMatch (unit :: rest) = unit :: convertDollarZeroToFullMatch rest := by
  cases rest with
  | nil => rfl
  | cons next rest => rw [convertDollarZeroToFullMatch, if_pos hunit]

variable {rest : JsStr}

theorem convert_bare (hbare : IsBare rest) :
    convertDollarZeroToFullMatch (dollar :: rest) = dollar :: convertDollarZeroToFullMatch rest := by
  cases rest with
  | nil => rfl
  | cons next rest =>
    obtain ⟨hsym, hdigit, -⟩ := hbare next rfl
    have hdol : next ≠ dollar := fun heq => hsym (heq ▸ mem_cons_self)
    have hzero : next ≠ zero := by
      rintro rfl
      exact absurd hdigit (by decide)
    simp [convertDollarZeroToFullMatch, hdol, hzero]

theorem convert_symbol {symbol : UInt16} (rest : JsStr) (hsym : symbol ∈ symbols) :
    convertDollarZeroToFullMatch (dollar :: symbol :: rest) =
      dollar :: symbol :: convertDollarZeroToFullMatch rest := by
  simp only [symbols, mem_cons, not_mem_nil, or_false] at hsym
  obtain rfl | rfl | rfl | rfl := hsym
  · rfl
  all_goals
    rw [convertDollarZeroToFullMatch, if_neg (by simp), if_neg (by decide), if_neg (by simp [zero, ampersand]),
      convert_cons rest (by decide)]

theorem convert_whole (hstar : startsWithDigit rest = false) : convertDollarZeroToFullMatch (dollar :: zero :: rest) =
      dollar :: ampersand :: convertDollarZeroToFullMatch rest := by
  simp [convertDollarZeroToFullMatch, hstar, show zero ≠ dollar by decide]

theorem convert_padded {second : UInt16} (rest : JsStr) (hsnd : isDigitCode second = true) :
    convertDollarZeroToFullMatch (dollar :: zero :: second :: rest) =
      dollar :: zero :: second :: convertDollarZeroToFullMatch rest := by
  rw [convertDollarZeroToFullMatch, if_neg (by simp), if_neg (by decide),
    if_neg (by simp [startsWithDigit_cons, hsnd]), convert_cons _ (show zero ≠ dollar by decide),
    convert_cons _ (ne_of_digit hsnd).1]

theorem convert_digit {first : UInt16} (rest : JsStr) (hfirst : isDigitCode first = true) (hzero : first ≠ zero) :
    convertDollarZeroToFullMatch (dollar :: first :: rest) =
      dollar :: first :: convertDollarZeroToFullMatch rest := by
  rw [convertDollarZeroToFullMatch, if_neg (by simp), if_neg (ne_of_digit hfirst).1, if_neg (by simp [hzero]),
    convert_cons rest (ne_of_digit hfirst).1]

theorem convert_opening (rest : JsStr) : convertDollarZeroToFullMatch (dollar :: opening :: rest) =
      dollar :: opening :: convertDollarZeroToFullMatch rest := by
  rw [convertDollarZeroToFullMatch, if_neg (by simp), if_neg (by decide), if_neg (by simp [zero, opening]),
    convert_cons rest (by decide)]

theorem head?_convert (template : JsStr) : (convertDollarZeroToFullMatch template).head? = template.head? := by
  induction template using template_induction with
  | nil => rfl
  | unit unit rest hunit ih => rw [convert_cons rest hunit, head?_cons, head?_cons]
  | bare rest hbare ih => rw [convert_bare hbare, head?_cons, head?_cons]
  | symbol symbol rest hsym ih => rw [convert_symbol rest hsym, head?_cons, head?_cons]
  | whole rest hstar ih => rw [convert_whole hstar, head?_cons, head?_cons]
  | padded second rest hsnd ih => rw [convert_padded rest hsnd, head?_cons, head?_cons]
  | digit first rest hfirst hzero hstar ih =>
    rw [convert_digit rest hfirst hzero, head?_cons, head?_cons]
  | digits first second rest hfirst hzero hsnd ih =>
    rw [convert_digit _ hfirst hzero, head?_cons, head?_cons]
  | named name rest hname ih => rfl

theorem startsWithDigit_convert (template : JsStr) :
    startsWithDigit (convertDollarZeroToFullMatch template) = startsWithDigit template := by
  rw [startsWithDigit, head?_convert, startsWithDigit]

theorem startsWithDigit_append (tail rest : JsStr) :
    startsWithDigit (tail ++ closing :: rest) = startsWithDigit tail := by
  cases tail with
  | nil => exact startsWithDigit_cons.trans (by decide)
  | cons first others => rfl

theorem convert_append (rest : JsStr) (name : JsStr) : convertDollarZeroToFullMatch (name ++ closing :: rest) =
      convertDollarZeroToFullMatch name ++ closing :: convertDollarZeroToFullMatch rest := by
  induction name using convertDollarZeroToFullMatch.induct with
  | case1 => exact convert_cons rest (by decide)
  | case2 unit =>
    by_cases hunit : unit = dollar
    · subst hunit
      have hclos : convertDollarZeroToFullMatch (closing :: rest) =
          closing :: convertDollarZeroToFullMatch rest := convert_cons rest (by decide)
      simp [convertDollarZeroToFullMatch, hclos, show closing ≠ dollar by decide,
        show closing ≠ zero by decide]
    · exact (convert_cons _ hunit).trans (congrArg (unit :: ·) (convert_cons rest (by decide)))
  | case3 unit next tail hunit ih =>
    rw [convertDollarZeroToFullMatch, if_pos hunit, cons_append, convert_cons _ hunit, ih, cons_append]
  | case4 unit tail hunit ih =>
    rw [convertDollarZeroToFullMatch, if_neg hunit, if_pos rfl, cons_append, cons_append,
      convertDollarZeroToFullMatch, if_neg hunit, if_pos rfl, ih, cons_append, cons_append]
  | case5 unit next tail hunit hnext hwhole ih =>
    have hwhole' : (decide (next = zero) && !startsWithDigit (tail ++ closing :: rest)) = true := by
      rwa [startsWithDigit_append]
    rw [convertDollarZeroToFullMatch, if_neg hunit, if_neg hnext, if_pos hwhole, cons_append,
      cons_append, convertDollarZeroToFullMatch, if_neg hunit, if_neg hnext, if_pos hwhole', ih,
      cons_append, cons_append]
  | case6 unit next tail hunit hnext hwhole ih =>
    have hwhole' : ¬(decide (next = zero) && !startsWithDigit (tail ++ closing :: rest)) = true := by
      rwa [startsWithDigit_append]
    rw [convertDollarZeroToFullMatch, if_neg hunit, if_neg hnext, if_neg hwhole, cons_append,
      cons_append, convertDollarZeroToFullMatch, if_neg hunit, if_neg hnext, if_neg hwhole',
      ← cons_append, ih, cons_append]

theorem mem_convert {unit : UInt16} (hunit : unit ≠ ampersand) (template : JsStr) :
    unit ∈ convertDollarZeroToFullMatch template → unit ∈ template := by
  induction template using convertDollarZeroToFullMatch.induct with
  | case1 => exact id
  | case2 first => exact id
  | case3 first next tail hfirst ih =>
    rw [convertDollarZeroToFullMatch, if_pos hfirst, mem_cons, mem_cons]
    exact Or.imp_right ih
  | case4 first tail hfirst ih =>
    rw [convertDollarZeroToFullMatch, if_neg hfirst, if_pos rfl]
    simp only [mem_cons]
    tauto
  | case5 first next tail hfirst hnext hwhole ih =>
    rw [convertDollarZeroToFullMatch, if_neg hfirst, if_neg hnext, if_pos hwhole]
    rw [not_not] at hfirst
    simp only [mem_cons, hfirst]
    tauto
  | case6 first next tail hfirst hnext hwhole ih =>
    rw [convertDollarZeroToFullMatch, if_neg hfirst, if_neg hnext, if_neg hwhole]
    rw [not_not] at hfirst
    simp only [mem_cons, hfirst] at ih ⊢
    tauto

theorem ampersand_mem_convert (template : JsStr) :
    convertDollarZeroToFullMatch template = template ∨ ampersand ∈ convertDollarZeroToFullMatch template := by
  induction template using convertDollarZeroToFullMatch.induct with
  | case1 => exact Or.inl rfl
  | case2 first => exact Or.inl rfl
  | case3 first next tail hfirst ih =>
    rw [convertDollarZeroToFullMatch, if_pos hfirst]
    exact ih.imp (congrArg (first :: ·)) (mem_cons_of_mem _)
  | case4 first tail hfirst ih =>
    rw [convertDollarZeroToFullMatch, if_neg hfirst, if_pos rfl]
    rw [not_not] at hfirst
    exact ih.imp (fun heq => by rw [heq, hfirst]) fun hmem => mem_cons_of_mem _ (mem_cons_of_mem _ hmem)
  | case5 first next tail hfirst hnext hwhole ih =>
    rw [convertDollarZeroToFullMatch, if_neg hfirst, if_neg hnext, if_pos hwhole]
    exact Or.inr (mem_cons_of_mem _ mem_cons_self)
  | case6 first next tail hfirst hnext hwhole ih =>
    rw [convertDollarZeroToFullMatch, if_neg hfirst, if_neg hnext, if_neg hwhole]
    rw [not_not] at hfirst
    exact ih.imp (fun heq => by rw [heq, hfirst]) (mem_cons_of_mem _)

theorem isBare_convert (hbare : IsBare rest) : IsBare (convertDollarZeroToFullMatch rest) := by
  intro next hnext
  rw [head?_convert] at hnext
  obtain ⟨hsym, hdigit, hopening⟩ := hbare next hnext
  exact ⟨hsym, hdigit, fun heq hmem => hopening heq (mem_convert (by decide) rest hmem)⟩

end Conversion

section Substitution

variable {groups : Groups} {found : Match} {text : JsStr}

variable {rest : JsStr}

theorem substitution_bare (hbare : IsBare rest) (hhead : rest.head? ≠ some opening) :
    substitution groups found text rest = ([dollar], 0) := by
  cases rest with
  | nil => rfl
  | cons next rest =>
    obtain ⟨hsym, hdigit, -⟩ := hbare next rfl
    simp only [symbols, mem_cons, not_mem_nil, or_false, not_or] at hsym
    obtain ⟨hdol, hmat, hbef, hafter⟩ := hsym
    have hopening : next ≠ opening := fun heq => hhead (congrArg some heq)
    simp [substitution.eq_def, *]

theorem substitution_open (hopen : groups.isNamed = false ∨ closing ∉ rest) :
    substitution groups found text (opening :: rest) = ([dollar, opening], 1) := by
  have hunn : (groups.isNamed && rest.contains closing) = false := by
    rw [Bool.and_eq_false_iff]
    exact hopen.imp_right fun hnot => by simpa using hnot
  rw [substitution.eq_def]
  simp only [hunn, show opening ≠ dollar by decide, show opening ≠ ampersand by decide,
    show opening ≠ 0x60 by decide, show opening ≠ 0x27 by decide, show isDigitCode opening = false by decide]
  simp

theorem substitution_named {name : JsStr} (hname : closing ∉ name) (rest : JsStr)
    (hnamed : groups.isNamed = true) : substitution groups found text (opening :: (name ++ closing :: rest)) =
      ((found.named groups name).getD [], name.length + 2) := by
  rw [substitution.eq_def]
  simp only [takeWhile_closing hname, hnamed, show opening ≠ dollar by decide,
    show opening ≠ ampersand by decide, show opening ≠ 0x60 by decide, show opening ≠ 0x27 by decide,
    show isDigitCode opening = false by decide]
  simp

theorem substitution_digit {first : UInt16} (hfirst : isDigitCode first = true)
    (hstar : startsWithDigit rest = false) : substitution groups found text (first :: rest) =
      (if 1 ≤ digitValue first ∧ digitValue first ≤ groups.count then found.capture (digitValue first)
        else [dollar, first], 1) := by
  obtain ⟨hdol, hmat, hbef, hafter⟩ := ne_of_digit hfirst
  cases rest with
  | nil =>
    simp only [substitution.eq_def, hdol, hmat, hbef, hafter, hfirst, if_false, if_true]
    split_ifs <;> simp_all
  | cons next rest =>
    rw [startsWithDigit_cons] at hstar
    simp only [substitution.eq_def, hdol, hmat, hbef, hafter, hfirst, hstar, if_false, if_true]
    split_ifs <;> simp_all

theorem substitution_digits {first second : UInt16} (rest : JsStr) (hfirst : isDigitCode first = true)
    (hsnd : isDigitCode second = true) : substitution groups found text (first :: second :: rest) =
      if digitValue first * 10 + digitValue second ≤ groups.count then
        (if 1 ≤ digitValue first * 10 + digitValue second then
            found.capture (digitValue first * 10 + digitValue second) else [dollar, first, second], 2)
      else (if 1 ≤ digitValue first ∧ digitValue first ≤ groups.count then found.capture (digitValue first)
        else [dollar, first], 1) := by
  obtain ⟨hdol, hmat, hbef, hafter⟩ := ne_of_digit hfirst
  simp only [substitution.eq_def, hdol, hmat, hbef, hafter, hfirst, hsnd, if_false, if_true]
  split_ifs <;> simp_all

theorem substitution_append (hunn : groups.isNamed = false) (tail rest : JsStr) :
    substitution groups found text (tail ++ closing :: rest) = substitution groups found text tail ∧
      (substitution groups found text tail).2 ≤ tail.length := by
  induction tail using reference_cases with
  | bare tail hbare =>
    by_cases hhead : tail.head? = some opening
    · obtain ⟨others, rfl⟩ := head?_eq_some_iff.mp hhead
      rw [cons_append, substitution_open (Or.inl hunn), substitution_open (Or.inl hunn)]
      exact ⟨rfl, Nat.succ_le_succ (Nat.zero_le _)⟩
    · have hhead' : (tail ++ closing :: rest).head? ≠ some opening := by
        cases tail with
        | nil => exact fun heq => absurd (Option.some.inj heq) (by decide)
        | cons first others => exact hhead
      have hbare' : IsBare (tail ++ closing :: rest) := by
        intro next hnext
        cases tail with
        | nil =>
          obtain rfl : closing = next := Option.some.inj hnext
          exact ⟨by decide, by decide, fun heq => absurd heq (by decide)⟩
        | cons first others =>
          obtain rfl : first = next := Option.some.inj hnext
          exact ⟨(hbare first rfl).1, (hbare first rfl).2.1, fun heq => absurd (congrArg some heq) hhead⟩
      rw [substitution_bare hbare hhead, substitution_bare hbare' hhead']
      exact ⟨rfl, Nat.zero_le _⟩
  | symbol symbol others hsym =>
    simp only [symbols, mem_cons, not_mem_nil, or_false] at hsym
    obtain rfl | rfl | rfl | rfl := hsym
    all_goals exact ⟨rfl, Nat.succ_le_succ (Nat.zero_le _)⟩
  | whole others hstar =>
    rw [cons_append, substitution_digit (by decide) hstar,
      substitution_digit (by decide) (by rwa [startsWithDigit_append])]
    exact ⟨rfl, Nat.succ_le_succ (Nat.zero_le _)⟩
  | padded second others hsnd =>
    rw [cons_append, cons_append, substitution_digits _ (by decide) hsnd,
      substitution_digits _ (by decide) hsnd]
    refine ⟨rfl, ?_⟩
    split_ifs <;> simp
  | digit first others hfirst hzero hstar =>
    rw [cons_append, substitution_digit hfirst hstar, substitution_digit hfirst (by rwa [startsWithDigit_append])]
    exact ⟨rfl, Nat.succ_le_succ (Nat.zero_le _)⟩
  | digits first second others hfirst hzero hsnd =>
    rw [cons_append, cons_append, substitution_digits _ hfirst hsnd, substitution_digits _ hfirst hsnd]
    refine ⟨rfl, ?_⟩
    split_ifs <;> simp
  | named name others hname =>
    rw [cons_append, substitution_open (Or.inl hunn), substitution_open (Or.inl hunn)]
    exact ⟨rfl, Nat.succ_le_succ (Nat.zero_le _)⟩

theorem getSubstitution_append (hunn : groups.isNamed = false) (tail rest : JsStr) :
    getSubstitution groups found text (tail ++ closing :: rest) =
      getSubstitution groups found text tail ++ closing :: getSubstitution groups found text rest := by
  induction hlength : tail.length using Nat.strong_induction_on generalizing tail with
  | h length ih =>
    cases tail with
    | nil => exact scan_cons _ rest (by decide)
    | cons unit tail =>
      rw [length_cons] at hlength
      by_cases hunit : unit = dollar
      · subst hunit
        obtain ⟨heq, hle⟩ := @substitution_append groups found text hunn tail rest
        have hrest := ih (tail.drop (substitution groups found text tail).2).length
          (by rw [length_drop]; omega) _ rfl
        rw [getSubstitution, cons_append, scan_dollar, heq, drop_append_of_le_length hle,
          getSubstitution, scan_dollar, append_assoc]
        exact congrArg _ hrest
      · rw [getSubstitution, cons_append, scan_cons _ _ hunit, getSubstitution, scan_cons _ _ hunit]
        exact congrArg (unit :: ·) (ih tail.length (by omega) tail rfl)

theorem one_le_digitValue {unit : UInt16} (hdigit : isDigitCode unit = true) (hzero : unit ≠ zero) :
    1 ≤ digitValue unit := by
  simp only [isDigitCode, Bool.and_eq_true, decide_eq_true_eq, UInt16.le_iff_toNat_le] at hdigit
  have hne : unit.toNat ≠ 48 := fun heq => hzero (UInt16.toNat_inj.mp heq)
  have := hdigit.1
  simp only [digitValue]
  change 48 ≤ unit.toNat at this
  omega

theorem getSubstitution_eq (template : JsStr) :
    getSubstitution groups found text (convertDollarZeroToFullMatch template) =
      (pieces template).flatMap (Piece.substitute groups found text) := by
  induction template using template_induction with
  | nil => rfl
  | unit unit rest hunit ih =>
    rw [convert_cons rest hunit, getSubstitution, scan_cons _ _ hunit, pieces_cons rest hunit, flatMap_cons, ← ih]
    rfl
  | bare rest hbare ih =>
    rw [convert_bare hbare, getSubstitution, scan_dollar, pieces_dollar, readPiece_bare hbare, flatMap_cons,
      drop_zero, ← ih]
    by_cases hhead : rest.head? = some opening
    · obtain ⟨tail, rfl⟩ := head?_eq_some_iff.mp hhead
      have hclos : closing ∉ convertDollarZeroToFullMatch tail := fun hmem =>
        (hbare opening rfl).2.2 rfl (mem_cons_of_mem _ (mem_convert (by decide) tail hmem))
      rw [convert_cons tail (by decide), substitution_open (Or.inr hclos), getSubstitution,
        scan_cons _ _ (by decide)]
      rfl
    · rw [substitution_bare (isBare_convert hbare) (by rwa [head?_convert])]
      rfl
  | symbol symbol rest hsym ih =>
    rw [convert_symbol rest hsym, getSubstitution, scan_dollar, pieces_dollar, flatMap_cons]
    simp only [symbols, mem_cons, not_mem_nil, or_false] at hsym
    obtain rfl | rfl | rfl | rfl := hsym
    all_goals exact congrArg₂ (· ++ ·) rfl ih
  | whole rest hstar ih =>
    rw [convert_whole hstar, getSubstitution, scan_dollar, pieces_dollar, readPiece_whole hstar, flatMap_cons]
    exact congrArg₂ (· ++ ·) rfl ih
  | padded second rest hsnd ih =>
    rw [convert_padded rest hsnd, getSubstitution, scan_dollar, pieces_dollar, readPiece_padded rest hsnd,
      flatMap_cons, substitution_digits _ (by decide) hsnd, drop_succ_cons, drop_succ_cons,
      drop_zero, ← ih, Piece.substitute, show digitValue zero = 0 from rfl, Nat.zero_mul, Nat.zero_add]
    by_cases hgroup : digitValue second ≤ groups.count
    · rw [if_pos hgroup]
      by_cases hpos : 1 ≤ digitValue second
      · rw [if_pos hpos, if_pos ⟨hpos, hgroup⟩]
        rfl
      · rw [if_neg hpos, if_neg fun h => hpos h.1]
        rfl
    · rw [if_neg hgroup, if_neg (by omega), if_neg fun h => hgroup h.2, drop_succ_cons, drop_zero,
        scan_cons _ _ (ne_of_digit hsnd).1]
      rfl
  | digit first rest hfirst hzero hstar ih =>
    rw [convert_digit rest hfirst hzero, getSubstitution, scan_dollar, pieces_dollar,
      readPiece_digit hfirst hzero hstar, flatMap_cons,
      substitution_digit hfirst (by rwa [startsWithDigit_convert]), Piece.substitute]
    simp only [one_le_digitValue hfirst hzero, true_and]
    exact congrArg₂ (· ++ ·) rfl ih
  | digits first second rest hfirst hzero hsnd ih =>
    have hpos := one_le_digitValue hfirst hzero
    rw [convert_digit _ hfirst hzero, convert_cons rest (ne_of_digit hsnd).1, getSubstitution, scan_dollar,
      pieces_dollar, readPiece_digits rest hfirst hzero hsnd, flatMap_cons,
      substitution_digits _ hfirst hsnd, drop_succ_cons, drop_succ_cons, drop_zero, ← ih,
      Piece.substitute]
    by_cases hgroup : digitValue first * 10 + digitValue second ≤ groups.count
    · rw [if_pos hgroup, if_pos hgroup, if_pos (by omega)]
      rfl
    · rw [if_neg hgroup, if_neg hgroup, drop_succ_cons, drop_zero, scan_cons _ _ (ne_of_digit hsnd).1]
      by_cases hfal : digitValue first ≤ groups.count
      · rw [if_pos ⟨hpos, hfal⟩, if_pos hfal, append_assoc]
        rfl
      · rw [if_neg fun h => hfal h.2, if_neg hfal]
        rfl
  | named name rest hname ih =>
    have hcon : closing ∉ convertDollarZeroToFullMatch name := fun hmem =>
      hname (mem_convert (by decide) name hmem)
    rw [pieces_dollar, readPiece_named hname, flatMap_cons, drop_named, Piece.substitute, ← ih,
      convert_opening, convert_append, getSubstitution, scan_dollar]
    split_ifs with hnamed
    · rw [substitution_named hcon _ hnamed, drop_named]
      rfl
    · have hunn : groups.isNamed = false := Bool.eq_false_iff.mpr hnamed
      rw [substitution_open (Or.inl hunn), drop_succ_cons, drop_zero]
      have := @getSubstitution_append groups found text hunn
        (convertDollarZeroToFullMatch name) (convertDollarZeroToFullMatch rest)
      simpa [getSubstitution] using this

end Substitution

end RegexEngine

end PiRp

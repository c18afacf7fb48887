import PiRp.JsonDecimal
import PiRp.JsonTextPrefix

/-! `repairJson` in `packages/ai/src/utils/json-parse.ts`. It follows the string literals of a text, escapes the control
characters in them and doubles the backslashes that it takes to escape nothing. What JSON escapes is stated beside it:
a `u` needs four hexadecimal digits behind it. -/

namespace PiRp.JsonRepair

open List JsonText

/-! ### The repair -/

def unicodeMark : UInt16 := 0x75

/-- `VALID_JSON_ESCAPES`. -/
def validJsonEscapes : List UInt16 := [quoteMark, backslash, 0x2f, 0x62, 0x66, 0x6e, 0x72, 0x74, unicodeMark]

def isControlCharacter (char : UInt16) : Bool := char.toNat ≤ 0x1f

def escapeControlCharacter (char : UInt16) : JsStr :=
  if char = 0x08 then js "\\b"
  else if char = 0x0c then js "\\f"
  else if char = 0x0a then js "\\n"
  else if char = 0x0d then js "\\r"
  else if char = 0x09 then js "\\t"
  else unicodeEscape char

/-- `/^[0-9a-fA-F]{4}$/`. -/
def isHex4 (digits : JsStr) : Bool := digits.length = 4 && digits.all fun digit => (hexValue? digit).isSome

/-- The loop of `repairJson`. -/
def repairFrom (inString : Bool) (json : JsStr) : JsStr :=
  match json with
  | [] => []
  | char :: rest =>
    if !inString then char :: repairFrom (char = quoteMark) rest
    else if char = quoteMark then char :: repairFrom false rest
    else if char = backslash then
      match rest with
      | [] => [backslash, backslash]
      | nextChar :: after =>
        if nextChar = unicodeMark ∧ isHex4 (after.take 4) = true then
          [backslash, unicodeMark] ++ after.take 4 ++ repairFrom true (after.drop 4)
        else if nextChar ∈ validJsonEscapes then [backslash, nextChar] ++ repairFrom true after
        else [backslash, backslash] ++ repairFrom true (nextChar :: after)
    else (if isControlCharacter char then escapeControlCharacter char else [char]) ++ repairFrom true rest
  termination_by json.length
  decreasing_by
    all_goals simp only [length_cons, length_drop]
    all_goals omega

def repairJson (json : JsStr) : JsStr := repairFrom false json

/-! ### Escape sequences of JSON -/

/-- How many characters behind a backslash are its escape sequence, if it begins one. -/
def escapeLength : JsStr → Option Nat
  | [] => none
  | letter :: after =>
    if letter = unicodeMark then if isHex4 (after.take 4) then some 5 else none
    else (unescape? letter).map fun _ => 1

/-- The text with what is wrong in its string literals corrected: raw control characters are escaped, and a backslash
that begins no escape sequence is doubled. -/
def correctFrom (inString : Bool) (text : JsStr) : JsStr :=
  match text with
  | [] => []
  | char :: rest =>
    if !inString then char :: correctFrom (char = quoteMark) rest
    else if char = quoteMark then char :: correctFrom false rest
    else if char = backslash then
      match escapeLength rest with
      | some length => backslash :: (rest.take length ++ correctFrom true (rest.drop length))
      | none => [backslash, backslash] ++ correctFrom true rest
    else (if char.toNat < 0x20 then quoteUnit char else [char]) ++ correctFrom true rest
  termination_by text.length
  decreasing_by
    all_goals simp only [length_cons, length_drop]
    all_goals omega

def correct (text : JsStr) : JsStr := correctFrom false text

/-- In some string literal a backslash stands before a `u` without four hexadecimal digits. -/
def brokenFrom (inString : Bool) (text : JsStr) : Bool :=
  match text with
  | [] => false
  | char :: rest =>
    if !inString then brokenFrom (char = quoteMark) rest
    else if char = quoteMark then brokenFrom false rest
    else if char = backslash then
      match escapeLength rest with
      | some length => brokenFrom true (rest.drop length)
      | none => rest.head? = some unicodeMark || brokenFrom true rest
    else brokenFrom true rest
  termination_by text.length
  decreasing_by
    all_goals simp only [length_cons, length_drop]
    all_goals omega

/-- The string literals are closed and hold what JSON allows in them. -/
def literalsValid (inString : Bool) (text : JsStr) : Bool :=
  match text with
  | [] => !inString
  | char :: rest =>
    if !inString then literalsValid (char = quoteMark) rest
    else if char = quoteMark then literalsValid false rest
    else if char = backslash then
      match escapeLength rest with
      | some length => literalsValid true (rest.drop length)
      | none => false
    else 0x20 ≤ char.toNat && literalsValid true rest
  termination_by text.length
  decreasing_by
    all_goals simp only [length_cons, length_drop]
    all_goals omega

/-! ### What the repair does -/

variable {letter : UInt16}

theorem mem_validJsonEscapes :
    letter ∈ validJsonEscapes ↔ letter = unicodeMark ∨ (unescape? letter).isSome = true := by
  constructor
  · intro hmem
    simp only [validJsonEscapes, mem_cons, not_mem_nil, or_false] at hmem
    rcases hmem with rfl | rfl | rfl | rfl | rfl | rfl | rfl | rfl | rfl <;> decide
  · rintro (rfl | hsome)
    · decide
    · unfold unescape? at hsome
      split_ifs at hsome <;> simp_all [validJsonEscapes]

variable {after : JsStr}

theorem escapeLength_cons {length : Nat} (hlen : escapeLength (letter :: after) = some length) :
    (letter = unicodeMark ∧ isHex4 (after.take 4) = true ∧ length = 5) ∨
      (letter ≠ unicodeMark ∧ letter ∈ validJsonEscapes ∧ length = 1) := by
  rw [escapeLength] at hlen
  split_ifs at hlen with hunicode hhex
  · exact .inl ⟨hunicode, hhex, (Option.some.inj hlen).symm⟩
  · obtain ⟨unit, hunit, heq⟩ := Option.map_eq_some_iff.mp hlen
    exact .inr ⟨hunicode, mem_validJsonEscapes.mpr (.inr (by rw [hunit]; rfl)), heq.symm⟩

theorem escapeLength_eq_none (hlen : escapeLength (letter :: after) = none) :
    (letter = unicodeMark ∧ isHex4 (after.take 4) = false) ∨ letter ∉ validJsonEscapes := by
  rw [escapeLength] at hlen
  split_ifs at hlen with hunicode hhex
  · exact .inl ⟨hunicode, Bool.not_eq_true _ ▸ hhex⟩
  · refine .inr fun hmem => ?_
    rcases mem_validJsonEscapes.mp hmem with hsame | hsome
    · exact hunicode hsame
    · rw [Option.map_eq_none_iff.mp hlen] at hsome
      exact nomatch hsome

@[simp] theorem repairFrom_nil (inString : Bool) : repairFrom inString [] = [] := by
  rw [repairFrom.eq_def]

theorem repairFrom_outside (char : UInt16) (rest : JsStr) :
    repairFrom false (char :: rest) = char :: repairFrom (char = quoteMark) rest := by
  rw [repairFrom.eq_def]
  rfl

theorem repairFrom_quoteMark (rest : JsStr) :
    repairFrom true (quoteMark :: rest) = quoteMark :: repairFrom false rest := by
  rw [repairFrom.eq_def]
  rfl

variable {char : UInt16}

theorem repairFrom_plain (hquote : char ≠ quoteMark) (hback : char ≠ backslash) (rest : JsStr) :
    repairFrom true (char :: rest) =
      (if isControlCharacter char then escapeControlCharacter char else [char]) ++ repairFrom true rest := by
  rw [repairFrom.eq_def]
  simp only [if_neg hquote, if_neg hback]
  rfl

variable {rest : JsStr}

theorem repairFrom_escape {length : Nat} (hlen : escapeLength rest = some length) :
    repairFrom true (backslash :: rest) = backslash :: (rest.take length ++ repairFrom true (rest.drop length)) := by
  cases rest with
  | nil => exact nomatch hlen
  | cons letter after =>
    rw [repairFrom.eq_def]
    simp only [Bool.not_true, Bool.false_eq_true, if_false, if_neg (show backslash ≠ quoteMark by decide), if_true]
    rcases escapeLength_cons hlen with ⟨rfl, hhex, rfl⟩ | ⟨hne, hmem, rfl⟩
    · simp [hhex]
    · simp [hne, hmem]

theorem repairFrom_broken (hhex : isHex4 (after.take 4) = false) :
    repairFrom true (backslash :: unicodeMark :: after) = [backslash, unicodeMark] ++ repairFrom true after := by
  rw [repairFrom.eq_def]
  simp [hhex, mem_validJsonEscapes, show backslash ≠ quoteMark by decide]

theorem repairFrom_doubled (hlen : escapeLength rest = none) (hhead : rest.head? ≠ some unicodeMark) :
    repairFrom true (backslash :: rest) = [backslash, backslash] ++ repairFrom true rest := by
  rw [repairFrom.eq_def]
  simp only [Bool.not_true, Bool.false_eq_true, if_false, if_neg (show backslash ≠ quoteMark by decide), if_true]
  cases rest with
  | nil => simp
  | cons letter after =>
    have hne : letter ≠ unicodeMark := fun hsame => hhead (by rw [hsame]; rfl)
    rcases escapeLength_eq_none hlen with ⟨hsame, -⟩ | hmem
    · exact absurd hsame hne
    · simp [hne, hmem]

variable {inString : Bool} {text : JsStr}

/-- Valid literals are left as they are. -/
theorem repairFrom_of_valid (hvalid : literalsValid inString text = true) : repairFrom inString text = text := by
  fun_induction literalsValid inString text with
  | case1 => exact repairFrom_nil _
  | case2 inString char rest hout ih =>
    obtain rfl : inString = false := by simpa using hout
    rw [repairFrom_outside, ih hvalid]
  | case3 inString rest hout ih =>
    obtain rfl : inString = true := by simpa using hout
    rw [repairFrom_quoteMark, ih hvalid]
  | case4 inString rest hout length hlen hquote ih =>
    obtain rfl : inString = true := by simpa using hout
    rw [repairFrom_escape hlen, ih hvalid, take_append_drop]
  | case5 => exact nomatch hvalid
  | case6 inString char rest hout hquote hback ih =>
    obtain rfl : inString = true := by simpa using hout
    rw [Bool.and_eq_true, decide_eq_true_eq] at hvalid
    have hcontrol : isControlCharacter char = false := by
      rw [isControlCharacter, decide_eq_false_iff_not]
      omega
    rw [repairFrom_plain hquote hback, hcontrol, ih hvalid.2]
    rfl

theorem escapeControlCharacter_eq (hchar : char.toNat < 0x20) : escapeControlCharacter char = quoteUnit char := by
  obtain ⟨value, hvalue, rfl⟩ : ∃ value, value < 0x20 ∧ char = UInt16.ofNat value :=
    ⟨char.toNat, hchar, UInt16.ofNat_toNat.symm⟩
  interval_cases value <;> decide

theorem correctFrom_plain (hquote : char ≠ quoteMark) (hback : char ≠ backslash) (rest : JsStr) :
    correctFrom true (char :: rest) =
      (if char.toNat < 0x20 then quoteUnit char else [char]) ++ correctFrom true rest := by
  rw [correctFrom.eq_def]
  simp only [if_neg hquote, if_neg hback]
  rfl

/-- Without such a backslash the repair is the correction. -/
theorem repairFrom_of_not_broken (hbroken : brokenFrom inString text = false) :
    repairFrom inString text = correctFrom inString text := by
  fun_induction brokenFrom inString text with
  | case1 =>
    rw [repairFrom_nil, correctFrom.eq_def]
  | case2 inString char rest hout ih =>
    obtain rfl : inString = false := by simpa using hout
    rw [repairFrom_outside, ih hbroken]
    conv_rhs => rw [correctFrom.eq_def]
    rfl
  | case3 inString rest hout ih =>
    obtain rfl : inString = true := by simpa using hout
    rw [repairFrom_quoteMark, ih hbroken]
    conv_rhs => rw [correctFrom.eq_def]
    rfl
  | case4 inString rest hout length hlen hquote ih =>
    obtain rfl : inString = true := by simpa using hout
    rw [repairFrom_escape hlen, ih hbroken]
    conv_rhs => rw [correctFrom.eq_def]
    simp [hlen, hquote]
  | case5 inString rest hout hlen hquote ih =>
    obtain rfl : inString = true := by simpa using hout
    rw [Bool.or_eq_false_iff, decide_eq_false_iff_not] at hbroken
    rw [repairFrom_doubled hlen hbroken.1, ih hbroken.2]
    conv_rhs => rw [correctFrom.eq_def]
    simp [hlen, hquote]
  | case6 inString char rest hout hquote hback ih =>
    obtain rfl : inString = true := by simpa using hout
    rw [repairFrom_plain hquote hback, correctFrom_plain hquote hback, ih hbroken]
    by_cases hchar : char.toNat < 0x20
    · have hcontrol : isControlCharacter char = true := by
        rw [isControlCharacter, decide_eq_true_eq]
        omega
      rw [hcontrol, if_pos rfl, if_pos hchar, escapeControlCharacter_eq hchar]
    · have hcontrol : isControlCharacter char = false := by
        rw [isControlCharacter, decide_eq_false_iff_not]
        omega
      rw [hcontrol, if_neg hchar]
      rfl

/-! ### What is valid after the repair -/

theorem literalsValid_outside (char : UInt16) (rest : JsStr) :
    literalsValid false (char :: rest) = literalsValid (char = quoteMark) rest := by
  rw [literalsValid.eq_def]
  rfl

theorem literalsValid_quoteMark (rest : JsStr) : literalsValid true (quoteMark :: rest) = literalsValid false rest := by
  rw [literalsValid.eq_def]
  rfl

theorem literalsValid_escape (rest : JsStr) : literalsValid true (backslash :: rest) = match escapeLength rest with
      | some length => literalsValid true (rest.drop length)
      | none => false := by
  rw [literalsValid.eq_def]
  rfl

theorem literalsValid_plain (hquote : char ≠ quoteMark) (hback : char ≠ backslash) (rest : JsStr) :
    literalsValid true (char :: rest) = (decide (0x20 ≤ char.toNat) && literalsValid true rest) := by
  rw [literalsValid.eq_def]
  simp only [if_neg hquote, if_neg hback]
  rfl

theorem escapeLength_take {length : Nat} (hlen : escapeLength rest = some length) (more : JsStr) :
    escapeLength (rest.take length ++ more) = some length ∧ (rest.take length).length = length := by
  cases rest with
  | nil => exact nomatch hlen
  | cons letter after =>
    rcases escapeLength_cons hlen with ⟨rfl, hhex, rfl⟩ | ⟨hne, -, rfl⟩
    · have hfour : (after.take 4).length = 4 := by
        rw [isHex4, Bool.and_eq_true, decide_eq_true_eq] at hhex
        exact hhex.1
      rw [take_succ_cons, cons_append, escapeLength, if_pos rfl, take_left' hfour, if_pos hhex, length_cons, hfour]
      exact ⟨rfl, rfl⟩
    · rw [escapeLength, if_neg hne] at hlen
      rw [take_succ_cons, take_zero, cons_append, escapeLength, if_neg hne, hlen]
      exact ⟨rfl, rfl⟩

theorem escapeControlCharacter_spec (hchar : char.toNat < 0x20) :
    ∃ sequence, escapeControlCharacter char = backslash :: sequence ∧
      ∀ more, escapeLength (sequence ++ more) = some sequence.length := by
  obtain ⟨value, hvalue, rfl⟩ : ∃ value, value < 0x20 ∧ char = UInt16.ofNat value :=
    ⟨char.toNat, hchar, UInt16.ofNat_toNat.symm⟩
  interval_cases value <;> exact ⟨_, rfl, fun _ => rfl⟩

theorem repairFrom_backslash (rest : JsStr) : ∃ tail, repairFrom true (backslash :: rest) = backslash :: tail := by
  cases hlen : escapeLength rest with
  | some length => exact ⟨_, repairFrom_escape hlen⟩
  | none =>
    by_cases hhead : rest.head? = some unicodeMark
    · obtain ⟨after, rfl⟩ := head?_eq_some_iff.mp hhead
      rcases escapeLength_eq_none hlen with ⟨-, hhex⟩ | hmem
      · exact ⟨_, repairFrom_broken hhex⟩
      · exact absurd (by decide) hmem
    · exact ⟨_, repairFrom_doubled hlen hhead⟩

/-- Hexadecimal digits behind a repair were there before it. -/
theorem hex_of_repairFrom (count : Nat) (hlen : ((repairFrom true text).take count).length = count)
    (hhex : ((repairFrom true text).take count).all (fun digit => (hexValue? digit).isSome) = true) :
    (text.take count).length = count ∧ (text.take count).all (fun digit => (hexValue? digit).isSome) = true := by
  induction count generalizing text with
  | zero => exact ⟨rfl, rfl⟩
  | succ count ih =>
    cases text with
    | nil => rw [repairFrom_nil] at hlen; exact nomatch hlen
    | cons char rest =>
      by_cases hquote : char = quoteMark
      · rw [hquote, repairFrom_quoteMark, take_succ_cons, all_cons] at hhex
        exact absurd (Bool.and_eq_true _ _ ▸ hhex).1 (by decide)
      by_cases hback : char = backslash
      · obtain ⟨tail, htail⟩ := repairFrom_backslash rest
        rw [hback, htail, take_succ_cons, all_cons] at hhex
        exact absurd (Bool.and_eq_true _ _ ▸ hhex).1 (by decide)
      rw [repairFrom_plain hquote hback] at hlen hhex
      cases hcontrol : isControlCharacter char with
      | true =>
        rw [isControlCharacter, decide_eq_true_eq] at hcontrol
        obtain ⟨sequence, hsequence, -⟩ := escapeControlCharacter_spec (show char.toNat < 0x20 by omega)
        rw [isControlCharacter, if_pos (decide_eq_true hcontrol), hsequence, cons_append,
          take_succ_cons, all_cons] at hhex
        exact absurd (Bool.and_eq_true _ _ ▸ hhex).1 (by decide)
      | false =>
        rw [hcontrol] at hlen hhex
        simp only [Bool.false_eq_true, if_false, singleton_append, take_succ_cons, length_cons,
          all_cons, Bool.and_eq_true, Nat.add_right_cancel_iff] at hlen hhex ⊢
        obtain ⟨hrest, hall⟩ := ih hlen hhex.2
        exact ⟨hrest, hhex.1, hall⟩

theorem isHex4_of_repairFrom (hhex : isHex4 ((repairFrom true text).take 4) = true) :
    isHex4 (text.take 4) = true := by
  rw [isHex4, Bool.and_eq_true, decide_eq_true_eq] at hhex ⊢
  exact hex_of_repairFrom 4 hhex.1 hhex.2

/-- What is valid after the repair was not broken. -/
theorem not_broken_of_valid
    (hvalid : literalsValid inString (repairFrom inString text) = true) : brokenFrom inString text = false := by
  fun_induction brokenFrom inString text with
  | case1 => rfl
  | case2 inString char rest hout ih =>
    obtain rfl : inString = false := by simpa using hout
    rw [repairFrom_outside, literalsValid_outside] at hvalid
    exact ih hvalid
  | case3 inString rest hout ih =>
    obtain rfl : inString = true := by simpa using hout
    rw [repairFrom_quoteMark, literalsValid_quoteMark] at hvalid
    exact ih hvalid
  | case4 inString rest hout length hlen hquote ih =>
    obtain rfl : inString = true := by simpa using hout
    obtain ⟨hsame, hcount⟩ := escapeLength_take hlen (repairFrom true (rest.drop length))
    rw [repairFrom_escape hlen, literalsValid_escape, hsame] at hvalid
    dsimp only at hvalid
    rw [drop_left' hcount] at hvalid
    exact ih hvalid
  | case5 inString rest hout hlen hquote ih =>
    obtain rfl : inString = true := by simpa using hout
    by_cases hhead : rest.head? = some unicodeMark
    · obtain ⟨after, rfl⟩ := head?_eq_some_iff.mp hhead
      rcases escapeLength_eq_none hlen with ⟨-, hhex⟩ | hmem
      · rw [repairFrom_broken hhex, cons_append, literalsValid_escape] at hvalid
        cases hrepaired : escapeLength ([unicodeMark] ++ repairFrom true after) with
        | none => rw [hrepaired] at hvalid; exact nomatch hvalid
        | some length =>
          rcases escapeLength_cons hrepaired with ⟨-, hsome, -⟩ | ⟨hne, -⟩
          · exact absurd (hhex.symm.trans (isHex4_of_repairFrom hsome)) (by decide)
          · exact absurd rfl hne
      · exact absurd (by decide) hmem
    · rw [repairFrom_doubled hlen hhead, cons_append, literalsValid_escape] at hvalid
      rw [Bool.or_eq_false_iff, decide_eq_false_iff_not]
      exact ⟨hhead, ih hvalid⟩
  | case6 inString char rest hout hquote hback ih =>
    obtain rfl : inString = true := by simpa using hout
    rw [repairFrom_plain hquote hback] at hvalid
    cases hcontrol : isControlCharacter char with
    | true =>
      rw [isControlCharacter, decide_eq_true_eq] at hcontrol
      obtain ⟨sequence, hsequence, hspec⟩ := escapeControlCharacter_spec (show char.toNat < 0x20 by omega)
      rw [isControlCharacter, if_pos (decide_eq_true hcontrol), hsequence, cons_append,
        literalsValid_escape, hspec] at hvalid
      dsimp only at hvalid
      rw [drop_left] at hvalid
      exact ih hvalid
    | false =>
      rw [hcontrol, if_neg (by decide), singleton_append, literalsValid_plain hquote hback,
        Bool.and_eq_true] at hvalid
      exact ih hvalid.2

/-! ### JSON texts -/

/-- A string literal is valid up to its end. -/
theorem literalsValid_body {body : JsStr} (hbody : StringBody body) (rest : JsStr) :
    literalsValid true (body ++ rest) = literalsValid false rest := by
  induction hbody with
  | close => exact literalsValid_quoteMark rest
  | @unicode first second third fourth decoded after hhex _ ih =>
    have hlen : escapeLength (0x75 :: first :: second :: third :: fourth :: (after ++ rest)) = some 5 := by
      simp only [hexValue4?, Option.bind_eq_bind, Option.bind_eq_some_iff] at hhex
      obtain ⟨_, hfirst, _, hsnd, _, hthird, _, hfour, _⟩ := hhex
      simp [escapeLength, unicodeMark, isHex4, hfirst, hsnd, hthird, hfour]
    simp only [cons_append]
    rw [literalsValid_escape, hlen]
    exact ih
  | @escape letter decoded after hlet hesc _ ih =>
    have hlen : escapeLength (letter :: (after ++ rest)) = some 1 := by
      rw [escapeLength, if_neg (show letter ≠ unicodeMark from hlet), hesc]
      rfl
    simp only [cons_append]
    rw [literalsValid_escape, hlen]
    exact ih
  | plain hquote hbac hcon _ ih =>
    rw [cons_append, literalsValid_plain hquote hbac, decide_eq_true hcon, ih]
    rfl

/-- Text outside string literals, with whole literals in it. -/
def Literals (text : JsStr) : Prop := ∀ rest, literalsValid false (text ++ rest) = literalsValid false rest

theorem literals_neutral (htext : ∀ unit ∈ text, unit ≠ quoteMark) : Literals text := by
  intro rest
  induction text with
  | nil => rfl
  | cons unit text ih =>
    rw [cons_append, literalsValid_outside, decide_eq_false (htext unit mem_cons_self)]
    exact ih fun other hother => htext other (mem_cons_of_mem _ hother)

theorem Literals.append {left right : JsStr} (hleft : Literals left) (hright : Literals right) :
    Literals (left ++ right) := by
  intro rest
  rw [append_assoc, hleft, hright]

theorem literals_grammar : Grammar Literals where
  neutral := fun htext => literals_neutral fun unit hunit hsame => htext unit hunit (by simp [hsame])
  append := Literals.append
  brackets := by
    intro left right text hleft hright htext
    have hopen : Literals [left] := literals_neutral (forall_mem_singleton.mpr (by rcases hleft with rfl | rfl <;> decide))
    have hclose : Literals [right] := literals_neutral (forall_mem_singleton.mpr (by rcases hright with rfl | rfl <;> decide))
    exact hopen.append (htext.append hclose)
  quoted := by
    intro text hbody rest
    rw [cons_append, literalsValid_outside]
    exact literalsValid_body hbody rest

section Parse

variable [NumberText]

theorem literalsValid_of_parse {text : JsStr} {value : Json} (hparse : parse text = some value) :
    literalsValid false text = true := by
  have hliterals : Literals text := parse_uses literals_grammar hparse
  have hend := hliterals []
  rw [append_nil] at hend
  rw [hend, literalsValid.eq_def]
  rfl

/-- What is said of `repairJson`: a JSON text is left as it is, and a text that the corrections make a JSON text is
repaired to one with the same value. -/
def Repairs (text : JsStr) : Prop :=
  (∀ value, parse text = some value → repairJson text = text) ∧
    ∀ value, parse (correct text) = some value → parse (repairJson text) = some value

/-- **`repairJson` repairs a text just when the text cannot be corrected either, or no backslash in a string literal
stands before a `u` without four hexadecimal digits.** -/
theorem repairJson_repairs_iff (text : JsStr) :
    Repairs text ↔ ((parse (correct text)).isSome = true → brokenFrom false text = false) := by
  constructor
  · intro hrep hsome
    obtain ⟨value, hvalue⟩ := Option.isSome_iff_exists.mp hsome
    exact not_broken_of_valid (literalsValid_of_parse (hrep.2 value hvalue))
  · intro hok
    refine ⟨fun value hvalue => repairFrom_of_valid (literalsValid_of_parse hvalue), fun value hvalue => ?_⟩
    have hbroken : brokenFrom false text = false := hok (by rw [hvalue]; rfl)
    have hsame : repairJson text = correct text := repairFrom_of_not_broken hbroken
    rw [hsame]
    exact hvalue

end Parse

section Sample

local instance : NumberText := decimalNumbers

/-- The single backslash of `"C:\users"` is kept before the `u`. -/
theorem repairJson_keeps_broken : ¬ Repairs (js "\"C:\\users\"") := by
  intro hrepairs
  have hrep := hrepairs.2 (.string (js "C:\\users")) (by decide +kernel)
  revert hrep
  decide +kernel

end Sample

end PiRp.JsonRepair

import Mathlib.Data.List.ReduceOption
import Mathlib.Tactic
import PiRp.JsReplace
import PiRp.JsSplit

/-! The two ways a regex rule of a prompt preset replaces its matches. Without trim strings the text goes
through the string method `replace`, whose template the language expands (`getSubstitution`); with trim
strings it goes through `replaceWithTrimStrings`, which expands the template itself. The engine that finds
the matches is a parameter: a `Regexp` has its groups and what it matches in a text. -/

namespace PiRp

open List

namespace RegexEngine

open JsStr

/-- The code unit `>`. -/
def closing : UInt16 := 0x3E

/-- The code unit `<`. -/
def opening : UInt16 := 0x3C

/-- The code unit `&`. -/
def ampersand : UInt16 := 0x26

/-- The digit zero. -/
def zero : UInt16 := 0x30

/-- `isDigitCode` -/
def isDigitCode (code : UInt16) : Bool := 0x30 ≤ code && code ≤ 0x39

def digitValue (unit : UInt16) : Nat := unit.toNat - 48

/-- Whether a text starts with a digit. -/
def startsWithDigit (text : JsStr) : Bool := text.head?.any isDigitCode

/-- The groups of a pattern in order, each with its name if it has one. No name is empty or holds `&` or `>`:
they are not characters of an identifier. -/
structure Groups where
  names : List (Option JsStr)
  valid : ∀ name, some name ∈ names → name ≠ [] ∧ ampersand ∉ name ∧ closing ∉ name

namespace Groups

def count (groups : Groups) : Nat := groups.names.length

/-- Whether the pattern has a group of that name. -/
def has (groups : Groups) (name : JsStr) : Bool := groups.names.contains (some name)

/-- Whether some group has a name. -/
def isNamed (groups : Groups) : Bool := groups.names.any Option.isSome

end Groups

/-- One match in a text: where it starts, what was matched and what each group captured. -/
structure Match where
  position : Nat
  matched : JsStr
  captures : List (Option JsStr)

namespace Match

/-- What group `index` captured, counted from one; a group that took no part captured nothing. -/
def capture (found : Match) (index : Nat) : JsStr := (found.captures[index - 1]?.join).getD []

/-- The property of the groups object of that name. -/
def named (found : Match) (groups : Groups) (name : JsStr) : Option JsStr :=
  ((groups.names.zip found.captures).lookup (some name)).join

/-- The matched text and what the groups captured. -/
def values (found : Match) : List JsStr := found.matched :: found.captures.reduceOption

end Match

/-- A compiled pattern: its groups and the matches `replace` finds in a text, from left to right. -/
structure Regexp where
  groups : Groups
  matchAll : JsStr → List Match
  captured : ∀ text, ∀ found ∈ matchAll text, found.captures.length = groups.count
  located : ∀ text, ∀ found ∈ matchAll text, found.matched <+: text.drop found.position
  within : ∀ text, ∀ found ∈ matchAll text, ∀ value ∈ found.values, value <:+: text

/-- What both paths read of a compiled rule. -/
structure CompiledRegexRule where
  regexp : Regexp
  replace : JsStr
  trimStrings : List JsStr

/-- `convertDollarZeroToFullMatch` -/
def convertDollarZeroToFullMatch : JsStr → JsStr
  | [] => []
  | [unit] => [unit]
  | unit :: next :: rest =>
    if unit ≠ dollar then unit :: convertDollarZeroToFullMatch (next :: rest)
    else if next = dollar then dollar :: dollar :: convertDollarZeroToFullMatch rest
    else if next = zero && !startsWithDigit rest then dollar :: ampersand :: convertDollarZeroToFullMatch rest
    else dollar :: convertDollarZeroToFullMatch (next :: rest)

/-- What a `$` of the language's `GetSubstitution` stands for and how many units after it belong to it, given
what follows the `$`. -/
def substitution (groups : Groups) (found : Match) (text : JsStr) : JsStr → JsStr × Nat
  | [] => ([dollar], 0)
  | next :: rest =>
    if next = dollar then ([dollar], 1)
    else if next = 0x60 then (text.take found.position, 1)
    else if next = ampersand then (found.matched, 1)
    else if next = 0x27 then (text.drop (found.position + found.matched.length), 1)
    else if isDigitCode next then
      match rest with
      | second :: _ =>
        if isDigitCode second && digitValue next * 10 + digitValue second ≤ groups.count then
          if 1 ≤ digitValue next * 10 + digitValue second then
            (found.capture (digitValue next * 10 + digitValue second), 2)
          else ([dollar, next, second], 2)
        -- A number above the number of groups is read again as one digit.
        else if 1 ≤ digitValue next && digitValue next ≤ groups.count then
          (found.capture (digitValue next), 1)
        else ([dollar, next], 1)
      | [] =>
        if 1 ≤ digitValue next && digitValue next ≤ groups.count then
          (found.capture (digitValue next), 1)
        else ([dollar, next], 1)
    else if next = opening then
      if groups.isNamed && rest.contains closing then
        ((found.named groups (rest.takeWhile (· ≠ closing))).getD [], (rest.takeWhile (· ≠ closing)).length + 2)
      else ([dollar, opening], 1)
    else ([dollar], 0)

/-- The scan of a template: each `$` is expanded by `reference`, which also says how many of the units after
it to pass over. -/
def scan (reference : JsStr → JsStr × Nat) : Nat → JsStr → JsStr
  | _, [] => []
  | skip + 1, _ :: rest => scan reference skip rest
  | 0, unit :: rest =>
    if unit = dollar then (reference rest).1 ++ scan reference (reference rest).2 rest
    else unit :: scan reference 0 rest

/-- `GetSubstitution` -/
def getSubstitution (groups : Groups) (found : Match) (text template : JsStr) : JsStr :=
  scan (substitution groups found text) 0 template

/-- `trimMatchedValue` -/
def trimMatchedValue (value : JsStr) (trimStrings : List JsStr) : JsStr :=
  trimStrings.foldl
    (fun result trimString => if trimString.isEmpty then result else join [] (split trimString result)) value

/-- What a token of `expandReplacementTemplate` stands for, as `substitution` says it; a `$` that starts no
token stands for itself. -/
def expandToken (groups : Groups) (found : Match) (text : JsStr) (trimStrings : List JsStr) :
    JsStr → JsStr × Nat
  | [] => ([dollar], 0)
  | next :: rest =>
    if next = dollar then ([dollar], 1)
    else if next = ampersand then (trimMatchedValue found.matched trimStrings, 1)
    else if next = 0x60 then (text.take found.position, 1)
    else if next = 0x27 then (text.drop (found.position + found.matched.length), 1)
    else if next = zero then
      if startsWithDigit rest then ([dollar], 0) else (trimMatchedValue found.matched trimStrings, 1)
    else if isDigitCode next then
      match rest with
      | second :: _ =>
        if isDigitCode second then (captureAt (digitValue next * 10 + digitValue second), 2)
        else (captureAt (digitValue next), 1)
      | [] => (captureAt (digitValue next), 1)
    else if next = opening then
      if rest.contains closing && rest.head? != some closing then
        (namedValue (rest.takeWhile (· ≠ closing)), (rest.takeWhile (· ≠ closing)).length + 2)
      else ([dollar], 0)
    else ([dollar], 0)
where
  /-- `context.captures[index - 1]`, trimmed; past the last group it is undefined and stands for no text. -/
  captureAt (index : Nat) : JsStr :=
    match found.captures[index - 1]? with
    | some capture => trimMatchedValue (capture.getD []) trimStrings
    | none => []
  /-- `context.groups?.[name]`, trimmed. A pattern without named groups has no groups object. -/
  namedValue (name : JsStr) : JsStr :=
    if groups.isNamed then
      match found.named groups name with
      | some value => trimMatchedValue value trimStrings
      | none => []
    else []

/-- `expandReplacementTemplate` -/
def expandReplacementTemplate (groups : Groups) (found : Match) (text : JsStr) (trimStrings : List JsStr)
    (template : JsStr) : JsStr :=
  scan (expandToken groups found text trimStrings) 0 template

/-- `text.replace(regexp, ...)`: the matches replaced from left to right, a match that starts before the end
of the one before it left out. -/
def replaceMatches (replacement : Match → JsStr) (text : JsStr) : Nat → List Match → JsStr
  | next, [] => text.drop next
  | next, found :: rest =>
    if next ≤ found.position then
      (text.take found.position).drop next ++ replacement found ++
        replaceMatches replacement text (found.position + found.matched.length) rest
    else replaceMatches replacement text next rest

/-- `replaceWithTrimStrings` -/
def replaceWithTrimStrings (text : JsStr) (rule : CompiledRegexRule) : JsStr :=
  replaceMatches
    (fun found => expandReplacementTemplate rule.regexp.groups found text rule.trimStrings rule.replace)
    text 0 (rule.regexp.matchAll text)

/-- The native path of `transformString`: `body.replace(rule.regexp, convertDollarZeroToFullMatch(rule.replace))`. -/
def replaceNatively (text : JsStr) (rule : CompiledRegexRule) : JsStr :=
  replaceMatches
    (fun found =>
      getSubstitution rule.regexp.groups found text (convertDollarZeroToFullMatch rule.replace))
    text 0 (rule.regexp.matchAll text)

/-- No trim string of the rule occurs in a match or a capture of the text. -/
def Untrimmed (rule : CompiledRegexRule) (text : JsStr) : Prop :=
  ∀ found ∈ rule.regexp.matchAll text, ∀ value ∈ found.values, ∀ trimString ∈ rule.trimStrings,
    trimString ≠ [] → ¬trimString <:+: value

/-- What a template is made of. -/
inductive Piece where
  | literal (unit : UInt16)
  | escaped
  | matched
  | before
  | after
  | padded (second : UInt16)
  | digit (first : UInt16)
  | digits (first second : UInt16)
  | named (name : JsStr)

/-- The piece that a `$` starts and how many units after the `$` belong to it. -/
def readPiece : JsStr → Piece × Nat
  | [] => (.literal dollar, 0)
  | next :: rest =>
    if next = dollar then (.escaped, 1)
    else if next = ampersand then (.matched, 1)
    else if next = 0x60 then (.before, 1)
    else if next = 0x27 then (.after, 1)
    else if isDigitCode next then
      match rest.head? with
      | some second =>
        if isDigitCode second then (if next = zero then .padded second else .digits next second, 2)
        else (if next = zero then .matched else .digit next, 1)
      | none => (if next = zero then .matched else .digit next, 1)
    else if next = opening && rest.contains closing then
      (.named (rest.takeWhile (· ≠ closing)), (rest.takeWhile (· ≠ closing)).length + 2)
    else (.literal dollar, 0)

/-- The scan that takes a template apart. -/
def piecesGo : Nat → JsStr → List Piece
  | _, [] => []
  | skip + 1, _ :: rest => piecesGo skip rest
  | 0, unit :: rest =>
    if unit = dollar then (readPiece rest).1 :: piecesGo (readPiece rest).2 rest
    else .literal unit :: piecesGo 0 rest

/-- The pieces of a template. -/
def pieces (template : JsStr) : List Piece := piecesGo 0 template

namespace Piece

/-- The text of a piece on the path with trim strings, when none occurs. -/
def expand (groups : Groups) (found : Match) (text : JsStr) : Piece → JsStr
  | literal unit => [unit]
  | escaped => [dollar]
  | matched => found.matched
  | before => text.take found.position
  | after => text.drop (found.position + found.matched.length)
  | padded second => [dollar, zero, second]
  | digit first => found.capture (digitValue first)
  | digits first second => found.capture (digitValue first * 10 + digitValue second)
  | named name =>
    if name = [] then [dollar, opening, closing]
    else if groups.isNamed then (found.named groups name).getD [] else []

/-- The text of a piece on the native path. -/
def substitute (groups : Groups) (found : Match) (text : JsStr) : Piece → JsStr
  | literal unit => [unit]
  | escaped => [dollar]
  | matched => found.matched
  | before => text.take found.position
  | after => text.drop (found.position + found.matched.length)
  | padded second =>
    if 1 ≤ digitValue second ∧ digitValue second ≤ groups.count then found.capture (digitValue second)
    else [dollar, zero, second]
  | digit first =>
    if digitValue first ≤ groups.count then found.capture (digitValue first) else [dollar, first]
  | digits first second =>
    if digitValue first * 10 + digitValue second ≤ groups.count then
      found.capture (digitValue first * 10 + digitValue second)
    else if digitValue first ≤ groups.count then found.capture (digitValue first) ++ [second]
    else [dollar, first, second]
  | named name =>
    if groups.isNamed then (found.named groups (convertDollarZeroToFullMatch name)).getD []
    else [dollar, opening] ++ getSubstitution groups found text (convertDollarZeroToFullMatch name) ++ [closing]

/-- The reference means the same on both paths: a number, read with as many digits as it has, is one of a
group, a padded number is not, and a name is only used when groups have names and is not changed when `$0` is
read as the full match. -/
def Resolves (groups : Groups) : Piece → Prop
  | padded second => digitValue second = 0 ∨ groups.count < digitValue second
  | digit first => digitValue first ≤ groups.count
  | digits first second => digitValue first * 10 + digitValue second ≤ groups.count
  | named name =>
    if groups.isNamed then
      name ≠ [] ∧ (groups.has name = true → convertDollarZeroToFullMatch name = name)
    else name = []
  | _ => True

end Piece

/-- Every reference of the template means the same on both paths. -/
def Unambiguous (groups : Groups) (template : JsStr) : Prop :=
  ∀ piece ∈ pieces template, piece.Resolves groups

theorem scan_skip (reference : JsStr → JsStr × Nat) (skip : Nat) (template : JsStr) :
    scan reference skip template = scan reference 0 (template.drop skip) := by
  induction template generalizing skip with
  | nil => cases skip <;> rfl
  | cons unit rest ih =>
    cases skip with
    | zero => rfl
    | succ skip => exact ih skip

variable {unit : UInt16}

theorem scan_cons (reference : JsStr → JsStr × Nat) (rest : JsStr)
    (hunit : unit ≠ dollar) : scan reference 0 (unit :: rest) = unit :: scan reference 0 rest := by
  rw [scan, if_neg hunit]

theorem scan_dollar (reference : JsStr → JsStr × Nat) (rest : JsStr) : scan reference 0 (dollar :: rest) =
      (reference rest).1 ++ scan reference 0 (rest.drop (reference rest).2) := by
  rw [scan, if_pos rfl, scan_skip]

theorem piecesGo_skip (skip : Nat) (template : JsStr) : piecesGo skip template = pieces (template.drop skip) := by
  induction template generalizing skip with
  | nil => cases skip <;> rfl
  | cons unit rest ih =>
    cases skip with
    | zero => rfl
    | succ skip => exact ih skip

theorem pieces_cons (rest : JsStr) (hunit : unit ≠ dollar) :
    pieces (unit :: rest) = .literal unit :: pieces rest := by
  rw [pieces, piecesGo, if_neg hunit, pieces]

theorem pieces_dollar (rest : JsStr) :
    pieces (dollar :: rest) = (readPiece rest).1 :: pieces (rest.drop (readPiece rest).2) := by
  rw [pieces, piecesGo, if_pos rfl, piecesGo_skip]

/-- The units that end a reference of two units: `$$`, `$&` and the two ends of the text. -/
def symbols : List UInt16 := [dollar, ampersand, 0x60, 0x27]

/-- A `$` before such a text starts no reference. -/
def IsBare (rest : JsStr) : Prop :=
  ∀ next, rest.head? = some next → next ∉ symbols ∧ isDigitCode next = false ∧ (next = opening → closing ∉ rest)

variable {rest : JsStr}

theorem startsWithDigit_cons : startsWithDigit (unit :: rest) = isDigitCode unit := rfl

theorem reference_cases {motive : JsStr → Prop} (bare : ∀ rest, IsBare rest → motive rest)
    (symbol : ∀ symbol rest, symbol ∈ symbols → motive (symbol :: rest))
    (whole : ∀ rest, startsWithDigit rest = false → motive (zero :: rest))
    (padded : ∀ second rest, isDigitCode second = true → motive (zero :: second :: rest))
    (digit : ∀ first rest, isDigitCode first = true → first ≠ zero → startsWithDigit rest = false →
      motive (first :: rest))
    (digits : ∀ first second rest, isDigitCode first = true → first ≠ zero → isDigitCode second = true →
      motive (first :: second :: rest))
    (named : ∀ name rest, closing ∉ name → motive (opening :: (name ++ closing :: rest))) (rest : JsStr) :
    motive rest := by
  cases rest with
  | nil => exact bare [] fun next hnext => nomatch hnext
  | cons next rest =>
    by_cases hsym : next ∈ symbols
    · exact symbol next rest hsym
    · cases hdigit : isDigitCode next with
      | true =>
        by_cases hzero : next = zero
        · cases hstar : startsWithDigit rest with
          | false =>
            rw [hzero]
            exact whole rest hstar
          | true =>
            obtain _ | ⟨second, rest⟩ := rest
            · exact absurd hstar (by decide)
            · rw [hzero]
              exact padded second rest hstar
        · cases hstar : startsWithDigit rest with
          | false => exact digit next rest hdigit hzero hstar
          | true =>
            obtain _ | ⟨second, rest⟩ := rest
            · exact absurd hstar (by decide)
            · exact digits next second rest hdigit hzero hstar
      | false =>
        by_cases hname : next = opening ∧ closing ∈ rest
        · obtain ⟨rfl, hclos⟩ := hname
          obtain ⟨name, tail, rfl, hname⟩ := eq_append_cons_of_mem hclos
          exact named name tail hname
        · refine bare (next :: rest) fun other hother => ?_
          obtain rfl : next = other := Option.some.inj hother
          refine ⟨hsym, hdigit, fun hopening hmem => hname ⟨hopening, ?_⟩⟩
          rw [hopening, mem_cons] at hmem
          exact hmem.resolve_left (by decide)

theorem ne_of_digit (hdigit : isDigitCode unit = true) :
    unit ≠ dollar ∧ unit ≠ ampersand ∧ unit ≠ 0x60 ∧ unit ≠ 0x27 := by
  refine ⟨?_, ?_, ?_, ?_⟩
  all_goals
    rintro rfl
    exact absurd hdigit (by decide)

theorem takeWhile_closing {name : JsStr} (hname : closing ∉ name) (rest : JsStr) :
    (name ++ closing :: rest).takeWhile (· ≠ closing) = name := by
  have hopen : ∀ unit ∈ name, unit ≠ closing := fun unit hunit heq => hname (heq ▸ hunit)
  rw [takeWhile_append_of_pos fun unit hunit => by simpa using hopen unit hunit,
    takeWhile_cons_of_neg (by simp), append_nil]

theorem drop_named (name rest : JsStr) : (opening :: (name ++ closing :: rest)).drop (name.length + 2) = rest := by
  rw [drop_succ_cons, drop_append, drop_eq_nil_of_le (Nat.le_succ _)]
  simp

theorem readPiece_bare (hbare : IsBare rest) : readPiece rest = (.literal dollar, 0) := by
  cases rest with
  | nil => rfl
  | cons next rest =>
    obtain ⟨hsym, hdigit, hopening⟩ := hbare next rfl
    simp only [symbols, mem_cons, not_mem_nil, or_false, not_or] at hsym
    obtain ⟨hdol, hmat, hbef, hafter⟩ := hsym
    rw [readPiece, if_neg hdol, if_neg hmat, if_neg hbef, if_neg hafter, hdigit]
    by_cases hname : next = opening
    · have := hopening hname
      simp_all
    · simp [hname]

theorem readPiece_whole (hstar : startsWithDigit rest = false) : readPiece (zero :: rest) = (.matched, 1) := by
  cases rest with
  | nil => rfl
  | cons next rest =>
    rw [startsWithDigit_cons] at hstar
    simp [readPiece, hstar, show isDigitCode zero = true by decide, show zero ≠ dollar by decide,
      show zero ≠ ampersand by decide, show zero ≠ 0x60 by decide, show zero ≠ 0x27 by decide]

theorem readPiece_padded {second : UInt16} (rest : JsStr) (hsnd : isDigitCode second = true) :
    readPiece (zero :: second :: rest) = (.padded second, 2) := by
  simp [readPiece, hsnd, show isDigitCode zero = true by decide, show zero ≠ dollar by decide,
    show zero ≠ ampersand by decide, show zero ≠ 0x60 by decide, show zero ≠ 0x27 by decide]

theorem readPiece_digit {first : UInt16} (hfirst : isDigitCode first = true)
    (hzero : first ≠ zero) (hstar : startsWithDigit rest = false) :
    readPiece (first :: rest) = (.digit first, 1) := by
  obtain ⟨hdol, hmat, hbef, hafter⟩ := ne_of_digit hfirst
  cases rest with
  | nil => simp [readPiece, *]
  | cons next rest =>
    rw [startsWithDigit_cons] at hstar
    simp [readPiece, *]

theorem readPiece_digits {first second : UInt16} (rest : JsStr) (hfirst : isDigitCode first = true)
    (hzero : first ≠ zero) (hsnd : isDigitCode second = true) :
    readPiece (first :: second :: rest) = (.digits first second, 2) := by
  obtain ⟨hdol, hmat, hbef, hafter⟩ := ne_of_digit hfirst
  simp [readPiece, *]

theorem readPiece_named {name : JsStr} (hname : closing ∉ name) (rest : JsStr) :
    readPiece (opening :: (name ++ closing :: rest)) = (.named name, name.length + 2) := by
  rw [readPiece, takeWhile_closing hname]
  simp [show opening ≠ dollar by decide, show opening ≠ ampersand by decide, show opening ≠ 0x60 by decide,
    show opening ≠ 0x27 by decide, show isDigitCode opening = false by decide]

theorem template_induction {motive : JsStr → Prop} (nil : motive [])
    (unit : ∀ unit rest, unit ≠ dollar → motive rest → motive (unit :: rest))
    (bare : ∀ rest, IsBare rest → motive rest → motive (dollar :: rest))
    (symbol : ∀ symbol rest, symbol ∈ symbols → motive rest → motive (dollar :: symbol :: rest))
    (whole : ∀ rest, startsWithDigit rest = false → motive rest → motive (dollar :: zero :: rest))
    (padded : ∀ second rest, isDigitCode second = true → motive rest → motive (dollar :: zero :: second :: rest))
    (digit : ∀ first rest, isDigitCode first = true → first ≠ zero → startsWithDigit rest = false →
      motive rest → motive (dollar :: first :: rest))
    (digits : ∀ first second rest, isDigitCode first = true → first ≠ zero → isDigitCode second = true →
      motive rest → motive (dollar :: first :: second :: rest)) (named : ∀ name rest, closing ∉ name → motive rest →
      motive (dollar :: opening :: (name ++ closing :: rest))) (template : JsStr) : motive template := by
  induction hlength : template.length using Nat.strong_induction_on generalizing template with
  | h length ih =>
    cases template with
    | nil => exact nil
    | cons first rest =>
      rw [length_cons] at hlength
      have hrest : ∀ skip, motive (rest.drop skip) := fun skip =>
        ih (rest.drop skip).length (by rw [length_drop]; omega) _ rfl
      by_cases hfirst : first = dollar
      · subst hfirst
        clear hlength ih
        induction rest using reference_cases with
        | bare rest hbare => exact bare rest hbare (hrest 0)
        | symbol symbol' rest hsym => exact symbol symbol' rest hsym (hrest 1)
        | whole rest hstar => exact whole rest hstar (hrest 1)
        | padded second rest hsnd => exact padded second rest hsnd (hrest 2)
        | digit first rest hfirst hzero hstar => exact digit first rest hfirst hzero hstar (hrest 1)
        | digits first second rest hfirst hzero hsnd =>
          exact digits first second rest hfirst hzero hsnd (hrest 2)
        | named name rest hname =>
          have := hrest (name.length + 2)
          rw [drop_named] at this
          exact named name rest hname this
      · exact unit first rest hfirst (hrest 0)

end RegexEngine

end PiRp

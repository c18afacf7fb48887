import PiRp.JsonValue

/-! `JSON.stringify` and `JSON.parse`. Text is a list of UTF-16 code units. The conversion of a finite
number to text and back is a parameter: it yields number literals, forgets the sign of zero and loses
nothing else. The parser follows the JSON grammar; the loops over items and members are bounded by
the text that is left, the nesting by a budget as large as the text. -/

namespace PiRp.JsonText

def quoteMark : UInt16 := 0x22
def backslash : UInt16 := 0x5c
def comma : UInt16 := 0x2c
def colon : UInt16 := 0x3a
def openBracket : UInt16 := 0x5b
def closeBracket : UInt16 := 0x5d
def openBrace : UInt16 := 0x7b
def closeBrace : UInt16 := 0x7d

/-! ### Number literals -/

/-- How far a number literal has been read. -/
inductive NumberState where
  | start
  | minus
  | zero
  | digits
  | dot
  | fraction
  | exponent
  | exponentSign
  | exponentDigits
  deriving DecidableEq

def isDigit (unit : UInt16) : Bool := 0x30 ≤ unit.toNat && unit.toNat ≤ 0x39

def isExponentMark (unit : UInt16) : Bool := unit = 0x65 || unit = 0x45

/-- The next state of the number grammar. -/
def NumberState.step (state : NumberState) (unit : UInt16) : Option NumberState :=
  match state with
  | .start =>
    if unit = 0x2d then some .minus else if unit = 0x30 then some .zero
    else if isDigit unit then some .digits else none
  | .minus => if unit = 0x30 then some .zero else if isDigit unit then some .digits else none
  | .zero =>
    if unit = 0x2e then some .dot else if isExponentMark unit then some .exponent else none
  | .digits =>
    if isDigit unit then some .digits else if unit = 0x2e then some .dot
    else if isExponentMark unit then some .exponent else none
  | .dot => if isDigit unit then some .fraction else none
  | .fraction =>
    if isDigit unit then some .fraction else if isExponentMark unit then some .exponent else none
  | .exponent =>
    if unit = 0x2b || unit = 0x2d then some .exponentSign
    else if isDigit unit then some .exponentDigits else none
  | .exponentSign => if isDigit unit then some .exponentDigits else none
  | .exponentDigits => if isDigit unit then some .exponentDigits else none

def NumberState.accepts : NumberState → Bool
  | .zero | .digits | .fraction | .exponentDigits => true
  | _ => false

def readNumber (state : NumberState) : JsStr → Bool
  | [] => state.accepts
  | unit :: rest =>
    match state.step unit with
    | some next => readNumber next rest
    | none => false

/-- The text is a JSON number. -/
def isNumberLiteral (text : JsStr) : Bool := readNumber .start text

/-- A code unit that occurs in number literals. -/
def isNumberUnit (unit : UInt16) : Bool :=
  isDigit unit || isExponentMark unit || unit = 0x2b || unit = 0x2d || unit = 0x2e

/-- `Number::toString` and the value of a number literal, on finite numbers. -/
class NumberText where
  text : JsNumber → JsStr
  value : JsStr → JsNumber
  text_literal : ∀ number : JsNumber, number.isFinite = true → isNumberLiteral (text number) = true
  text_norm : ∀ number : JsNumber, text number.norm = text number
  value_text : ∀ number : JsNumber, number.isFinite = true → value (text number) = number.norm

/-! ### Writing -/

/-- A hexadecimal digit, in lower case. -/
def hexDigit (value : Nat) : UInt16 :=
  UInt16.ofNat (if value < 10 then 0x30 + value else 0x57 + value)

/-- The escape sequence of a code unit by its number. -/
def unicodeEscape (unit : UInt16) : JsStr :=
  [backslash, 0x75, hexDigit (unit.toNat / 0x1000), hexDigit (unit.toNat / 0x100 % 0x10),
    hexDigit (unit.toNat / 0x10 % 0x10), hexDigit (unit.toNat % 0x10)]

/-- The letter of the short escape sequence of a code unit. -/
def shortEscape? (unit : UInt16) : Option UInt16 :=
  if unit = quoteMark then some quoteMark
  else if unit = backslash then some backslash
  else if unit = 0x08 then some 0x62
  else if unit = 0x0c then some 0x66
  else if unit = 0x0a then some 0x6e
  else if unit = 0x0d then some 0x72
  else if unit = 0x09 then some 0x74
  else none

/-- A code unit outside a surrogate pair in a string literal. -/
def quoteUnit (unit : UInt16) : JsStr :=
  match shortEscape? unit with
  | some letter => [backslash, letter]
  | none =>
    if unit.toNat < 0x20 || isHighSurrogate unit || isLowSurrogate unit then unicodeEscape unit
    else [unit]

def quoteUnits : JsStr → JsStr
  | [] => []
  | [unit] => quoteUnit unit
  | high :: low :: rest =>
    if isHighSurrogate high && isLowSurrogate low then high :: low :: quoteUnits rest
    else quoteUnit high ++ quoteUnits (low :: rest)

/-- A string literal. -/
def quote (text : JsStr) : JsStr := quoteMark :: (quoteUnits text ++ [quoteMark])

section Stringify

variable [NumberText]

mutual

/-- `JSON.stringify`. -/
def stringify (value : Json) : JsStr :=
  match value with
  | .null => js "null"
  | .bool true => js "true"
  | .bool false => js "false"
  | .number value => NumberText.text value
  | .string value => quote value
  | .array [] => [openBracket, closeBracket]
  | .array (item :: items) =>
    openBracket :: (stringify item ++ stringifyItems items ++ [closeBracket])
  | .object [] => [openBrace, closeBrace]
  | .object ((key, value) :: props) =>
    openBrace :: (quote key ++ colon :: stringify value ++ stringifyMembers props ++ [closeBrace])

/-- The items after the first one, each behind a comma. -/
def stringifyItems (items : List Json) : JsStr :=
  match items with
  | [] => []
  | item :: items => comma :: (stringify item ++ stringifyItems items)

/-- The members after the first one, each behind a comma. -/
def stringifyMembers (props : List (JsStr × Json)) : JsStr :=
  match props with
  | [] => []
  | (key, value) :: props =>
    comma :: (quote key ++ colon :: stringify value ++ stringifyMembers props)

end

end Stringify

/-! ### Reading -/

def isWhitespace (unit : UInt16) : Bool := unit = 0x20 || unit = 0x09 || unit = 0x0a || unit = 0x0d

def skipWhitespace (text : JsStr) : JsStr := text.dropWhile isWhitespace

def hexValue? (unit : UInt16) : Option Nat :=
  let value := unit.toNat
  if 0x30 ≤ value ∧ value ≤ 0x39 then some (value - 0x30)
  else if 0x61 ≤ value ∧ value ≤ 0x66 then some (value - 0x57)
  else if 0x41 ≤ value ∧ value ≤ 0x46 then some (value - 0x37)
  else none

def hexValue4? (first second third fourth : UInt16) : Option UInt16 := do
  let first ← hexValue? first
  let second ← hexValue? second
  let third ← hexValue? third
  let fourth ← hexValue? fourth
  return UInt16.ofNat (first * 0x1000 + second * 0x100 + third * 0x10 + fourth)

/-- The code unit a one-letter escape stands for. -/
def unescape? (letter : UInt16) : Option UInt16 :=
  if letter = quoteMark then some quoteMark
  else if letter = backslash then some backslash
  else if letter = 0x2f then some 0x2f
  else if letter = 0x62 then some 0x08
  else if letter = 0x66 then some 0x0c
  else if letter = 0x6e then some 0x0a
  else if letter = 0x72 then some 0x0d
  else if letter = 0x74 then some 0x09
  else none

/-- The rest of a string literal behind its opening mark: the string and the text after it. -/
def parseUnits : JsStr → Option (JsStr × JsStr)
  | [] => none
  | unit :: rest =>
    if unit = quoteMark then some ([], rest)
    else if unit = backslash then
      match rest with
      | [] => none
      | letter :: rest =>
        if letter = 0x75 then
          match rest with
          | first :: second :: third :: fourth :: rest =>
            match hexValue4? first second third fourth with
            | none => none
            | some decoded => (parseUnits rest).map fun parsed => (decoded :: parsed.1, parsed.2)
          | _ => none
        else
          match unescape? letter with
          | none => none
          | some decoded => (parseUnits rest).map fun parsed => (decoded :: parsed.1, parsed.2)
    else if unit.toNat < 0x20 then none
    else (parseUnits rest).map fun parsed => (unit :: parsed.1, parsed.2)

/-- The text after a fixed word. -/
def dropWord (word text : JsStr) : Option JsStr :=
  match word, text with
  | [], text => some text
  | _ :: _, [] => none
  | expected :: word, unit :: text => if unit = expected then dropWord word text else none

/-- The items of a non-empty array up to its closing bracket. -/
def parseItems (parse : JsStr → Option (Json × JsStr)) :
    Nat → JsStr → Option (List Json × JsStr)
  | 0, _ => none
  | rounds + 1, text =>
    match parse text with
    | none => none
    | some (item, rest) =>
      match skipWhitespace rest with
      | [] => none
      | unit :: rest =>
        if unit = comma then
          (parseItems parse rounds rest).map fun parsed => (item :: parsed.1, parsed.2)
        else if unit = closeBracket then some ([item], rest)
        else none

/-- The members of a non-empty object up to its closing brace, defined one after the other. -/
def parseMembers (parse : JsStr → Option (Json × JsStr)) :
    Nat → Props Json → JsStr → Option (Props Json × JsStr)
  | 0, _, _ => none
  | rounds + 1, result, text =>
    match skipWhitespace text with
    | [] => none
    | mark :: rest =>
      if mark ≠ quoteMark then none
      else
        match parseUnits rest with
        | none => none
        | some (key, rest) =>
          match skipWhitespace rest with
          | [] => none
          | separator :: rest =>
            if separator ≠ colon then none
            else
              match parse rest with
              | none => none
              | some (value, rest) =>
                match skipWhitespace rest with
                | [] => none
                | unit :: rest =>
                  if unit = comma then
                    parseMembers parse rounds (result.set key value) rest
                  else if unit = closeBrace then some (result.set key value, rest)
                  else none

variable [NumberText]

/-- The value at the start of the text, and the text after it. -/
def parseValue : Nat → JsStr → Option (Json × JsStr)
  | 0, _ => none
  | budget + 1, text =>
    match skipWhitespace text with
    | [] => none
    | unit :: rest =>
      if unit = quoteMark then
        (parseUnits rest).map fun parsed => (.string parsed.1, parsed.2)
      else if unit = openBracket then
        match skipWhitespace rest with
        | [] => none
        | next :: after =>
          if next = closeBracket then some (.array [], after)
          else
            (parseItems (fun text => parseValue budget text) rest.length rest).map
              fun parsed => (.array parsed.1, parsed.2)
      else if unit = openBrace then
        match skipWhitespace rest with
        | [] => none
        | next :: after =>
          if next = closeBrace then some (.object [], after)
          else
            (parseMembers (fun text => parseValue budget text) rest.length [] rest).map
              fun parsed => (.object parsed.1, parsed.2)
      else if unit = 0x2d || isDigit unit then
        let literal := (unit :: rest).takeWhile isNumberUnit
        if isNumberLiteral literal then
          some (.number (NumberText.value literal), (unit :: rest).dropWhile isNumberUnit)
        else none
      else if unit = 0x6e then (dropWord (js "ull") rest).map fun rest => (.null, rest)
      else if unit = 0x74 then (dropWord (js "rue") rest).map fun rest => (.bool true, rest)
      else if unit = 0x66 then (dropWord (js "alse") rest).map fun rest => (.bool false, rest)
      else none

/-- `JSON.parse`; `none` is a syntax error. -/
def parse (text : JsStr) : Option Json :=
  match parseValue (text.length + 1) text with
  | some (value, rest) => if skipWhitespace rest = [] then some value else none
  | none => none

end PiRp.JsonText

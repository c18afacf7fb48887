import PiRp.JsonTextRoundTrip
import Mathlib.Data.List.TakeWhile

/-! No strict prefix of the text of an object is JSON. A scanner counts the open brackets outside
string literals: over what the parser accepts it comes back to where it started, while inside the
text of an object it never does before the last brace. The text has no control characters, so it is
one line. -/

namespace PiRp.Json

/-- The numbers of the value are finite. -/
inductive Writable : Json → Prop
  | null : Writable .null
  | bool (value : Bool) : Writable (.bool value)
  | number {value : JsNumber} (hfin : value.isFinite = true) : Writable (.number value)
  | string (value : JsStr) : Writable (.string value)
  | array {items : List Json} (hitems : ∀ item ∈ items, Writable item) : Writable (.array items)
  | object {props : Props Json} (hvalues : ∀ entry ∈ props, Writable entry.2) : Writable (.object props)

theorem Serializable.writable {value : Json} (hvalue : Serializable value) : Writable value := by
  induction hvalue with
  | null => exact .null
  | bool value => exact .bool value
  | number hfin => exact .number hfin
  | string value => exact .string value
  | array _ ih => exact .array ih
  | object _ _ ih => exact .object ih

end PiRp.Json

namespace PiRp.JsonText

open List

/-- Where the scanner stands with respect to string literals. -/
inductive ScanMode where
  | outside
  | inString
  | escaped

structure Scanner where
  mode : ScanMode
  depth : Nat

def Scanner.step (scanner : Scanner) (unit : UInt16) : Scanner :=
  match scanner.mode with
  | .outside =>
    if unit = quoteMark then ⟨.inString, scanner.depth⟩
    else if unit = openBracket || unit = openBrace then ⟨.outside, scanner.depth + 1⟩
    else if unit = closeBracket || unit = closeBrace then ⟨.outside, scanner.depth - 1⟩
    else scanner
  | .inString =>
    if unit = quoteMark then ⟨.outside, scanner.depth⟩
    else if unit = backslash then ⟨.escaped, scanner.depth⟩
    else scanner
  | .escaped => ⟨.inString, scanner.depth⟩

def scan (scanner : Scanner) (text : JsStr) : Scanner := text.foldl Scanner.step scanner

theorem scan_append (scanner : Scanner) (left right : JsStr) :
    scan scanner (left ++ right) = scan (scan scanner left) right := foldl_append

theorem scan_cons (scanner : Scanner) (unit : UInt16) (rest : JsStr) :
    scan scanner (unit :: rest) = scan (scanner.step unit) rest := rfl

/-- The scanner ends where it started. -/
def Balanced (text : JsStr) : Prop := ∀ depth, scan ⟨.outside, depth⟩ text = ⟨.outside, depth⟩

variable {left right : JsStr}

theorem Balanced.append (hleft : Balanced left) (hright : Balanced right) : Balanced (left ++ right) := by
  intro depth
  rw [scan_append, hleft, hright]

/-- A code unit without meaning for the scanner outside strings. -/
def IsNeutral (unit : UInt16) : Prop :=
  unit ∉ [quoteMark, openBracket, openBrace, closeBracket, closeBrace]

instance (unit : UInt16) : Decidable (IsNeutral unit) :=
  inferInstanceAs (Decidable (unit ∉ [quoteMark, openBracket, openBrace, closeBracket, closeBrace]))

variable {text : JsStr}

theorem forall_mem_of_all {property : UInt16 → Prop} [DecidablePred property]
    (hall : (text.all fun unit => decide (property unit)) = true) : ∀ unit ∈ text, property unit :=
  fun unit hunit => of_decide_eq_true (all_eq_true.mp hall unit hunit)

variable {unit : UInt16}

theorem IsNeutral.step (hunit : IsNeutral unit) (depth : Nat) :
    Scanner.step ⟨.outside, depth⟩ unit = ⟨.outside, depth⟩ := by
  simp only [IsNeutral, mem_cons, not_mem_nil, or_false, not_or] at hunit
  simp [Scanner.step, hunit]

theorem balanced_of_neutral (htext : ∀ unit ∈ text, IsNeutral unit) : Balanced text := by
  intro depth
  induction text with
  | nil => rfl
  | cons unit rest ih =>
    rw [scan_cons, (htext unit mem_cons_self).step]
    exact ih fun other hother => htext other (mem_cons_of_mem _ hother)

theorem balanced_brackets {left right : UInt16} (hleft : left = openBracket ∨ left = openBrace)
    (hright : right = closeBracket ∨ right = closeBrace) (htext : Balanced text) :
    Balanced (left :: (text ++ [right])) := by
  intro depth
  have hopen : Scanner.step ⟨.outside, depth⟩ left = ⟨.outside, depth + 1⟩ := by
    rcases hleft with rfl | rfl <;> rfl
  have hclose : Scanner.step ⟨.outside, depth + 1⟩ right = ⟨.outside, depth⟩ := by
    rcases hright with rfl | rfl <;> rfl
  rw [scan_cons, hopen, scan_append, htext, scan_cons, hclose]
  rfl

/-! ### What the parser accepts is balanced -/

/-- The scanner leaves the string it is in. -/
def Closes (text : JsStr) : Prop := ∀ depth, scan ⟨.inString, depth⟩ text = ⟨.outside, depth⟩

theorem Closes.quoted (htext : Closes text) : Balanced (quoteMark :: text) :=
  fun depth => htext depth

theorem Closes.cons (hquote : unit ≠ quoteMark)
    (hbac : unit ≠ backslash) (htext : Closes text) : Closes (unit :: text) := by
  intro depth
  have hstep : Scanner.step ⟨.inString, depth⟩ unit = ⟨.inString, depth⟩ := by
    simp [Scanner.step, hquote, hbac]
  rw [scan_cons, hstep, htext]

theorem Closes.escape (letter : UInt16) (htext : Closes text) :
    Closes (backslash :: letter :: text) := fun depth => htext depth

theorem hexValue?_ne {value : Nat} (hvalue : hexValue? unit = some value) : unit ≠ quoteMark ∧ unit ≠ backslash := by
  constructor
  · rintro rfl
    exact nomatch hvalue
  · rintro rfl
    exact nomatch hvalue

theorem hexValue4?_ne {first second third fourth decoded : UInt16}
    (hvalue : hexValue4? first second third fourth = some decoded) :
    (first ≠ quoteMark ∧ first ≠ backslash) ∧ (second ≠ quoteMark ∧ second ≠ backslash) ∧
      (third ≠ quoteMark ∧ third ≠ backslash) ∧ fourth ≠ quoteMark ∧ fourth ≠ backslash := by
  simp only [hexValue4?, Option.bind_eq_bind, Option.bind_eq_some_iff] at hvalue
  obtain ⟨_, hfirst, _, hsnd, _, hthird, _, hfour, _⟩ := hvalue
  exact ⟨hexValue?_ne hfirst, hexValue?_ne hsnd, hexValue?_ne hthird, hexValue?_ne hfour⟩

/-- What stands behind the opening mark of a string literal, with the closing one. -/
inductive StringBody : JsStr → Prop
  | close : StringBody [quoteMark]
  | unicode {first second third fourth decoded : UInt16} {rest : JsStr}
      (hhex : hexValue4? first second third fourth = some decoded) (hrest : StringBody rest) :
      StringBody (backslash :: 0x75 :: first :: second :: third :: fourth :: rest)
  | escape {letter decoded : UInt16} {rest : JsStr} (hlet : letter ≠ 0x75)
      (hesc : unescape? letter = some decoded) (hrest : StringBody rest) : StringBody (backslash :: letter :: rest)
  | plain {unit : UInt16} {rest : JsStr} (hquote : unit ≠ quoteMark) (hbac : unit ≠ backslash)
      (hcon : 0x20 ≤ unit.toNat) (hrest : StringBody rest) : StringBody (unit :: rest)

theorem parseUnits_body {string rest : JsStr}
    (hparse : parseUnits text = some (string, rest)) : ∃ used, text = used ++ rest ∧ StringBody used := by
  have hmark : backslash ≠ quoteMark := by decide
  induction text using parseUnits.induct generalizing string with
  | case1 => cases hparse
  | case2 tail =>
    rw [parseUnits_quoteMark] at hparse
    obtain ⟨-, rfl⟩ := Prod.mk.inj (Option.some.inj hparse)
    exact ⟨[quoteMark], rfl, .close⟩
  | case3 =>
    rw [parseUnits.eq_def] at hparse
    simp [hmark] at hparse
  | case4 first second third fourth tail hhex =>
    rw [parseUnits.eq_def] at hparse
    simp [hmark, hhex] at hparse
  | case5 first second third fourth tail decoded hhex _ ih =>
    rw [parseUnits.eq_def] at hparse
    simp only [if_neg hmark, if_true, hhex, Option.map_eq_some_iff] at hparse
    obtain ⟨parsed, hpar, heq⟩ := hparse
    obtain ⟨-, rfl⟩ := Prod.mk.inj heq
    obtain ⟨used, rfl, hused⟩ := ih hpar
    exact ⟨backslash :: 0x75 :: first :: second :: third :: fourth :: used, rfl, hused.unicode hhex⟩
  | case6 tail htail =>
    rw [parseUnits.eq_def] at hparse
    simp only [if_neg hmark, if_true] at hparse
    cases hparse
  | case7 letter tail hlet hesc =>
    rw [parseUnits.eq_def] at hparse
    simp [hmark, hlet, hesc] at hparse
  | case8 letter tail hlet decoded hesc _ ih =>
    rw [parseUnits.eq_def] at hparse
    simp only [if_neg hmark, if_true, if_neg hlet, hesc, Option.map_eq_some_iff] at hparse
    obtain ⟨parsed, hpar, heq⟩ := hparse
    obtain ⟨-, rfl⟩ := Prod.mk.inj heq
    obtain ⟨used, rfl, hused⟩ := ih hpar
    exact ⟨backslash :: letter :: used, rfl, hused.escape hlet hesc⟩
  | case9 unit tail hquote hbac hcon =>
    rw [parseUnits.eq_def] at hparse
    simp [hquote, hbac, hcon] at hparse
  | case10 unit tail hquote hbac hcon ih =>
    rw [parseUnits_plain ⟨hquote, hbac, Nat.not_lt.mp hcon⟩, Option.map_eq_some_iff] at hparse
    obtain ⟨parsed, hpar, heq⟩ := hparse
    obtain ⟨-, rfl⟩ := Prod.mk.inj heq
    obtain ⟨used, rfl, hused⟩ := ih hpar
    exact ⟨unit :: used, rfl, hused.plain hquote hbac (Nat.not_lt.mp hcon)⟩

theorem StringBody.closes (hbody : StringBody text) : Closes text := by
  induction hbody with
  | close => exact fun _ => rfl
  | unicode hhex _ ih =>
    obtain ⟨hfirst, hsnd, hthird, hfour⟩ := hexValue4?_ne hhex
    exact Closes.escape _ (.cons hfirst.1 hfirst.2 (.cons hsnd.1 hsnd.2
      (.cons hthird.1 hthird.2 (.cons hfour.1 hfour.2 ih))))
  | escape _ _ _ ih => exact ih.escape _
  | plain hquote hbac _ _ ih => exact ih.cons hquote hbac

theorem parseUnits_closes {string rest : JsStr}
    (hparse : parseUnits text = some (string, rest)) : ∃ used, text = used ++ rest ∧ Closes used := by
  obtain ⟨used, htext, hbody⟩ := parseUnits_body hparse
  exact ⟨used, htext, hbody.closes⟩

/-- A property that JSON texts have because their parts have it. -/
structure Grammar (property : JsStr → Prop) : Prop where
  neutral : ∀ {text : JsStr}, (∀ unit ∈ text, IsNeutral unit) → property text
  append : ∀ {left right : JsStr}, property left → property right → property (left ++ right)
  brackets : ∀ {left right : UInt16} {text : JsStr}, (left = openBracket ∨ left = openBrace) →
    (right = closeBracket ∨ right = closeBrace) → property text → property (left :: (text ++ [right]))
  quoted : ∀ {text : JsStr}, StringBody text → property (quoteMark :: text)

theorem balanced_grammar : Grammar Balanced where
  neutral := balanced_of_neutral
  append := Balanced.append
  brackets := balanced_brackets
  quoted := fun hbody => hbody.closes.quoted

/-- The reader uses up text that has the property. -/
def Uses {α : Type} (property : JsStr → Prop) (text : JsStr) (parsed : Option (α × JsStr)) : Prop :=
  ∀ value rest, parsed = some (value, rest) → ∃ used, text = used ++ rest ∧ property used

/-- The reader uses up balanced text. -/
def UsesBalanced {α : Type} (text : JsStr) (parsed : Option (α × JsStr)) : Prop :=
  ∀ value rest, parsed = some (value, rest) → ∃ used, text = used ++ rest ∧ Balanced used

section Grammar

variable {property : JsStr → Prop}

theorem isWhitespace_neutral {unit : UInt16} (hunit : isWhitespace unit = true) : IsNeutral unit := by
  simp only [isWhitespace, Bool.or_eq_true, decide_eq_true_eq] at hunit
  rcases hunit with ((rfl | rfl) | rfl) | rfl <;> decide

theorem isNumberUnit_neutral {unit : UInt16} (hunit : isNumberUnit unit = true) : IsNeutral unit := by
  intro hmem
  simp only [mem_cons, not_mem_nil, or_false] at hmem
  rcases hmem with rfl | rfl | rfl | rfl | rfl <;> exact absurd hunit (by decide)

variable (hgrammar : Grammar property)

include hgrammar

theorem skipWhitespace_used (text : JsStr) :
    ∃ blanks, text = blanks ++ skipWhitespace text ∧ property blanks := by
  refine ⟨text.takeWhile isWhitespace, takeWhile_append_dropWhile.symm, ?_⟩
  exact hgrammar.neutral fun unit hunit => isWhitespace_neutral (mem_takeWhile_imp hunit)

omit hgrammar in
theorem dropWord_used {word text rest : JsStr} (hdrop : dropWord word text = some rest) : text = word ++ rest := by
  induction word generalizing text with
  | nil =>
    cases text <;> exact Option.some.inj hdrop
  | cons expected word ih =>
    cases text with
    | nil => exact nomatch hdrop
    | cons unit text =>
      rw [dropWord] at hdrop
      split_ifs at hdrop with heq
      rw [heq, ih hdrop, cons_append]

theorem parseItems_uses {read : JsStr → Option (Json × JsStr)}
    (hread : ∀ text, Uses property text (read text)) {rounds : Nat} {text rest : JsStr}
    {items : List Json} (hparse : parseItems read rounds text = some (items, rest)) :
    ∃ used, text = used ++ closeBracket :: rest ∧ property used := by
  induction rounds generalizing text items with
  | zero => cases hparse
  | succ rounds ih =>
    rw [parseItems] at hparse
    split at hparse
    · cases hparse
    · rename_i item after hitem
      obtain ⟨used, rfl, hused⟩ := hread text item after hitem
      obtain ⟨blanks, hblan, hbal⟩ := skipWhitespace_used hgrammar after
      split at hparse
      · cases hparse
      · rename_i unit tail hafter
        rw [hafter] at hblan
        split_ifs at hparse with hcomma hclose
        · obtain ⟨parsed, hpar, heq⟩ := Option.map_eq_some_iff.mp hparse
          obtain ⟨-, rfl⟩ := Prod.mk.inj heq
          obtain ⟨usedTail, rfl, husedTail⟩ := ih hpar
          refine ⟨used ++ (blanks ++ comma :: usedTail), ?_, ?_⟩
          · rw [hblan, hcomma]
            simp
          · have hneut : property [comma] := hgrammar.neutral (forall_mem_of_all (by decide))
            exact hgrammar.append hused (hgrammar.append hbal (hgrammar.append hneut husedTail))
        · obtain ⟨-, rfl⟩ := Prod.mk.inj (Option.some.inj hparse)
          exact ⟨used ++ blanks, by rw [hblan, hclose, append_assoc], hgrammar.append hused hbal⟩

theorem parseMembers_uses {read : JsStr → Option (Json × JsStr)}
    (hread : ∀ text, Uses property text (read text)) {rounds : Nat} {result props : Props Json}
    {text rest : JsStr} (hparse : parseMembers read rounds result text = some (props, rest)) :
    ∃ used, text = used ++ closeBrace :: rest ∧ property used := by
  induction rounds generalizing text result with
  | zero => cases hparse
  | succ rounds ih =>
    obtain ⟨blanks, hblan, hbal⟩ := skipWhitespace_used hgrammar text
    rw [parseMembers] at hparse
    split at hparse
    · cases hparse
    · rename_i mark afterMark hmark
      rw [hmark] at hblan
      split_ifs at hparse with hquote
      rw [ne_eq, not_not] at hquote
      split at hparse
      · cases hparse
      · rename_i key afterKey hkey
        obtain ⟨usedKey, rfl, hclos⟩ := parseUnits_body hkey
        obtain ⟨keyBlanks, hkeyBlanks, hkeyBalanced⟩ := skipWhitespace_used hgrammar afterKey
        split at hparse
        · cases hparse
        · rename_i separator afterSeparator hseparator
          rw [hseparator] at hkeyBlanks
          split_ifs at hparse with hcolon
          rw [ne_eq, not_not] at hcolon
          split at hparse
          · cases hparse
          · rename_i value afterValue hvalue
            obtain ⟨usedValue, rfl, hvalueBalanced⟩ := hread _ value afterValue hvalue
            obtain ⟨valueBlanks, hvalueBlanks, hvalueBlanksBalanced⟩ :=
              skipWhitespace_used hgrammar afterValue
            have hcolonBalanced : property [colon] :=
              hgrammar.neutral (forall_mem_of_all (by decide))
            have hmemb : property (blanks ++ (quoteMark :: usedKey) ++ keyBlanks ++ [colon] ++
                usedValue ++ valueBlanks) :=
              hgrammar.append (hgrammar.append (hgrammar.append (hgrammar.append (hgrammar.append hbal
                (hgrammar.quoted hclos)) hkeyBalanced) hcolonBalanced) hvalueBalanced) hvalueBlanksBalanced
            split at hparse
            · cases hparse
            · rename_i unit tail hunit
              rw [hunit] at hvalueBlanks
              split_ifs at hparse with hcomma hclose
              · obtain ⟨usedTail, rfl, husedTail⟩ := ih hparse
                have hcommaBalanced : property [comma] :=
                  hgrammar.neutral (forall_mem_of_all (by decide))
                refine ⟨_, ?_, hgrammar.append hmemb (hgrammar.append hcommaBalanced husedTail)⟩
                rw [hblan, hquote, hkeyBlanks, hcolon, hvalueBlanks, hcomma]
                simp
              · obtain ⟨-, rfl⟩ := Prod.mk.inj (Option.some.inj hparse)
                refine ⟨_, ?_, hmemb⟩
                rw [hblan, hquote, hkeyBlanks, hcolon, hvalueBlanks, hclose]
                simp

/-- The text from an opening bracket to the closing one. -/
theorem block_uses {α : Type} {left right : UInt16}
    (hleft : left = openBracket ∨ left = openBrace) (hright : right = closeBracket ∨ right = closeBrace)
    {text rest : JsStr} {read : Option (α × JsStr)} {empty value : Json} {block : α → Json}
    (hread : ∀ inner rest, read = some (inner, rest) → ∃ used, text = used ++ right :: rest ∧ property used)
    (hparse : (match skipWhitespace text with
      | [] => none
      | next :: after =>
        if next = right then some (empty, after) else read.map fun parsed => (block parsed.1, parsed.2)) =
      some (value, rest)) : ∃ used, left :: text = used ++ rest ∧ property used := by
  suffices hused : ∃ used, text = used ++ right :: rest ∧ property used by
    obtain ⟨used, rfl, hused⟩ := hused
    exact ⟨left :: (used ++ [right]), by simp, hgrammar.brackets hleft hright hused⟩
  split at hparse
  · exact nomatch hparse
  · rename_i next after hnext
    split_ifs at hparse with hclose
    · obtain ⟨-, rfl⟩ := Prod.mk.inj (Option.some.inj hparse)
      obtain ⟨blanks, hblan, hbal⟩ := skipWhitespace_used hgrammar text
      exact ⟨blanks, by rw [hblan, hnext, hclose], hbal⟩
    · obtain ⟨⟨inner, after⟩, hinner, heq⟩ := Option.map_eq_some_iff.mp hparse
      obtain ⟨-, rfl⟩ := Prod.mk.inj heq
      exact hread inner after hinner

theorem word_uses {unit : UInt16} (word : JsStr) {text rest : JsStr} {found value : Json}
    (hword : ∀ other ∈ unit :: word, IsNeutral other)
    (hparse : ((dropWord word text).map fun rest => (found, rest)) = some (value, rest)) :
    ∃ used, unit :: text = used ++ rest ∧ property used := by
  obtain ⟨after, hafter, heq⟩ := Option.map_eq_some_iff.mp hparse
  obtain ⟨-, rfl⟩ := Prod.mk.inj heq
  exact ⟨unit :: word, by rw [dropWord_used hafter, cons_append], hgrammar.neutral hword⟩

end Grammar

/-! ### Scans that stay above a depth -/

/-- All states of a scan satisfy the property. -/
def Visits (property : Scanner → Prop) (scanner : Scanner) : JsStr → Prop
  | [] => property scanner
  | unit :: rest => property scanner ∧ Visits property (scanner.step unit) rest

variable {scanner : Scanner}

theorem Visits.head {property : Scanner → Prop} (hvis : Visits property scanner text) : property scanner := by
  cases text with
  | nil => exact hvis
  | cons unit rest => exact hvis.1

theorem Visits.append {property : Scanner → Prop}
    (hleft : Visits property scanner left) (hright : Visits property (scan scanner left) right) :
    Visits property scanner (left ++ right) := by
  induction left generalizing scanner with
  | nil => exact hright
  | cons unit left ih => exact ⟨hleft.1, ih hleft.2 hright⟩

theorem Visits.mono {property other : Scanner → Prop}
    (hvis : Visits property scanner text) (hother : ∀ state, property state → other state) :
    Visits other scanner text := by
  induction text generalizing scanner with
  | nil => exact hother _ hvis
  | cons unit text ih => exact ⟨hother _ hvis.1, ih hvis.2⟩

theorem Visits.of_start {property : Scanner → Prop} (hvis : Visits property scanner text) (hleft : left <+: text) :
    property (scan scanner left) := by
  obtain ⟨right, rfl⟩ := hleft
  induction left generalizing scanner with
  | nil => exact hvis.head
  | cons unit left ih => exact ih hvis.2

/-- Text that is balanced and never closes a bracket it has not opened. -/
structure Guarded (text : JsStr) : Prop where
  balanced : Balanced text
  visits : ∀ depth, Visits (fun scanner => depth ≤ scanner.depth) ⟨.outside, depth⟩ text

theorem Guarded.append (hleft : Guarded left) (hright : Guarded right) : Guarded (left ++ right) where
  balanced := hleft.balanced.append hright.balanced
  visits := by
    intro depth
    refine (hleft.visits depth).append ?_
    rw [hleft.balanced]
    exact hright.visits depth

theorem guarded_of_neutral (htext : ∀ unit ∈ text, IsNeutral unit) : Guarded text where
  balanced := balanced_of_neutral htext
  visits := by
    intro depth
    induction text with
    | nil => exact Nat.le_refl _
    | cons unit rest ih =>
      refine ⟨Nat.le_refl _, ?_⟩
      rw [(htext unit mem_cons_self).step]
      exact ih fun other hother => htext other (mem_cons_of_mem _ hother)

theorem guarded_brackets {left right : UInt16} (hleft : left = openBracket ∨ left = openBrace)
    (hright : right = closeBracket ∨ right = closeBrace) (htext : Guarded text) :
    Guarded (left :: (text ++ [right])) where
  balanced := balanced_brackets hleft hright htext.balanced
  visits := by
    intro depth
    have hopen : Scanner.step ⟨.outside, depth⟩ left = ⟨.outside, depth + 1⟩ := by
      rcases hleft with rfl | rfl <;> rfl
    have hclose : Scanner.step ⟨.outside, depth + 1⟩ right = ⟨.outside, depth⟩ := by
      rcases hright with rfl | rfl <;> rfl
    refine ⟨Nat.le_refl _, ?_⟩
    rw [hopen]
    refine Visits.append ((htext.visits (depth + 1)).mono fun _ h => Nat.le_of_succ_le h) ?_
    rw [htext.balanced]
    exact ⟨Nat.le_succ _, by rw [hclose]; exact Nat.le_refl _⟩

theorem visits_plain {depth : Nat} (hquote : unit ≠ quoteMark) (hbac : unit ≠ backslash)
    (hvis : Visits (fun scanner => depth ≤ scanner.depth) ⟨.inString, depth⟩ text) :
    Visits (fun scanner => depth ≤ scanner.depth) ⟨.inString, depth⟩ (unit :: text) := by
  have hstep : Scanner.step ⟨.inString, depth⟩ unit = ⟨.inString, depth⟩ := by
    simp [Scanner.step, hquote, hbac]
  refine ⟨Nat.le_refl _, ?_⟩
  rw [hstep]
  exact hvis

/-- Inside a string literal the scanner stays at its depth. -/
theorem StringBody.visits (hbody : StringBody text) (depth : Nat) :
    Visits (fun scanner => depth ≤ scanner.depth) ⟨.inString, depth⟩ text := by
  induction hbody with
  | close => exact ⟨Nat.le_refl _, Nat.le_refl _⟩
  | unicode hhex _ ih =>
    obtain ⟨hfirst, hsnd, hthird, hfour⟩ := hexValue4?_ne hhex
    exact ⟨Nat.le_refl _, Nat.le_refl _, visits_plain hfirst.1 hfirst.2 (visits_plain hsnd.1 hsnd.2
      (visits_plain hthird.1 hthird.2 (visits_plain hfour.1 hfour.2 ih)))⟩
  | escape _ _ _ ih => exact ⟨Nat.le_refl _, Nat.le_refl _, ih⟩
  | plain hquote hbac _ _ ih => exact visits_plain hquote hbac ih

theorem guarded_grammar : Grammar Guarded where
  neutral := guarded_of_neutral
  append := Guarded.append
  brackets := guarded_brackets
  quoted := fun hbody => ⟨hbody.closes.quoted, fun depth => ⟨Nat.le_refl _, hbody.visits depth⟩⟩

/-! ### Control characters -/

/-- The text has no control characters. -/
def Printable (text : JsStr) : Prop := ∀ unit ∈ text, 0x20 ≤ unit.toNat

theorem Printable.append (hleft : Printable left) (hright : Printable right) : Printable (left ++ right) :=
  forall_mem_append.mpr ⟨hleft, hright⟩

/-- A printable ASCII character. -/
def IsVisible (unit : UInt16) : Prop := 0x20 ≤ unit.toNat ∧ unit.toNat < 0x80

instance (unit : UInt16) : Decidable (IsVisible unit) := inferInstanceAs (Decidable (_ ∧ _))

theorem isVisible_of_isNumberUnit (hunit : isNumberUnit unit = true) : IsVisible unit := by
  simp only [isNumberUnit, isDigit, isExponentMark, Bool.or_eq_true, Bool.and_eq_true, decide_eq_true_eq] at hunit
  rcases hunit with (((⟨hlow, hhigh⟩ | (rfl | rfl)) | rfl) | rfl) | rfl
  · exact ⟨by omega, by omega⟩
  all_goals decide

theorem isVisible_of_shortEscape? {letter : UInt16} (hesc : shortEscape? unit = some letter) : IsVisible letter := by
  unfold shortEscape? at hesc
  split_ifs at hesc <;> obtain rfl := Option.some.inj hesc <;> decide

theorem isVisible_unicodeEscape (unit : UInt16) : ∀ other ∈ unicodeEscape unit, IsVisible other := by
  have hlt := UInt16.toNat_lt unit
  have hhex : ∀ value, value < 16 → IsVisible (hexDigit value) := by
    intro value hvalue
    interval_cases value <;> decide
  intro other hother
  simp only [unicodeEscape, mem_cons, not_mem_nil, or_false] at hother
  rcases hother with rfl | rfl | rfl | rfl | rfl | rfl
  · decide
  · decide
  all_goals exact hhex _ (by omega)

section Quote

variable {property : JsStr → Prop}
  (happ : ∀ left right, property left → property right → property (left ++ right))
  (hvis : ∀ text : JsStr, (∀ unit ∈ text, IsVisible unit) → property text)
  (hplain : ∀ unit : UInt16, 0x20 ≤ unit.toNat → isHighSurrogate unit = false → isLowSurrogate unit = false →
    property [unit])
  (hpair : ∀ high low, isHighSurrogate high = true → isLowSurrogate low = true → property [high, low])

include hvis hplain

theorem quoteUnit_pieces (unit : UInt16) : property (quoteUnit unit) := by
  rw [quoteUnit]
  cases hesc : shortEscape? unit with
  | some letter =>
    refine hvis _ (forall_mem_cons.mpr ⟨by decide, ?_⟩)
    exact forall_mem_singleton.mpr (isVisible_of_shortEscape? hesc)
  | none =>
    dsimp only
    split_ifs with hspec
    · exact hvis _ (isVisible_unicodeEscape unit)
    · rw [Bool.or_eq_true, Bool.or_eq_true, not_or, not_or, decide_eq_true_eq] at hspec
      exact hplain unit (by omega) (Bool.not_eq_true _ ▸ hspec.1.2) (Bool.not_eq_true _ ▸ hspec.2)

include happ hpair

theorem quote_pieces (text : JsStr) : property (quote text) := by
  have hmark : property [quoteMark] := hvis _ (forall_mem_of_all (by decide))
  refine happ _ _ hmark (happ _ _ ?_ hmark)
  induction text using quoteUnits.induct with
  | case1 => rw [quoteUnits]; exact hvis [] (by simp)
  | case2 unit => rw [quoteUnits]; exact quoteUnit_pieces hvis hplain unit
  | case3 high low tail hsur ih =>
    have hboth := Bool.and_eq_true _ _ ▸ hsur
    rw [quoteUnits, if_pos hsur]
    exact happ _ _ (hpair high low hboth.1 hboth.2) ih
  | case4 high low tail hsur ih =>
    rw [quoteUnits, if_neg hsur]
    exact happ _ _ (quoteUnit_pieces hvis hplain high) ih

end Quote

variable [NumberText]

/-- **What the parser accepts has every property that its parts give it.** -/
theorem parseValue_uses {property : JsStr → Prop} (hgrammar : Grammar property) (budget : Nat) (text : JsStr) :
    Uses property text (parseValue budget text) := by
  induction budget generalizing text with
  | zero => exact fun _ _ hparse => by cases hparse
  | succ budget ih =>
    intro value rest hparse
    obtain ⟨blanks, hblan, hbal⟩ := skipWhitespace_used hgrammar text
    -- It is enough to see what the branch for the first code unit uses.
    suffices hbran : ∃ used, skipWhitespace text = used ++ rest ∧ property used by
      obtain ⟨used, hused, husedBalanced⟩ := hbran
      refine ⟨blanks ++ used, ?_, hgrammar.append hbal husedBalanced⟩
      rw [append_assoc, ← hused, ← hblan]
    rw [parseValue] at hparse
    split at hparse
    · cases hparse
    · rename_i unit tail htail
      rw [htail]
      split_ifs at hparse with hquote hbrac hbrace hnum hnull htrue hfalse
      · obtain ⟨parsed, hpar, heq⟩ := Option.map_eq_some_iff.mp hparse
        obtain ⟨-, rfl⟩ := Prod.mk.inj heq
        obtain ⟨used, hused, hclos⟩ := parseUnits_body hpar
        exact ⟨quoteMark :: used, by rw [hquote, hused, cons_append], hgrammar.quoted hclos⟩
      · subst hbrac
        exact block_uses hgrammar (.inl rfl) (.inl rfl) (fun _ _ hitems => parseItems_uses hgrammar ih hitems) hparse
      · subst hbrace
        exact block_uses hgrammar (.inr rfl) (.inr rfl) (fun _ _ hprops => parseMembers_uses hgrammar ih hprops) hparse
      · dsimp only at hparse
        split_ifs at hparse
        obtain ⟨-, rfl⟩ := Prod.mk.inj (Option.some.inj hparse)
        refine ⟨(unit :: tail).takeWhile isNumberUnit, takeWhile_append_dropWhile.symm, ?_⟩
        exact hgrammar.neutral fun other hother =>
          isNumberUnit_neutral (mem_takeWhile_imp hother)
      · subst hnull
        exact word_uses hgrammar (js "ull") (forall_mem_of_all (by decide)) hparse
      · subst htrue
        exact word_uses hgrammar (js "rue") (forall_mem_of_all (by decide)) hparse
      · subst hfalse
        exact word_uses hgrammar (js "alse") (forall_mem_of_all (by decide)) hparse

variable {value : Json}

theorem parse_uses {property : JsStr → Prop} (hgrammar : Grammar property)
    (hparse : parse text = some value) : property text := by
  rw [parse] at hparse
  split at hparse
  · rename_i found rest hfound
    split_ifs at hparse with hrest
    obtain ⟨used, rfl, hused⟩ := parseValue_uses hgrammar _ _ found rest hfound
    obtain ⟨blanks, hblan, hbal⟩ := skipWhitespace_used hgrammar rest
    rw [hrest, append_nil] at hblan
    rw [hblan]
    exact hgrammar.append hused hbal
  · cases hparse

theorem parseValue_balanced (budget : Nat) (text : JsStr) : UsesBalanced text (parseValue budget text) :=
  parseValue_uses balanced_grammar budget text

theorem parse_balanced (hparse : parse text = some value) : Balanced text :=
  parse_uses balanced_grammar hparse

/-! ### The text of a value -/

/-- The text between the brackets of an array. -/
def itemsText : List Json → JsStr
  | [] => []
  | item :: items => stringify item ++ stringifyItems items

/-- The text between the braces of an object. -/
def membersText : Props Json → JsStr
  | [] => []
  | (key, value) :: props => quote key ++ colon :: stringify value ++ stringifyMembers props

theorem stringify_array (items : List Json) :
    stringify (.array items) = openBracket :: (itemsText items ++ [closeBracket]) := by
  cases items <;> rw [stringify] <;> rfl

theorem stringify_object (props : Props Json) :
    stringify (.object props) = openBrace :: (membersText props ++ [closeBrace]) := by
  cases props <;> rw [stringify] <;> rfl

variable {props : Props Json}

theorem guarded_membersText (hprops : (Json.object props).Serializable) : Guarded (membersText props) := by
  cases hprops with
  | object hord hval =>
    cases props with
    | nil => exact @guarded_of_neutral [] (by simp)
    | cons entry props =>
      have hnor := Json.normProps_ordered hord
      rw [Json.normProps] at hnor
      obtain ⟨budget, hread⟩ : ∃ budget, ∀ other ∈ entry :: props, ReadsText (parseValue budget) other.2 := by
        refine ⟨(stringify entry.2).length + (stringifyMembers props).length + 1, fun other hother => ?_⟩
        refine parseValue_stringify (hval other hother) ?_
        rcases mem_cons.mp hother with rfl | htail
        · omega
        · have hlt := stringify_length_members htail
          omega
      have hparse := parseMembers_stringify [] [] hread hnor (Nat.lt_succ_self props.length)
      obtain ⟨used, hused, hguard⟩ := parseMembers_uses guarded_grammar (parseValue_uses guarded_grammar budget) hparse
      have htext : membersText (entry :: props) ++ [closeBrace] = used ++ [closeBrace] := by
        rw [← hused]
        simp [membersText]
      rw [append_cancel_right htext]
      exact hguard

/-- **No strict prefix of the text of an object is JSON**, the empty one included. -/
theorem parse_truncated (hprops : (Json.object props).Serializable)
    (htext : stringify (.object props) = left ++ right) (hright : right ≠ []) : parse left = none := by
  have hguard := guarded_membersText hprops
  cases hparse : parse left with
  | none => rfl
  | some value =>
    have hbal := parse_balanced hparse 0
    rw [stringify_object] at htext
    cases left with
    | nil => exact nomatch hparse
    | cons unit left =>
      rw [cons_append] at htext
      obtain ⟨rfl, hrest⟩ := List.cons.inj htext
      have hstar : left <+: membersText props := by
        refine prefix_of_prefix_length_le ⟨right, hrest.symm⟩
          (prefix_append _ _) ?_
        have hlen := congrArg List.length hrest
        have hpos := length_pos_of_ne_nil hright
        simp only [length_append, length_singleton] at hlen
        omega
      have hdepth := (hguard.visits 1).of_start hstar
      rw [scan_cons, show Scanner.step ⟨.outside, 0⟩ openBrace = ⟨.outside, 1⟩ from rfl]
        at hbal
      rw [hbal] at hdepth
      exact absurd hdepth (by decide)

/-! ### Properties of the text of a value -/

section Pieces

variable {property : JsStr → Prop}
  (happ : ∀ left right, property left → property right → property (left ++ right))
  (hvis : ∀ text : JsStr, (∀ unit ∈ text, IsVisible unit) → property text)
  (hquote : ∀ text, property (quote text))

include happ hvis

theorem itemsText_pieces {items : List Json} (hitems : ∀ item ∈ items, property (stringify item)) :
    property (itemsText items) := by
  have hrest : ∀ others : List Json, (∀ item ∈ others, property (stringify item)) →
      property (stringifyItems others) := by
    intro others hoth
    induction others with
    | nil => rw [stringifyItems]; exact hvis [] (by simp)
    | cons item others ih =>
      rw [stringifyItems]
      refine happ [comma] _ (hvis _ (forall_mem_of_all (by decide))) (happ _ _ ?_ ?_)
      · exact hoth item mem_cons_self
      · exact ih fun other hother => hoth other (mem_cons_of_mem _ hother)
  cases items with
  | nil => exact hvis [] (by simp)
  | cons item items =>
    exact happ _ _ (hitems item mem_cons_self)
      (hrest items fun other hother => hitems other (mem_cons_of_mem _ hother))

include hquote

theorem membersText_pieces {props : Props Json} (hprops : ∀ entry ∈ props, property (stringify entry.2)) :
    property (membersText props) := by
  have hmemb : ∀ entry : JsStr × Json, property (stringify entry.2) →
      property (quote entry.1 ++ colon :: stringify entry.2) := by
    intro entry hentry
    refine happ _ _ (hquote entry.1) (happ [colon] _ ?_ hentry)
    exact hvis _ (forall_mem_of_all (by decide))
  have hrest : ∀ others : Props Json, (∀ entry ∈ others, property (stringify entry.2)) →
      property (stringifyMembers others) := by
    intro others hoth
    induction others with
    | nil => rw [stringifyMembers]; exact hvis [] (by simp)
    | cons entry others ih =>
      have htail := ih fun other hother => hoth other (mem_cons_of_mem _ hother)
      have hfirst := happ _ _ (hmemb entry (hoth entry mem_cons_self)) htail
      rw [stringifyMembers]
      exact happ [comma] _ (hvis _ (forall_mem_of_all (by decide))) hfirst
  cases props with
  | nil => exact hvis [] (by simp)
  | cons entry props =>
    exact happ _ _ (hmemb entry (hprops entry mem_cons_self))
      (hrest props fun other hother => hprops other (mem_cons_of_mem _ hother))

/-- A property of texts holds of the text of a value when string literals and visible characters have
it and concatenation keeps it. -/
theorem stringify_pieces {value : Json} (hvalue : value.Writable) : property (stringify value) := by
  induction hvalue with
  | null => rw [stringify]; exact hvis _ (forall_mem_of_all (by decide))
  | bool value => cases value <;> rw [stringify] <;> exact hvis _ (forall_mem_of_all (by decide))
  | number hfin =>
    rw [stringify]
    exact hvis _ fun unit hunit =>
      isVisible_of_isNumberUnit (readNumber_units (NumberText.text_literal _ hfin) unit hunit)
  | string value => rw [stringify]; exact hquote value
  | @array items _ ih =>
    rw [stringify_array]
    refine happ [openBracket] _ (hvis _ (forall_mem_of_all (by decide))) (happ _ _ ?_ ?_)
    · exact itemsText_pieces happ hvis ih
    · exact hvis _ (forall_mem_of_all (by decide))
  | @object props _ ih =>
    rw [stringify_object]
    refine happ [openBrace] _ (hvis _ (forall_mem_of_all (by decide))) (happ _ _ ?_ ?_)
    · exact membersText_pieces happ hvis hquote ih
    · exact hvis _ (forall_mem_of_all (by decide))

end Pieces

/-- **The text of a value has no control characters**, so it is a single line. -/
theorem printable_stringify (hvalue : value.Serializable) : Printable (stringify value) := by
  have happ : ∀ left right, Printable left → Printable right → Printable (left ++ right) := fun _ _ => Printable.append
  have hvis : ∀ text : JsStr, (∀ unit ∈ text, IsVisible unit) → Printable text :=
    fun _ htext unit hunit => (htext unit hunit).1
  refine stringify_pieces happ hvis (quote_pieces happ hvis ?_ ?_) hvalue.writable
  · exact fun _ hunit _ _ => forall_mem_singleton.mpr hunit
  · intro high low hhigh hlow
    refine forall_mem_cons.mpr ⟨(isPlain_of_surrogate (.inl hhigh)).2.2, ?_⟩
    exact forall_mem_singleton.mpr (isPlain_of_surrogate (.inr hlow)).2.2

end PiRp.JsonText

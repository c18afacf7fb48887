import Mathlib.Data.List.TakeWhile
import PiRp.JsMap
import PiRp.JsOccurrences

/-! `scanXmlTags`: the recognized tags of a text and the plain text between them. A tag without its closing tag
takes the rest of the text; a header without its `>` is plain text. -/

namespace PiRp.XmlTags

open List JsStr

/-! ### Headers -/

abbrev Attrs := JsMap JsStr JsStr

inductive XmlTagSegment where
  | text (text : JsStr)
  | tag (name : JsStr) (attrs : Attrs) (content : JsStr) (closed pending : Bool)

def isLetter (unit : UInt16) : Bool := (0x41 ≤ unit && unit ≤ 0x5A) || (0x61 ≤ unit && unit ≤ 0x7A)

/-- A letter, a digit or an underscore. -/
def isWordUnit (unit : UInt16) : Bool := isLetter unit || (0x30 ≤ unit && unit ≤ 0x39) || unit = 0x5F

/-- `[A-Za-z0-9_-]` -/
def isNameUnit (unit : UInt16) : Bool := isWordUnit unit || unit = 0x2D

/-- The name in a match of `TAG_NAME_RE`. -/
def headerName : JsStr → Option JsStr
  | lt :: unit :: rest =>
    if lt = 0x3C && isLetter unit then some (unit :: rest.takeWhile isNameUnit) else none
  | _ => none

/-- `[A-Za-z0-9_.:-]` -/
def isKeyUnit (unit : UInt16) : Bool := isNameUnit unit || unit = 0x2E || unit = 0x3A

/-- ``[^\s"'=<>`]`` -/
def isUnquotedUnit (unit : UInt16) : Bool :=
  !(isWhitespace unit || unit = 0x22 || unit = 0x27 || unit = 0x3D || unit = 0x3C || unit = 0x3E || unit = 0x60)

/-- The value in quotes behind an opening quote, and what follows. -/
def quotedValue (quote : UInt16) (text : JsStr) : Option (JsStr × JsStr) :=
  if text.contains quote then some (text.takeWhile (· ≠ quote), (text.dropWhile (· ≠ quote)).tail) else none

/-- The optional group of `ATTR_RE`: a value and what follows it. -/
def attrValue (text : JsStr) : Option (JsStr × JsStr) :=
  match text.dropWhile isWhitespace with
  | [] => none
  | unit :: rest =>
    if unit = 0x3D then
      match rest.dropWhile isWhitespace with
      | [] => none
      | unit :: rest =>
        if unit = 0x22 then quotedValue 0x22 rest
        else if unit = 0x27 then quotedValue 0x27 rest
        else if isUnquotedUnit unit then
          some (unit :: rest.takeWhile isUnquotedUnit, rest.dropWhile isUnquotedUnit)
        else none
    else none

/-- `attrs[key] = value`; a text is no prototype. -/
def setAttr (attrs : Attrs) (key value : JsStr) : Attrs :=
  if key = js "__proto__" then attrs else attrs.set key value

theorem length_dropWhile_le (select : UInt16 → Bool) (text : JsStr) :
    (text.dropWhile select).length ≤ text.length := (dropWhile_sublist select).length_le

theorem length_quotedValue {quote : UInt16} {text value rest : JsStr}
    (hvalue : quotedValue quote text = some (value, rest)) : rest.length ≤ text.length := by
  rw [quotedValue] at hvalue
  split_ifs at hvalue
  obtain ⟨-, rfl⟩ := Prod.mk.inj (Option.some.inj hvalue)
  calc (text.dropWhile (· ≠ quote)).tail.length
      ≤ (text.dropWhile (· ≠ quote)).length := by rw [length_tail]; exact Nat.sub_le _ _
    _ ≤ text.length := length_dropWhile_le _ _

theorem length_attrValue {text value rest : JsStr} (hvalue : attrValue text = some (value, rest)) :
    rest.length ≤ text.length := by
  have htext := length_dropWhile_le isWhitespace text
  rw [attrValue] at hvalue
  split at hvalue
  · cases hvalue
  · next unit after hafter =>
    rw [hafter, length_cons] at htext
    have hspace := length_dropWhile_le isWhitespace after
    split_ifs at hvalue
    split at hvalue
    · cases hvalue
    · next quote tail htail =>
      rw [htail, length_cons] at hspace
      split_ifs at hvalue
      · have := length_quotedValue hvalue
        omega
      · have := length_quotedValue hvalue
        omega
      · obtain ⟨-, rfl⟩ := Prod.mk.inj (Option.some.inj hvalue)
        have := length_dropWhile_le isUnquotedUnit tail
        omega

/-- The matches of `ATTR_RE` one after the other. -/
def attrsFrom (attrs : Attrs) : JsStr → Attrs
  | [] => attrs
  | unit :: rest =>
    if isLetter unit || unit = 0x5F then
      let key := unit :: rest.takeWhile isKeyUnit
      let after := rest.dropWhile isKeyUnit
      match _hvalue : attrValue after with
      | some (value, after) => attrsFrom (setAttr attrs key value) after
      | none => attrsFrom (setAttr attrs key []) after
    else attrsFrom attrs rest
termination_by text => text.length
decreasing_by
  · calc _ ≤ _ := length_attrValue _hvalue
      _ ≤ rest.length := length_dropWhile_le _ _
      _ < (unit :: rest).length := Nat.lt_succ_self _
  · exact Nat.lt_succ_of_le (length_dropWhile_le _ _)
  · exact Nat.lt_succ_self _

def parseAttrs (headerBody : JsStr) : Attrs :=
  if trim headerBody = [] then JsMap.empty else attrsFrom JsMap.empty headerBody

/-! ### Closing tags -/

/-- `</name` -/
def closing (name : JsStr) : JsStr := 0x3C :: 0x2F :: name

/-- The position of the closing tag of a name, in the text behind the header. -/
def findClosingTag (name text : JsStr) : Option Nat :=
  match _hfound : indexOf (closing name) text with
  | none => none
  | some closeLt =>
    let after := text.drop (closeLt + (closing name).length)
    if (after.dropWhile isWhitespace).head? = some 0x3E then some closeLt
    else (findClosingTag name after).map (· + (closeLt + (closing name).length))
termination_by text.length
decreasing_by
  have hend := (indexOf_eq_some _hfound).length_le (cons_ne_nil _ _)
  have hpos : 0 < (closing name).length := length_pos_iff.mpr (cons_ne_nil _ _)
  rw [length_drop]
  omega

/-- What follows the closing tag that a text starts with. -/
def skipClosingTag (name text : JsStr) : JsStr :=
  ((text.drop (closing name).length).dropWhile (· ≠ 0x3E)).tail

/-! ### The scan -/

/-- The header of a recognized tag that a text starts with: its name, its body and what follows it. -/
def header? (tags : List JsStr) (text : JsStr) : Option (JsStr × JsStr × JsStr) :=
  (headerName text).bind fun name =>
    if tags.contains name then
      let headerBody := text.drop (name.length + 1)
      if headerBody.contains 0x3E then
        some (name, headerBody.takeWhile (· ≠ 0x3E), (headerBody.dropWhile (· ≠ 0x3E)).tail)
      else none
    else none

theorem length_skipClosingTag (name text : JsStr) : (skipClosingTag name text).length ≤ text.length :=
  calc (skipClosingTag name text).length
      ≤ ((text.drop (closing name).length).dropWhile (· ≠ 0x3E)).length := by
        rw [skipClosingTag, length_tail]; exact Nat.sub_le _ _
    _ ≤ (text.drop (closing name).length).length := length_dropWhile_le _ _
    _ ≤ text.length := by rw [length_drop]; exact Nat.sub_le _ _

theorem takeWhile_append_cons_tail {stop : UInt16} {text : JsStr} (hstop : stop ∈ text) :
    text.takeWhile (· ≠ stop) ++ stop :: (text.dropWhile (· ≠ stop)).tail = text := by
  induction text with
  | nil => exact absurd hstop not_mem_nil
  | cons unit rest ih =>
    by_cases heq : unit = stop
    · subst heq
      simp
    · have hrest := (mem_cons.mp hstop).resolve_left (Ne.symm heq)
      have hgoes : decide (unit ≠ stop) = true := decide_eq_true heq
      rw [takeWhile_cons, if_pos hgoes, dropWhile_cons, if_pos hgoes, cons_append, ih hrest]

theorem headerName_eq_some {text name : JsStr} (hname : headerName text = some name) :
    text = 0x3C :: name ++ text.drop (name.length + 1) ∧
      ∀ unit ∈ (text.drop (name.length + 1)).head?, isNameUnit unit = false := by
  unfold headerName at hname
  split at hname
  · next lt unit rest =>
    split_ifs at hname with hopens
    obtain rfl := Option.some.inj hname
    rw [Bool.and_eq_true, decide_eq_true_eq] at hopens
    have hdrop : (lt :: unit :: rest).drop ((unit :: rest.takeWhile isNameUnit).length + 1) =
        rest.dropWhile isNameUnit := by
      rw [length_cons, drop_succ_cons, drop_succ_cons]
      calc rest.drop (rest.takeWhile isNameUnit).length
          = (rest.takeWhile isNameUnit ++ rest.dropWhile isNameUnit).drop (rest.takeWhile isNameUnit).length := by
            rw [takeWhile_append_dropWhile]
        _ = rest.dropWhile isNameUnit := drop_left
    rw [hdrop, hopens.1]
    refine ⟨?_, fun after hafter => ?_⟩
    · rw [cons_append, cons_append, takeWhile_append_dropWhile]
    · have hstop := head?_dropWhile_not isNameUnit rest
      rw [Option.mem_def.mp hafter] at hstop
      exact hstop
  · exact nomatch hname

theorem header?_eq_some {tags : List JsStr} {text name body inside : JsStr} :
    header? tags text = some (name, body, inside) ↔ headerName text = some name ∧ name ∈ tags ∧ 0x3E ∉ body ∧
        text.drop (name.length + 1) = body ++ 0x3E :: inside := by
  rw [header?, Option.bind_eq_some_iff]
  constructor
  · rintro ⟨found, hname, hhead⟩
    split_ifs at hhead with htag
    dsimp only at hhead
    split_ifs at hhead with hend
    simp only [Option.some.injEq, Prod.mk.injEq] at hhead
    obtain ⟨rfl, rfl, rfl⟩ := hhead
    refine ⟨hname, contains_iff_mem.mp htag, fun hbody => ?_, ?_⟩
    · have hall := all_takeWhile (p := (· ≠ 0x3E)) (l := text.drop (found.length + 1))
      simpa using all_eq_true.mp hall _ hbody
    · exact (takeWhile_append_cons_tail (contains_iff_mem.mp hend)).symm
  · rintro ⟨hname, htag, hbody, hdrop⟩
    have hall : ∀ unit ∈ body, decide (unit ≠ 0x3E) = true := by
      intro unit hunit
      exact decide_eq_true fun heq => hbody (heq ▸ hunit)
    refine ⟨name, hname, ?_⟩
    rw [if_pos (contains_iff_mem.mpr htag), hdrop]
    dsimp only
    rw [if_pos (by simp), takeWhile_append_of_pos hall, dropWhile_append_of_pos hall]
    simp

theorem length_inside {tags : List JsStr} {text name body inside : JsStr}
    (hhead : header? tags text = some (name, body, inside)) : inside.length < text.length := by
  obtain ⟨-, -, -, hdrop⟩ := header?_eq_some.mp hhead
  have hlen := congrArg List.length hdrop
  simp only [length_drop, length_append, length_cons] at hlen
  omega

/-- A run of plain text, if there is one. -/
def textSegment (run : JsStr) : List XmlTagSegment := if run = [] then [] else [.text run]

/-- The loop of the scan, with the plain text since the last tag and what follows. -/
def scanFrom (tags : List JsStr) (run : JsStr) : JsStr → List XmlTagSegment
  | [] => textSegment run
  | unit :: rest =>
    match _hheader : header? tags (unit :: rest) with
    | none => scanFrom tags (run ++ [unit]) rest
    | some (name, headerBody, inside) =>
      textSegment run ++
        match findClosingTag name inside with
        | none => [.tag name (parseAttrs headerBody) inside false true]
        | some closeStart =>
          .tag name (parseAttrs headerBody) (inside.take closeStart) true false ::
            scanFrom tags [] (skipClosingTag name (inside.drop closeStart))
termination_by text => text.length
decreasing_by
  · exact Nat.lt_succ_self _
  · calc _ ≤ _ := length_skipClosingTag _ _
      _ ≤ inside.length := by rw [length_drop]; exact Nat.sub_le _ _
      _ < (unit :: rest).length := length_inside _hheader

def scanXmlTags (source : JsStr) (tags : List JsStr) : List XmlTagSegment := scanFrom tags [] source

/-! ### Texts that go on -/

section Append

variable {tags : List JsStr} {text name body inside : JsStr}

theorem findClosingTag_of_none (hindex : indexOf (closing name) text = none) : findClosingTag name text = none := by
  rw [findClosingTag]
  split
  · rfl
  · next hfound => rw [hindex] at hfound; exact nomatch hfound

theorem findClosingTag_of_some {closeLt : Nat} (hindex : indexOf (closing name) text = some closeLt) :
    findClosingTag name text = let after := text.drop (closeLt + (closing name).length)
      if (after.dropWhile isWhitespace).head? = some 0x3E then some closeLt
      else (findClosingTag name after).map (· + (closeLt + (closing name).length)) := by
  rw [findClosingTag]
  split
  · next hfound => rw [hindex] at hfound; exact nomatch hfound
  · next found hfound =>
    obtain rfl := Option.some.inj (hindex.symm.trans hfound)
    rfl

theorem dropWhile_append_of_ne_nil {select : UInt16 → Bool} (hrest : text.dropWhile select ≠ []) (more : JsStr) :
    (text ++ more).dropWhile select = text.dropWhile select ++ more := by
  rw [dropWhile_append, if_neg (by rwa [List.isEmpty_iff])]

variable {closeStart : Nat}

section

variable (hfound : findClosingTag name text = some closeStart)

include hfound

theorem lt_mem_of_findClosingTag : 0x3C ∈ text := by
  cases hindex : indexOf (closing name) text with
  | none => rw [findClosingTag_of_none hindex] at hfound; exact nomatch hfound
  | some closeLt =>
    have hinfix := (indexOf_eq_some hindex).isInfix
    exact hinfix.subset mem_cons_self

omit hfound in
theorem dropWhile_ne_nil {select : UInt16 → Bool} {unit : UInt16} (hunit : unit ∈ text)
    (hstop : select unit = false) : text.dropWhile select ≠ [] := by
  intro hnil
  have hall := dropWhile_eq_nil_iff.mp hnil unit hunit
  rw [hall] at hstop
  exact nomatch hstop

theorem findClosingTag_append (more : JsStr) : findClosingTag name (text ++ more) = some closeStart := by
  induction text using findClosingTag.induct name generalizing closeStart with
  | case1 text hnone =>
    rw [findClosingTag_of_none hnone] at hfound
    exact nomatch hfound
  | case2 text closeLt hindex found =>
    rename_i hends
    rw [findClosingTag_of_some hindex] at hfound
    dsimp only at hfound hends
    rw [if_pos hends] at hfound
    have hlen := (indexOf_eq_some hindex).length_le (cons_ne_nil _ _)
    have hrest : (text.drop (closeLt + (closing name).length)).dropWhile isWhitespace ≠ [] := by
      intro hnil
      rw [hnil] at hends
      exact nomatch hends
    rw [findClosingTag_of_some (indexOf_append hindex more), drop_append_of_le_length hlen]
    dsimp only
    rw [dropWhile_append_of_ne_nil hrest, head?_append_of_ne_nil _ hrest, if_pos hends, ← hfound]
  | case3 text closeLt hindex found hends =>
    rename_i ih
    rw [findClosingTag_of_some hindex] at hfound
    dsimp only at hfound hends ih
    rw [if_neg hends] at hfound
    obtain ⟨later, hlater, rfl⟩ := Option.map_eq_some_iff.mp hfound
    have hlen := (indexOf_eq_some hindex).length_le (cons_ne_nil _ _)
    have hrest : (text.drop (closeLt + (closing name).length)).dropWhile isWhitespace ≠ [] :=
      dropWhile_ne_nil (lt_mem_of_findClosingTag hlater) (by decide)
    rw [findClosingTag_of_some (indexOf_append hindex more), drop_append_of_le_length hlen]
    dsimp only
    rw [dropWhile_append_of_ne_nil hrest, head?_append_of_ne_nil _ hrest, if_neg hends, ih hlater]
    rfl

omit hfound in
theorem skipClosingTag_closing {gap : JsStr} (hgap : ∀ unit ∈ gap, isWhitespace unit = true)
    (name after : JsStr) : skipClosingTag name (closing name ++ gap ++ 0x3E :: after) = after := by
  have hpass : ∀ unit ∈ gap, decide (unit ≠ 0x3E) = true := by
    intro unit hunit
    refine decide_eq_true fun heq => ?_
    have hspace := hgap unit hunit
    rw [heq] at hspace
    exact absurd hspace (by decide)
  rw [skipClosingTag, append_assoc, drop_left, dropWhile_append_of_pos hpass]
  simp

theorem findClosingTag_spec : ∃ gap, (∀ unit ∈ gap, isWhitespace unit = true) ∧
      text.drop closeStart = closing name ++ gap ++ 0x3E :: skipClosingTag name (text.drop closeStart) := by
  induction text using findClosingTag.induct name generalizing closeStart with
  | case1 text hnone =>
    rw [findClosingTag_of_none hnone] at hfound
    exact nomatch hfound
  | case2 text closeLt hindex found =>
    rename_i hends
    rw [findClosingTag_of_some hindex] at hfound
    dsimp only at hfound hends
    rw [if_pos hends] at hfound
    obtain rfl := Option.some.inj hfound
    obtain ⟨after, hafter⟩ := indexOf_eq_some hindex
    have hdrop : text.drop (closeLt + (closing name).length) = after := by
      rw [← drop_drop, ← hafter, drop_left]
    change ((text.drop (closeLt + (closing name).length)).dropWhile isWhitespace).head? = some 0x3E at hends
    rw [hdrop] at hends
    obtain ⟨rest, hrest⟩ := head?_eq_some_iff.mp hends
    have hall : ∀ unit ∈ after.takeWhile isWhitespace, isWhitespace unit = true :=
      all_eq_true.mp all_takeWhile
    have hsplit : after = after.takeWhile isWhitespace ++ 0x3E :: rest := by
      rw [← hrest, takeWhile_append_dropWhile]
    have hspan : text.drop closeLt = closing name ++ after.takeWhile isWhitespace ++ 0x3E :: rest := by
      rw [append_assoc, ← hsplit, hafter]
    refine ⟨after.takeWhile isWhitespace, hall, ?_⟩
    rw [hspan, skipClosingTag_closing hall]
  | case3 text closeLt hindex found hends =>
    rename_i ih
    rw [findClosingTag_of_some hindex] at hfound
    dsimp only at hfound hends ih
    rw [if_neg hends] at hfound
    obtain ⟨later, hlater, rfl⟩ := Option.map_eq_some_iff.mp hfound
    obtain ⟨gap, hgap, htext⟩ := ih hlater
    rw [drop_drop, Nat.add_comm] at htext
    exact ⟨gap, hgap, htext⟩

theorem length_of_findClosingTag : closeStart ≤ text.length := by
  obtain ⟨gap, -, hspan⟩ := findClosingTag_spec hfound
  by_contra hbeyond
  rw [drop_eq_nil_of_le (by omega)] at hspan
  exact nomatch hspan

theorem skipClosingTag_append (more : JsStr) : skipClosingTag name ((text ++ more).drop closeStart) =
      skipClosingTag name (text.drop closeStart) ++ more := by
  obtain ⟨gap, hgap, hspan⟩ := findClosingTag_spec hfound
  rw [drop_append_of_le_length (length_of_findClosingTag hfound)]
  calc skipClosingTag name (text.drop closeStart ++ more)
      = skipClosingTag name (closing name ++ gap ++ 0x3E :: (skipClosingTag name (text.drop closeStart) ++ more)) := by
        rw [← cons_append, ← append_assoc, ← hspan]
    _ = skipClosingTag name (text.drop closeStart) ++ more := skipClosingTag_closing hgap name _

end

theorem headerName_append (hname : headerName text = some name) (hrest : text.drop (name.length + 1) ≠ [])
    (more : JsStr) : headerName (text ++ more) = some name := by
  unfold headerName at hname
  split at hname
  · next lt unit rest =>
    split_ifs at hname with hopens
    obtain rfl := Option.some.inj hname
    rw [length_cons, drop_succ_cons, drop_succ_cons, Ne, drop_eq_nil_iff, not_le] at hrest
    rw [cons_append, cons_append, headerName, if_pos hopens, takeWhile_append, if_neg hrest.ne]
  · exact nomatch hname

theorem header?_append (hhead : header? tags text = some (name, body, inside)) (more : JsStr) :
    header? tags (text ++ more) = some (name, body, inside ++ more) := by
  obtain ⟨hname, htag, hbody, hdrop⟩ := header?_eq_some.mp hhead
  have hlen := congrArg List.length hdrop
  rw [length_drop, length_append, length_cons] at hlen
  refine header?_eq_some.mpr ⟨headerName_append hname ?_ more, htag, hbody, ?_⟩
  · rw [hdrop]
    exact append_ne_nil_of_right_ne_nil _ (cons_ne_nil _ _)
  · rw [drop_append_of_le_length (by omega), hdrop, append_assoc, cons_append]

theorem isNameUnit_letter {unit : UInt16} (hlet : isLetter unit = true) : isNameUnit unit = true := by
  rw [isNameUnit, isWordUnit, hlet, Bool.true_or, Bool.true_or, Bool.true_or]

theorem headerName_of_append {more : JsStr} (hname : headerName (text ++ more) = some name) (hend : 0x3E ∈ text) :
    headerName text = some name ∧ 0x3E ∈ text.drop (name.length + 1) := by
  match text, hend with
  | [lt], hend =>
    rw [mem_singleton] at hend
    subst hend
    cases more with
    | nil => exact nomatch hname
    | cons unit rest =>
      rw [cons_append, nil_append, headerName] at hname
      split_ifs at hname with hopens
      exact absurd hopens (by simp)
  | lt :: unit :: rest, hend =>
    rw [cons_append, cons_append, headerName] at hname
    split_ifs at hname with hopens
    obtain rfl := Option.some.inj hname
    rw [Bool.and_eq_true, decide_eq_true_eq] at hopens
    have hunit : (0x3E : UInt16) ≠ unit := by
      intro heq
      have hlet := isNameUnit_letter hopens.2
      rw [← heq] at hlet
      exact absurd hlet (by decide)
    have hrest : 0x3E ∈ rest := by
      rw [hopens.1, mem_cons, mem_cons] at hend
      exact (hend.resolve_left (by decide)).resolve_left hunit
    have hstop : 0x3E ∉ rest.takeWhile isNameUnit := fun hmem =>
      absurd (mem_takeWhile_imp hmem) (by decide)
    have hshort : (rest.takeWhile isNameUnit).length ≠ rest.length := by
      intro hlen
      rw [( takeWhile_prefix isNameUnit).eq_of_length hlen] at hstop
      exact hstop hrest
    rw [takeWhile_append, if_neg hshort]
    refine ⟨by rw [headerName, if_pos (by rw [hopens.2, hopens.1]; rfl)], ?_⟩
    rw [length_cons, drop_succ_cons, drop_succ_cons]
    have hsplit : 0x3E ∈ rest.takeWhile isNameUnit ++ rest.drop (rest.takeWhile isNameUnit).length := by
      have heq := prefix_iff_eq_append.mp ( takeWhile_prefix isNameUnit (l := rest))
      rwa [heq]
    exact (mem_append.mp hsplit).resolve_left hstop

theorem header?_append_none (hhead : header? tags text = none) (hend : 0x3E ∈ text) (more : JsStr) :
    header? tags (text ++ more) = none := by
  by_contra hsome
  obtain ⟨⟨name, body, inside⟩, hfound⟩ := Option.ne_none_iff_exists'.mp hsome
  obtain ⟨hname, htag, -, -⟩ := header?_eq_some.mp hfound
  obtain ⟨hcom, hrest⟩ := headerName_of_append hname hend
  rw [header?, hcom, Option.bind_some, if_pos (contains_iff_mem.mpr htag)] at hhead
  dsimp only at hhead
  rw [if_pos (contains_iff_mem.mpr hrest)] at hhead
  exact nomatch hhead

end Append

/-! ### The segments and the source -/

/-- What a segment stands for in the source: a text for itself, without any header of a recognized tag in it, and
a tag for its header, its content and its closing tag. -/
def Reads (tags : List JsStr) : XmlTagSegment → JsStr → Prop
  | .text text, raw => raw = text ∧ text ≠ [] ∧ ∀ before after, text = before ++ after → header? tags after = none
  | .tag name attrs content closed pending, raw =>
    name ∈ tags ∧ pending = !closed ∧ ∃ headerBody gap, 0x3E ∉ headerBody ∧ attrs = parseAttrs headerBody ∧
      (∀ unit ∈ gap, isWhitespace unit = true) ∧
      raw = 0x3C :: name ++ headerBody ++ 0x3E :: content ++ if closed then closing name ++ gap ++ [0x3E] else []

/-- A segment and its part of the source. -/
abbrev Piece := XmlTagSegment × JsStr

/-- The parts of the segments of a scan are the source, one after the other. -/
structure Covers (tags : List JsStr) (run rest : JsStr) (pieces : List Piece) : Prop where
  segments : pieces.map Prod.fst = scanFrom tags run rest
  source : pieces.flatMap Prod.snd = run ++ rest
  reads : ∀ piece ∈ pieces, Reads tags piece.1 piece.2

def isClosedTag : XmlTagSegment → Bool
  | .text _ => false
  | .tag _ _ _ closed _ => closed

/-- No recognized tag starts in the plain text since the last one. -/
def Plain (tags : List JsStr) (run rest : JsStr) : Prop :=
  ∀ before after, run = before ++ after → after ≠ [] → header? tags (after ++ rest) = none

section Pieces

variable {tags : List JsStr} {run rest : JsStr} {unit : UInt16}

theorem plain_nil : Plain tags [] rest := by
  intro before after heq hne
  exact absurd (append_eq_nil_iff.mp heq.symm).2 hne

theorem Plain.next (hplain : Plain tags run (unit :: rest)) (hhead : header? tags (unit :: rest) = none) :
    Plain tags (run ++ [unit]) rest := by
  intro before after heq hne
  rcases eq_nil_or_concat' after with rfl | ⟨early, last, rfl⟩
  · exact absurd rfl hne
  · rw [← append_assoc] at heq
    obtain ⟨rfl, hlast⟩ := append_inj' heq rfl
    obtain rfl := singleton_inj.mp hlast
    rw [append_assoc, singleton_append]
    cases early with
    | nil => exact hhead
    | cons first early => exact hplain before _ rfl (cons_ne_nil _ _)

def textPiece (run : JsStr) : List Piece := if run = [] then [] else [(.text run, run)]

theorem textPiece_segments (run : JsStr) : (textPiece run).map Prod.fst = textSegment run := by
  rw [textPiece, textSegment]
  split_ifs <;> rfl

theorem textPiece_source (run : JsStr) : (textPiece run).flatMap Prod.snd = run := by
  rw [textPiece]
  split_ifs with hnil
  · exact hnil.symm
  · exact flatMap_singleton _ _

theorem textPiece_reads (hplain : Plain tags run rest) : ∀ piece ∈ textPiece run, Reads tags piece.1 piece.2 := by
  intro piece hpiece
  rw [textPiece] at hpiece
  split_ifs at hpiece with hnil
  · exact absurd hpiece not_mem_nil
  · obtain rfl := mem_singleton.mp hpiece
    refine ⟨rfl, hnil, fun before after heq => ?_⟩
    by_contra hsome
    obtain ⟨⟨name, body, inside⟩, hfound⟩ := Option.ne_none_iff_exists'.mp hsome
    have hne : after ≠ [] := by
      rintro rfl
      exact nomatch hfound
    have hlon := header?_append hfound rest
    rw [hplain before after heq hne] at hlon
    exact nomatch hlon

theorem scanFrom_none (hhead : header? tags (unit :: rest) = none) :
    scanFrom tags run (unit :: rest) = scanFrom tags (run ++ [unit]) rest := by
  rw [scanFrom]
  split
  · rfl
  · next hfound => rw [hhead] at hfound; exact nomatch hfound

theorem scanFrom_some {name headerBody inside : JsStr}
    (hhead : header? tags (unit :: rest) = some (name, headerBody, inside)) :
    scanFrom tags run (unit :: rest) = textSegment run ++ match findClosingTag name inside with
      | none => [.tag name (parseAttrs headerBody) inside false true]
      | some closeStart =>
        .tag name (parseAttrs headerBody) (inside.take closeStart) true false ::
          scanFrom tags [] (skipClosingTag name (inside.drop closeStart)) := by
  rw [scanFrom]
  split
  · next hfound => rw [hhead] at hfound; exact nomatch hfound
  · next hfound =>
    rw [hhead, Option.some.injEq, Prod.mk.injEq, Prod.mk.injEq] at hfound
    obtain ⟨rfl, rfl, rfl⟩ := hfound
    rfl

theorem covers_text (hplain : Plain tags run []) : Covers tags run [] (textPiece run) where
  segments := by rw [scanFrom, textPiece_segments]
  source := by rw [textPiece_source, append_nil]
  reads := textPiece_reads hplain

theorem Covers.next {pieces : List Piece} (hhead : header? tags (unit :: rest) = none)
    (hcov : Covers tags (run ++ [unit]) rest pieces) : Covers tags run (unit :: rest) pieces where
  segments := by rw [hcov.segments, scanFrom_none hhead]
  source := by rw [hcov.source, append_assoc, singleton_append]
  reads := hcov.reads

theorem covers_pending {name headerBody inside : JsStr} (hplain : Plain tags run (unit :: rest))
    (hhead : header? tags (unit :: rest) = some (name, headerBody, inside))
    (hclos : findClosingTag name inside = none) : Covers tags run (unit :: rest)
      (textPiece run ++ [(.tag name (parseAttrs headerBody) inside false true, unit :: rest)]) := by
  obtain ⟨hname, htag, hbody, hdrop⟩ := header?_eq_some.mp hhead
  obtain ⟨htext, -⟩ := headerName_eq_some hname
  refine ⟨?_, ?_, fun piece hpiece => ?_⟩
  · rw [map_append, textPiece_segments, scanFrom_some hhead, hclos]
    rfl
  · rw [flatMap_append, textPiece_source, flatMap_singleton]
  · rcases mem_append.mp hpiece with hpiece | hpiece
    · exact textPiece_reads hplain piece hpiece
    · obtain rfl := mem_singleton.mp hpiece
      refine ⟨htag, rfl, headerBody, [], hbody, rfl, fun _ hunit => absurd hunit not_mem_nil, ?_⟩
      rw [if_neg Bool.false_ne_true, append_nil, append_assoc, ← hdrop]
      exact htext

theorem Covers.closed {name headerBody inside : JsStr} {closeStart : Nat} {pieces : List Piece}
    (hplain : Plain tags run (unit :: rest)) (hhead : header? tags (unit :: rest) = some (name, headerBody, inside))
    (hclos : findClosingTag name inside = some closeStart)
    (hcov : Covers tags [] (skipClosingTag name (inside.drop closeStart)) pieces) :
    ∃ raw, Covers tags run (unit :: rest) (textPiece run ++
        [(.tag name (parseAttrs headerBody) (inside.take closeStart) true false, raw)] ++ pieces) ∧
      unit :: rest = raw ++ skipClosingTag name (inside.drop closeStart) := by
  obtain ⟨hname, htag, hbody, hdrop⟩ := header?_eq_some.mp hhead
  obtain ⟨htext, -⟩ := headerName_eq_some hname
  obtain ⟨gap, hgap, hspan⟩ := findClosingTag_spec hclos
  have hraw : unit :: rest = (0x3C :: name ++ headerBody ++ 0x3E :: inside.take closeStart ++
      (closing name ++ gap ++ [0x3E])) ++ skipClosingTag name (inside.drop closeStart) := by
    calc unit :: rest = 0x3C :: name ++ (headerBody ++ 0x3E :: inside) := by rw [← hdrop]; exact htext
      _ = 0x3C :: name ++ (headerBody ++ 0x3E :: (inside.take closeStart ++ inside.drop closeStart)) := by
        rw [take_append_drop]
      _ = 0x3C :: name ++ (headerBody ++ 0x3E :: (inside.take closeStart ++
          (closing name ++ gap ++ 0x3E :: skipClosingTag name (inside.drop closeStart)))) := by rw [← hspan]
      _ = _ := by simp only [append_assoc, cons_append, nil_append]
  refine ⟨_, ⟨?_, ?_, fun piece hpiece => ?_⟩, hraw⟩
  · rw [map_append, map_append, textPiece_segments, hcov.segments, scanFrom_some hhead, hclos, append_assoc]
    rfl
  · rw [flatMap_append, flatMap_append, textPiece_source, flatMap_singleton, hcov.source,
      append_assoc, nil_append, ← hraw]
  · rcases mem_append.mp hpiece with hpiece | hpiece
    · rcases mem_append.mp hpiece with hpiece | hpiece
      · exact textPiece_reads hplain piece hpiece
      · obtain rfl := mem_singleton.mp hpiece
        exact ⟨htag, rfl, headerBody, gap, hbody, rfl, hgap, rfl⟩
    · exact hcov.reads piece hpiece

theorem covers_exists (hplain : Plain tags run rest) : ∃ pieces, Covers tags run rest pieces := by
  induction run, rest using scanFrom.induct tags with
  | case1 run => exact ⟨_, covers_text hplain⟩
  | case2 run unit rest hhead ih =>
    obtain ⟨pieces, hcov⟩ := ih (hplain.next hhead)
    exact ⟨pieces, hcov.next hhead⟩
  | case3 run unit rest name headerBody inside hhead ih =>
    cases hclos : findClosingTag name inside with
    | none => exact ⟨_, covers_pending hplain hhead hclos⟩
    | some closeStart =>
      obtain ⟨pieces, hcov⟩ := ih closeStart plain_nil
      obtain ⟨raw, hclosed, -⟩ := hcov.closed hplain hhead hclos
      exact ⟨_, hclosed⟩

theorem scanFrom_plain (hend : 0x3E ∉ rest) : scanFrom tags run rest = textSegment (run ++ rest) := by
  induction rest generalizing run with
  | nil => rw [scanFrom, append_nil]
  | cons unit rest ih =>
    have hhead : header? tags (unit :: rest) = none := by
      by_contra hsome
      obtain ⟨⟨name, body, inside⟩, hfound⟩ := Option.ne_none_iff_exists'.mp hsome
      obtain ⟨-, -, -, hdrop⟩ := header?_eq_some.mp hfound
      have hmem : (0x3E : UInt16) ∈ (unit :: rest).drop (name.length + 1) := by
        rw [hdrop]
        exact mem_append_right _ mem_cons_self
      exact hend (mem_of_mem_drop hmem)
    rw [scanFrom_none hhead, ih (fun hmem => hend (mem_cons_of_mem _ hmem)), append_assoc,
      singleton_append]

end Pieces

/-! ### A source that grows -/

/-- Everything up to the last closed tag is the same in both. -/
def Stable (pieces later : List Piece) : Prop :=
  ∀ (index last : Nat) (piece : Piece), index ≤ last → pieces[last]? = some piece → isClosedTag piece.1 = true →
    later[index]? = pieces[index]?

theorem stable_of_open {pieces later : List Piece} (hopen : ∀ piece : Piece, piece ∈ pieces → isClosedTag piece.1 = false) :
    Stable pieces later := by
  intro index last piece _ hlast hclosed
  rw [hopen piece (mem_of_getElem? hlast)] at hclosed
  exact nomatch hclosed

theorem Stable.append {pieces later : List Piece} (front : List Piece) (hstab : Stable pieces later) :
    Stable (front ++ pieces) (front ++ later) := by
  intro index last piece hle hlast hclosed
  rcases lt_or_ge index front.length with hlt | hge
  · rw [getElem?_append_left hlt, getElem?_append_left hlt]
  · rw [getElem?_append_right hge, getElem?_append_right hge]
    rw [getElem?_append_right (hge.trans hle)] at hlast
    exact hstab _ _ _ (Nat.sub_le_sub_right hle _) hlast hclosed

theorem isClosedTag_textPiece {run : JsStr} : ∀ piece : Piece, piece ∈ textPiece run → isClosedTag piece.1 = false := by
  intro piece hpiece
  rw [textPiece] at hpiece
  split_ifs at hpiece
  · exact absurd hpiece not_mem_nil
  · obtain rfl := mem_singleton.mp hpiece
    rfl

section Growth

variable {tags : List JsStr} {run rest : JsStr}

theorem scanFrom_stable (more : JsStr) (hplain : Plain tags run rest) (hlater : Plain tags run (rest ++ more)) :
    ∃ pieces later, Covers tags run rest pieces ∧ Covers tags run (rest ++ more) later ∧ Stable pieces later := by
  induction run, rest using scanFrom.induct tags with
  | case1 run =>
    obtain ⟨later, hcov⟩ := covers_exists hlater
    exact ⟨_, later, covers_text hplain, hcov, stable_of_open isClosedTag_textPiece⟩
  | case2 run unit rest hhead ih =>
    by_cases hgrown : header? tags (unit :: rest ++ more) = none
    · obtain ⟨pieces, later, hpiec, hcov, hstab⟩ := ih (hplain.next hhead) (hlater.next hgrown)
      exact ⟨pieces, later, hpiec.next hhead, hcov.next hgrown, hstab⟩
    · -- the header is completed behind the cut, so there is no `>` before it
      have hend : 0x3E ∉ unit :: rest := fun hend => hgrown (header?_append_none hhead hend more)
      obtain ⟨pieces, hpiec⟩ := covers_exists hplain
      obtain ⟨later, hcov⟩ := covers_exists hlater
      refine ⟨pieces, later, hpiec, hcov, stable_of_open fun piece hpiece => ?_⟩
      have hseg := mem_map_of_mem (f := Prod.fst) hpiece
      rw [hpiec.segments, scanFrom_plain hend, textSegment] at hseg
      split_ifs at hseg
      · exact absurd hseg not_mem_nil
      · rw [mem_singleton.mp hseg]
        rfl
  | case3 run unit rest name headerBody inside hhead ih =>
    have hgrown := header?_append hhead more
    cases hclos : findClosingTag name inside with
    | none =>
      obtain ⟨later, hcov⟩ := covers_exists hlater
      refine ⟨_, later, covers_pending hplain hhead hclos, hcov, stable_of_open fun piece hpiece => ?_⟩
      rcases mem_append.mp hpiece with hpiece | hpiece
      · exact isClosedTag_textPiece piece hpiece
      · rw [mem_singleton.mp hpiece]
        rfl
    | some closeStart =>
      have hskip := skipClosingTag_append hclos more
      obtain ⟨pieces, later, hpiec, hcov, hstab⟩ := ih closeStart plain_nil plain_nil
      rw [← hskip] at hcov
      obtain ⟨raw, hearly, hsrc⟩ := hpiec.closed hplain hhead hclos
      obtain ⟨grown, hgrows, hgrownSource⟩ := hcov.closed hlater hgrown (findClosingTag_append hclos more)
      -- the tag stands for the same text in both
      have hraw : grown = raw := by
        change unit :: rest ++ more = _ at hgrownSource
        rw [hskip, hsrc, ← append_assoc] at hgrownSource
        exact (append_cancel_right (append_cancel_right hgrownSource)).symm
      rw [hraw, take_append_of_le_length (length_of_findClosingTag hclos)] at hgrows
      exact ⟨_, _, hearly, hgrows, hstab.append _⟩

/-- **A text that grows keeps its tags.** The segments of a scan cover its source without overlap, and up to the
last closed tag of an earlier text the segments of a later one are the same and stand at the same places. -/
theorem scanXmlTags_stable (tags : List JsStr) (early more : JsStr) : ∃ pieces later : List Piece,
      (pieces.map Prod.fst = scanXmlTags early tags ∧ pieces.flatMap Prod.snd = early ∧
        ∀ piece ∈ pieces, Reads tags piece.1 piece.2) ∧
      (later.map Prod.fst = scanXmlTags (early ++ more) tags ∧ later.flatMap Prod.snd = early ++ more ∧
        ∀ piece ∈ later, Reads tags piece.1 piece.2) ∧ Stable pieces later := by
  obtain ⟨pieces, later, hpiec, hlater, hstab⟩ :=
    scanFrom_stable more (@plain_nil tags early) plain_nil
  exact ⟨pieces, later, ⟨hpiec.segments, hpiec.source, hpiec.reads⟩,
    ⟨hlater.segments, hlater.source, hlater.reads⟩, hstab⟩

end Growth

end PiRp.XmlTags

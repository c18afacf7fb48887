import PiRp.JsText

/-! The string methods `split`, `join`, `startsWith` and `trim`, and when a text is part of every
completion of two fixed ends. -/

namespace PiRp

open List

namespace JsStr

/-- The loop of `split`: `skip` units of a separator are still to be passed over, `piece` is what was
read since the last separator. -/
def splitGo (separator : JsStr) : Nat → JsStr → JsStr → List JsStr
  | _, piece, [] => [piece]
  | skip + 1, piece, _ :: rest => splitGo separator skip piece rest
  | 0, piece, unit :: rest =>
    if separator.isPrefixOf (unit :: rest) then
      piece :: splitGo separator (separator.length - 1) [] rest
    else splitGo separator 0 (piece ++ [unit]) rest

/-- `text.split(separator)` for a separator that is not empty. -/
def split (separator text : JsStr) : List JsStr := splitGo separator 0 [] text

/-- `pieces.join(separator)`. -/
def join (separator : JsStr) (pieces : List JsStr) : JsStr :=
  (pieces.intersperse separator).flatten

theorem join_cons (separator piece : JsStr) {pieces : List JsStr} (hne : pieces ≠ []) :
    join separator (piece :: pieces) = piece ++ separator ++ join separator pieces := by
  cases pieces with
  | nil => exact absurd rfl hne
  | cons next rest => simp [join]

theorem join_append (separator : JsStr) {left right : List JsStr} (hleft : left ≠ []) (hright : right ≠ []) :
    join separator (left ++ right) = join separator left ++ separator ++ join separator right := by
  induction left with
  | nil => exact absurd rfl hleft
  | cons piece rest ih =>
    by_cases hrest : rest = []
    · rw [hrest, singleton_append, join_cons separator piece hright]
      simp [join]
    · rw [cons_append, join_cons separator piece (append_ne_nil_of_left_ne_nil hrest _),
        ih hrest, join_cons separator piece hrest]
      simp only [append_assoc]

theorem splitGo_ne_nil (separator : JsStr) (skip : Nat) (piece text : JsStr) :
    splitGo separator skip piece text ≠ [] := by
  induction text generalizing skip piece with
  | nil => simp [splitGo]
  | cons unit rest ih =>
    cases skip with
    | zero =>
      rw [splitGo]
      split_ifs
      · exact cons_ne_nil _ _
      · exact ih 0 _
    | succ skip => exact ih skip piece

theorem join_splitGo {separator : JsStr} (hne : separator ≠ []) (skip : Nat) (piece text : JsStr) :
    join separator (splitGo separator skip piece text) = piece ++ text.drop skip := by
  induction text generalizing skip piece with
  | nil => simp [splitGo, join]
  | cons unit rest ih =>
    cases skip with
    | zero =>
      rw [splitGo]
      split_ifs with hstar
      · -- The separator and what follows it give back the text.
        rw [join_cons separator piece (splitGo_ne_nil _ _ _ _), ih, nil_append, append_assoc, drop_zero]
        obtain ⟨tail, htail⟩ := isPrefixOf_iff_prefix.mp hstar
        obtain ⟨first, others, rfl⟩ := exists_cons_of_ne_nil hne
        obtain ⟨rfl, rfl⟩ := List.cons.inj htail
        simp
      · rw [ih]
        simp
    | succ skip =>
      rw [splitGo, ih]
      rfl

theorem join_split {separator : JsStr} (hne : separator ≠ []) (text : JsStr) :
    join separator (split separator text) = text := by
  rw [split, join_splitGo hne]
  rfl

theorem length_le_join (separator : JsStr) {piece : JsStr} {pieces : List JsStr}
    (hpiece : piece ∈ pieces) : piece.length ≤ (join separator pieces).length := by
  induction pieces with
  | nil => exact absurd hpiece not_mem_nil
  | cons first rest ih =>
    by_cases hrest : rest = []
    · rw [hrest, mem_singleton] at hpiece
      rw [hpiece, hrest]
      simp [join]
    · rw [join_cons separator first hrest, length_append, length_append]
      rcases mem_cons.mp hpiece with rfl | hpiece
      · omega
      · have := ih hpiece
        omega

/-- `text.startsWith(start)`. -/
def startsWith (text start : JsStr) : Bool := start.isPrefixOf text

/-- White space and line terminators of the language. -/
def isWhitespace (unit : UInt16) : Bool :=
  unit = 0x09 || unit = 0x0A || unit = 0x0B || unit = 0x0C || unit = 0x0D || unit = 0x20 ||
    unit = 0xA0 || unit = 0x1680 || (0x2000 ≤ unit.toNat && unit.toNat ≤ 0x200A) || unit = 0x2028 ||
    unit = 0x2029 || unit = 0x202F || unit = 0x205F || unit = 0x3000 || unit = 0xFEFF

def trim (text : JsStr) : JsStr :=
  ((text.dropWhile isWhitespace).reverse.dropWhile isWhitespace).reverse

end JsStr

section Infix

variable {α : Type*}

/-- A list of one repeated item that is not the first or last item of a piece keeps the piece on one
side of it. -/
theorem infix_of_infix_replicate {piece front back : List α} {filler : α} (hne : piece ≠ [])
    (hfirst : piece.head? ≠ some filler) (hlast : piece.getLast? ≠ some filler)
    (hcon : piece <:+: front ++ (List.replicate piece.length filler ++ back)) :
    piece <:+: front ∨ piece <:+: back := by
  obtain ⟨before, after, heq⟩ := hcon
  rw [append_assoc, append_eq_append_iff] at heq
  rcases heq with ⟨gap, hfront, hrest⟩ | ⟨gap, hbef, hrest⟩
  · rcases append_eq_append_iff.mp hrest with ⟨more, hgap, _⟩ | ⟨more, hpiece, hmore⟩
    · refine .inl ⟨before, more, ?_⟩
      rw [hfront, hgap, append_assoc]
    · -- The piece ends with items of the filler.
      cases hcase : more.reverse with
      | nil =>
        obtain rfl := reverse_eq_nil_iff.mp hcase
        rw [append_nil] at hpiece
        refine .inl ⟨before, [], ?_⟩
        rw [hfront, hpiece, append_nil]
      | cons item others =>
        exfalso
        have hlen : more.length ≤ piece.length := by
          rw [hpiece, length_append]
          omega
        have hfront : more <+: List.replicate piece.length filler := by
          refine prefix_of_prefix_length_le ⟨after, hmore.symm⟩ (prefix_append _ back) ?_
          rw [length_replicate]
          exact hlen
        have hitem : item ∈ more := by
          rw [← mem_reverse, hcase]
          exact mem_cons_self
        have hfil := eq_of_mem_replicate (hfront.subset hitem)
        apply hlast
        rw [hpiece, ← head?_reverse, reverse_append, hcase, cons_append, head?_cons, hfil]
  · rcases append_eq_append_iff.mp hrest with ⟨more, hgap, hback⟩ | ⟨more, hfill, hpiece⟩
    · refine .inr ⟨more, after, ?_⟩
      rw [hback, append_assoc]
    · -- The piece starts with items of the filler.
      cases more with
      | nil =>
        refine .inr ⟨[], after, ?_⟩
        rw [nil_append]
        exact hpiece
      | cons item others =>
        exfalso
        have hitem : item ∈ List.replicate piece.length filler := by
          rw [hfill]
          exact mem_append_right _ mem_cons_self
        have hfil := eq_of_mem_replicate hitem
        apply hfirst
        cases piece with
        | nil => exact absurd rfl hne
        | cons first rest =>
          rw [cons_append, cons_append, List.cons.injEq] at hpiece
          rw [head?_cons, hpiece.1, hfil]

theorem forall_infix_iff {piece front back : List UInt16} (hne : piece ≠ []) :
    (∀ text, piece <:+: front ++ (text ++ back)) ↔ piece <:+: front ∨ piece <:+: back := by
  constructor
  · intro hall
    have hfil : ∃ filler : UInt16, piece.head? ≠ some filler ∧ piece.getLast? ≠ some filler := by
      have hthree : ∀ first last : Option UInt16,
          (first ≠ some 0 ∧ last ≠ some 0) ∨ (first ≠ some 1 ∧ last ≠ some 1) ∨
            (first ≠ some 2 ∧ last ≠ some 2) := by
        intro first last
        by_cases hzero : first = some 0 ∨ last = some 0
        · by_cases hone : first = some 1 ∨ last = some 1
          · right; right
            rcases hzero with rfl | rfl
            · rcases hone with hone | rfl
              · exact absurd hone (by decide)
              · exact ⟨by decide, by decide⟩
            · rcases hone with rfl | hone
              · exact ⟨by decide, by decide⟩
              · exact absurd hone (by decide)
          · right; left
            exact not_or.mp hone
        · left
          exact not_or.mp hzero
      rcases hthree piece.head? piece.getLast? with h | h | h
      · exact ⟨0, h⟩
      · exact ⟨1, h⟩
      · exact ⟨2, h⟩
    obtain ⟨filler, hfirst, hlast⟩ := hfil
    exact infix_of_infix_replicate hne hfirst hlast (hall _)
  · rintro (⟨before, after, rfl⟩ | ⟨before, after, rfl⟩) text
    · exact ⟨before, after ++ (text ++ back), by simp only [append_assoc]⟩
    · exact ⟨front ++ (text ++ before), after, by simp only [append_assoc]⟩

end Infix

end PiRp

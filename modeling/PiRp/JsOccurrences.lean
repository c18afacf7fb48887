import PiRp.JsSplit

/-! Where a text occurs in another one: `indexOf`, what `split` counts, and occurrences that overlap. -/

namespace PiRp

open List

namespace JsStr

/-- `text.indexOf(word)`. -/
def indexOf (word text : JsStr) : Option Nat :=
  if word.isPrefixOf text then some 0
  else match text with
    | [] => none
    | _ :: rest => (indexOf word rest).map (· + 1)

/-- The word stands at a position of the text. -/
def OccursAt (word text : JsStr) (position : Nat) : Prop := word <+: text.drop position

/-- Two occurrences apart from each other. -/
def Repeated (word text : JsStr) : Prop := ∃ gap, word ++ gap ++ word <:+: text

/-- A word that ends as it starts, so that it can be shifted into itself, in a text that goes on with the
shifted word. -/
def Overlapping (word text : JsStr) : Prop :=
  ∃ shift, 0 < shift ∧ shift < word.length ∧ word <+: word.take shift ++ word ∧
    word.take shift ++ word <:+: text

variable {word text : JsStr} {position : Nat}

theorem indexOf_eq_some (hfound : indexOf word text = some position) : OccursAt word text position := by
  induction text generalizing position with
  | nil =>
    rw [indexOf] at hfound
    split_ifs at hfound with hstar
    cases hfound
    exact isPrefixOf_iff_prefix.mp hstar
  | cons unit rest ih =>
    rw [indexOf] at hfound
    split_ifs at hfound with hstar
    · cases hfound
      exact isPrefixOf_iff_prefix.mp hstar
    · obtain ⟨earlier, hear, rfl⟩ := Option.map_eq_some_iff.mp hfound
      exact ih hear

theorem indexOf_append (hfound : indexOf word text = some position)
    (more : JsStr) : indexOf word (text ++ more) = some position := by
  induction text generalizing position with
  | nil =>
    rw [indexOf] at hfound
    split_ifs at hfound with hstar
    obtain rfl := eq_nil_of_prefix_nil ( isPrefixOf_iff_prefix.mp hstar)
    cases hfound
    rw [indexOf.eq_def, if_pos ( isPrefixOf_iff_prefix.mpr nil_prefix)]
  | cons unit rest ih =>
    rw [indexOf] at hfound
    split_ifs at hfound with hstar
    · cases hfound
      have hlon := ( isPrefixOf_iff_prefix.mp hstar).trans (prefix_append _ more)
      rw [indexOf.eq_def, if_pos ( isPrefixOf_iff_prefix.mpr hlon)]
    · obtain ⟨earlier, hear, rfl⟩ := Option.map_eq_some_iff.mp hfound
      have hlon : ¬ word.isPrefixOf (unit :: (rest ++ more)) = true := by
        intro hpref
        have hlen := List.IsPrefix.length_le (indexOf_eq_some hear)
        rw [length_drop] at hlen
        refine hstar ( isPrefixOf_iff_prefix.mpr ?_)
        exact prefix_of_prefix_length_le ( isPrefixOf_iff_prefix.mp hpref)
          (prefix_append (unit :: rest) more) (by rw [length_cons]; omega)
      rw [cons_append, indexOf, if_neg hlon, ih hear]
      rfl

theorem OccursAt.length_le (hocc : OccursAt word text position)
    (hne : word ≠ []) : position + word.length ≤ text.length := by
  have hlen := List.IsPrefix.length_le hocc
  have hpos := length_pos_iff.mpr hne
  rw [length_drop] at hlen
  omega

theorem OccursAt.isInfix (hocc : OccursAt word text position) :
    word <:+: text := (List.IsPrefix.isInfix hocc).trans (drop_suffix _ _).isInfix

/-! ### Splitting -/

theorem splitGo_skip (separator : JsStr) (skip : Nat) (piece text : JsStr) :
    splitGo separator skip piece text = splitGo separator 0 piece (text.drop skip) := by
  induction text generalizing skip with
  | nil => simp [splitGo]
  | cons unit rest ih =>
    cases skip with
    | zero => rfl
    | succ skip =>
      rw [splitGo, ih]
      rfl

theorem infix_cons_of_not_starts {unit : UInt16} (hstar : ¬ word <+: unit :: text) :
    word <:+: unit :: text ↔ word <:+: text := by
  rw [infix_cons_iff]
  exact or_iff_right hstar

variable {separator : JsStr}

theorem splitGo_starts {piece tail : JsStr} (hne : separator ≠ []) :
    splitGo separator 0 piece (separator ++ tail) = piece :: splitGo separator 0 [] tail := by
  obtain ⟨first, others, rfl⟩ := exists_cons_of_ne_nil hne
  have hstar : (first :: others).isPrefixOf (first :: (others ++ tail)) = true :=
    isPrefixOf_iff_prefix.mpr ⟨tail, rfl⟩
  rw [cons_append, splitGo, if_pos hstar, splitGo_skip]
  simp

theorem one_lt_length_splitGo (hne : separator ≠ []) (piece text : JsStr) :
    1 < (splitGo separator 0 piece text).length ↔ separator <:+: text := by
  induction text generalizing piece with
  | nil => simp [splitGo, hne]
  | cons unit rest ih =>
    by_cases hstar : separator <+: unit :: rest
    · obtain ⟨tail, htail⟩ := hstar
      rw [← htail, splitGo_starts hne, length_cons]
      have hrest := length_pos_iff.mpr (splitGo_ne_nil separator 0 [] tail)
      exact iff_of_true (by omega) (prefix_append _ _).isInfix
    · rw [splitGo, if_neg fun hposit => hstar ( isPrefixOf_iff_prefix.mp hposit), ih,
        infix_cons_of_not_starts hstar]

theorem two_lt_length_splitGo (hne : separator ≠ []) (piece text : JsStr) :
    2 < (splitGo separator 0 piece text).length ↔ Repeated separator text := by
  induction text generalizing piece with
  | nil => simp [splitGo, Repeated, hne]
  | cons unit rest ih =>
    by_cases hstar : separator <+: unit :: rest
    · obtain ⟨tail, htail⟩ := hstar
      rw [← htail, splitGo_starts hne, length_cons, Nat.succ_lt_succ_iff, one_lt_length_splitGo hne]
      constructor
      · rintro ⟨gap, after, rfl⟩
        exact ⟨gap, [], after, by simp⟩
      · -- The second of two occurrences lies behind the first separator.
        rintro ⟨gap, before, after, heq⟩
        have hbeh : separator ++ (separator ++ tail).drop separator.length =
            (before ++ separator ++ gap) ++ (separator ++ after) := by
          rw [drop_left, ← heq]
          simp
        rw [drop_left, append_eq_append_iff] at hbeh
        rcases hbeh with ⟨more, -, htail⟩ | ⟨more, hfront, hback⟩
        · exact ⟨more, after, by rw [htail, append_assoc]⟩
        · have hlen := congrArg List.length hfront
          simp only [length_append] at hlen
          obtain rfl : more = [] := length_eq_zero_iff.mp (by omega)
          exact ⟨[], after, by simpa using hback⟩
    · have hrep : Repeated separator (unit :: rest) ↔ Repeated separator rest := by
        refine exists_congr fun gap => infix_cons_of_not_starts fun hboth => hstar ?_
        rw [append_assoc] at hboth
        exact (prefix_append _ _).trans hboth
      rw [splitGo, if_neg fun hposit => hstar ( isPrefixOf_iff_prefix.mp hposit), ih, hrep]

/-! ### Unique occurrences -/

theorem overlapping_or_repeated {first second : Nat} (hfirst : OccursAt word text first)
    (hsnd : OccursAt word text second) (hlt : first < second) : Overlapping word text ∨ Repeated word text := by
  obtain ⟨shift, rfl⟩ := Nat.exists_eq_add_of_lt hlt
  rw [OccursAt, Nat.add_assoc, ← drop_drop] at hsnd
  obtain ⟨tail, htail⟩ := hfirst
  have hsuf : word ++ tail <:+ text := htail ▸ drop_suffix _ _
  rw [← htail] at hsnd
  by_cases hshift : shift + 1 < word.length
  · left
    have hshif : word.take (shift + 1) ++ word <+: word ++ tail := by
      have htake : word.take (shift + 1) = (word ++ tail).take (shift + 1) :=
        (take_append_of_le_length hshift.le).symm
      rw [htake]
      conv_rhs => rw [← take_append_drop (shift + 1) (word ++ tail)]
      exact (prefix_append_right_inj _).mpr hsnd
    refine ⟨shift + 1, Nat.succ_pos _, hshift, ?_, hshif.isInfix.trans hsuf.isInfix⟩
    refine prefix_of_prefix_length_le (prefix_append _ _) hshif ?_
    rw [length_append]
    omega
  · right
    rw [drop_append, drop_eq_nil_of_le (Nat.not_lt.mp hshift), nil_append] at hsnd
    obtain ⟨rest, hrest⟩ := hsnd
    refine ⟨tail.take (shift + 1 - word.length), List.IsInfix.trans ⟨[], rest, ?_⟩ hsuf.isInfix⟩
    rw [nil_append, append_assoc, append_assoc, hrest, take_append_drop]

theorem occursAt_append {front after : JsStr} (hstar : word <+: after) :
    OccursAt word (front ++ after) front.length := by
  rw [OccursAt, drop_left]
  exact hstar

theorem Overlapping.twice (hover : Overlapping word text) :
    ∃ first second, first < second ∧ OccursAt word text first ∧ OccursAt word text second := by
  obtain ⟨shift, hpos, hshift, hself, front, after, rfl⟩ := hover
  refine ⟨front.length, (front ++ word.take shift).length, ?_, ?_, ?_⟩
  · rw [length_append, length_take]
    omega
  · rw [append_assoc]
    exact occursAt_append (hself.trans (prefix_append _ _))
  · rw [← append_assoc, append_assoc]
    exact occursAt_append (prefix_append _ _)

theorem Repeated.twice (hne : word ≠ []) (hrep : Repeated word text) :
    ∃ first second, first < second ∧ OccursAt word text first ∧ OccursAt word text second := by
  obtain ⟨gap, front, after, rfl⟩ := hrep
  have hpos := length_pos_iff.mpr hne
  refine ⟨front.length, (front ++ (word ++ gap)).length, ?_, ?_, ?_⟩
  · rw [length_append, length_append]
    omega
  · simp only [append_assoc]
    exact occursAt_append (prefix_append _ _)
  · rw [← append_assoc, append_assoc]
    exact occursAt_append (prefix_append _ _)

theorem existsUnique_occursAt (hne : word ≠ []) (hocc : OccursAt word text position) :
    (∃! position, OccursAt word text position) ↔ ¬ Overlapping word text ∧ ¬ Repeated word text := by
  constructor
  · rintro ⟨only, -, honly⟩
    have honce : ¬ ∃ first second, first < second ∧ OccursAt word text first ∧ OccursAt word text second := by
      rintro ⟨first, second, hlt, hfirst, hsnd⟩
      rw [honly first hfirst, honly second hsnd] at hlt
      exact lt_irrefl _ hlt
    exact ⟨fun hover => honce hover.twice, fun hrep => honce (hrep.twice hne)⟩
  · rintro ⟨hover, hrep⟩
    refine ⟨position, hocc, fun other hother => ?_⟩
    rcases lt_trichotomy other position with hlt | heq | hgt
    · rcases overlapping_or_repeated hother hocc hlt with h | h
      · exact absurd h hover
      · exact absurd h hrep
    · exact heq
    · rcases overlapping_or_repeated hocc hother hgt with h | h
      · exact absurd h hover
      · exact absurd h hrep

end JsStr

end PiRp

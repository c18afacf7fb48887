import PiRp.RegexExpansion

/-! When the two paths of a regex rule agree. A reference that both read alike has one text. A template with a
reference that they read differently is told apart by a text in which every group captured the same mark: the
two results differ in weight, for weights chosen so that no two differences make up for each other. -/

namespace PiRp

open List

namespace RegexEngine

open JsStr

section Agreement

variable {groups : Groups} {found : Match} {text : JsStr}

theorem has_iff {name : JsStr} : groups.has name = true ↔ some name ∈ groups.names := by
  simp [Groups.has]

theorem named_eq_none {name : JsStr} (hname : groups.has name ≠ true) : found.named groups name = none := by
  rw [Match.named, Option.join_eq_none_iff]
  refine Or.inl (lookup_eq_none_iff.mpr fun pair hpair => ?_)
  have hmem : pair.1 ∈ groups.names := (of_mem_zip (a := pair.1) (b := pair.2) hpair).1
  have hne : some name ≠ pair.1 := fun heq => hname (has_iff.mpr (heq ▸ hmem))
  simpa using hne

theorem has_convert {name : JsStr} (hchg : convertDollarZeroToFullMatch name ≠ name) :
    groups.has (convertDollarZeroToFullMatch name) ≠ true := fun hhas =>
  (groups.valid _ (has_iff.mp hhas)).2.1 ((ampersand_mem_convert name).resolve_left hchg)

theorem Piece.substitute_eq {piece : Piece} (hres : piece.Resolves groups) :
    piece.substitute groups found text = piece.expand groups found text := by
  cases piece with
  | literal unit => rfl
  | escaped => rfl
  | matched => rfl
  | before => rfl
  | after => rfl
  | padded second =>
    have hnot : ¬(1 ≤ digitValue second ∧ digitValue second ≤ groups.count) := by
      rintro ⟨hpos, hle⟩
      rcases hres with hzero | hlt <;> omega
    rw [substitute, if_neg hnot, expand]
  | digit first =>
    rw [Resolves] at hres
    rw [substitute, if_pos hres, expand]
  | digits first second =>
    rw [Resolves] at hres
    rw [substitute, if_pos hres, expand]
  | named name =>
    rw [Resolves] at hres
    rw [substitute, expand]
    by_cases hnamed : groups.isNamed = true
    · rw [if_pos hnamed] at hres ⊢
      obtain ⟨hne, hsame⟩ := hres
      rw [if_neg hne, if_pos hnamed]
      by_cases hhas : groups.has name = true
      · rw [hsame hhas]
      · by_cases hchg : convertDollarZeroToFullMatch name = name
        · rw [hchg]
        · rw [named_eq_none hhas, named_eq_none (has_convert hchg)]
    · rw [if_neg hnamed] at hres ⊢
      rw [if_pos hres, hres]
      rfl

theorem trimMatchedValue_nil (trimStrings : List JsStr) : trimMatchedValue [] trimStrings = [] :=
  trimMatchedValue_eq fun _ _ hne hocc => hne (infix_nil.mp hocc)

theorem expand_eq_substitute {trimStrings : List JsStr} {template : JsStr} (hres : Unambiguous groups template)
    (habs : ∀ value ∈ found.values, ∀ trimString ∈ trimStrings, trimString ≠ [] → ¬trimString <:+: value) :
    expandReplacementTemplate groups found text trimStrings template =
      getSubstitution groups found text (convertDollarZeroToFullMatch template) := by
  rw [expandReplacementTemplate_eq (fun value hvalue => trimMatchedValue_eq (habs value hvalue))
    (trimMatchedValue_nil trimStrings), getSubstitution_eq]
  exact flatMap_congr fun piece hpiece => (Piece.substitute_eq (hres piece hpiece)).symm

theorem replaceMatches_congr {left right : Match → JsStr} {founds : List Match}
    (heq : ∀ found ∈ founds, left found = right found) (text : JsStr) (next : Nat) :
    replaceMatches left text next founds = replaceMatches right text next founds := by
  induction founds generalizing next with
  | nil => rfl
  | cons found rest ih =>
    have hrest := ih fun other hother => heq other (mem_cons_of_mem _ hother)
    rw [replaceMatches, replaceMatches, heq found mem_cons_self]
    simp only [hrest]

end Agreement

section Tightness

/-- The sum of the weights of a text's units. -/
def weigh (weight : UInt16 → Int) (text : JsStr) : Int := (text.map weight).sum

theorem weigh_append (weight : UInt16 → Int) (left right : JsStr) :
    weigh weight (left ++ right) = weigh weight left + weigh weight right := by
  simp [weigh]

theorem weigh_lt {groups : Groups} {weight : UInt16 → Int} {left right : Piece → JsStr}
    (hsame : ∀ piece : Piece, piece.Resolves groups → right piece = left piece) {list : List Piece}
    (hmore : ∀ piece ∈ list, ¬piece.Resolves groups → weigh weight (left piece) < weigh weight (right piece))
    (hexis : ∃ piece ∈ list, ¬piece.Resolves groups) :
    weigh weight (list.flatMap left) < weigh weight (list.flatMap right) := by
  have hle : ∀ rest : List Piece, (∀ piece ∈ rest, piece ∈ list) →
      weigh weight (rest.flatMap left) ≤ weigh weight (rest.flatMap right) := by
    intro rest hrest
    induction rest with
    | nil => exact le_refl _
    | cons piece rest ih =>
      rw [flatMap_cons, flatMap_cons, weigh_append, weigh_append]
      refine add_le_add ?_ (ih fun other hother => hrest other (mem_cons_of_mem _ hother))
      by_cases hres : piece.Resolves groups
      · rw [hsame piece hres]
      · exact (hmore piece (hrest piece mem_cons_self) hres).le
  obtain ⟨piece, hpiece, hnot⟩ := hexis
  obtain ⟨before, after, rfl⟩ := append_of_mem hpiece
  have hbef := hle before fun other hother => mem_append_left _ hother
  have hafter := hle after fun other hother => mem_append_right _ (mem_cons_of_mem _ hother)
  have hpiece := hmore piece hpiece hnot
  simp only [flatMap_append, flatMap_cons, weigh_append]
  omega

/-- What a scan can leave in a reference: its digits are digits, and the first is not zero. -/
def Piece.WellFormed : Piece → Prop
  | padded second => isDigitCode second = true
  | digit first => isDigitCode first = true ∧ first ≠ zero
  | digits first second => isDigitCode first = true ∧ first ≠ zero ∧ isDigitCode second = true
  | _ => True

theorem pieces_wellFormed (template : JsStr) : ∀ piece ∈ pieces template, piece.WellFormed := by
  induction template using template_induction with
  | nil => exact fun piece hpiece => nomatch hpiece
  | unit unit rest hunit ih =>
    rw [pieces_cons rest hunit, forall_mem_cons]
    exact ⟨trivial, ih⟩
  | bare rest hbare ih =>
    rw [pieces_dollar, readPiece_bare hbare, forall_mem_cons]
    exact ⟨trivial, ih⟩
  | symbol symbol rest hsym ih =>
    rw [pieces_dollar, forall_mem_cons]
    simp only [symbols, mem_cons, not_mem_nil, or_false] at hsym
    obtain rfl | rfl | rfl | rfl := hsym
    all_goals exact ⟨trivial, ih⟩
  | whole rest hstar ih =>
    rw [pieces_dollar, readPiece_whole hstar, forall_mem_cons]
    exact ⟨trivial, ih⟩
  | padded second rest hsnd ih =>
    rw [pieces_dollar, readPiece_padded rest hsnd, forall_mem_cons]
    exact ⟨hsnd, ih⟩
  | digit first rest hfirst hzero hstar ih =>
    rw [pieces_dollar, readPiece_digit hfirst hzero hstar, forall_mem_cons]
    exact ⟨⟨hfirst, hzero⟩, ih⟩
  | digits first second rest hfirst hzero hsnd ih =>
    rw [pieces_dollar, readPiece_digits rest hfirst hzero hsnd, forall_mem_cons]
    exact ⟨⟨hfirst, hzero, hsnd⟩, ih⟩
  | named name rest hname ih =>
    rw [pieces_dollar, readPiece_named hname, forall_mem_cons, drop_named]
    exact ⟨trivial, ih⟩

/-- The match of a whole text in which every group captures it. -/
def fullMatch (groups : Groups) (text : JsStr) : Match := ⟨0, text, List.replicate groups.count (some text)⟩

/-- A pattern with these groups that matches one text only, each group all of it. -/
def fullRegexp (groups : Groups) (mark : JsStr) : Regexp where
  groups := groups
  matchAll text := if text = mark then [fullMatch groups mark] else []
  captured text found hfound := by
    split_ifs at hfound
    · rw [mem_singleton.mp hfound, fullMatch, length_replicate]
    · exact absurd hfound not_mem_nil
  located text found hfound := by
    split_ifs at hfound with htext
    · rw [mem_singleton.mp hfound, htext]
      exact prefix_refl mark
    · exact absurd hfound not_mem_nil
  within text found hfound value hvalue := by
    split_ifs at hfound with htext
    · rw [mem_singleton.mp hfound] at hvalue
      have hmark : value = mark ∨ ¬groups.count = 0 ∧ value = mark := by
        simpa [Match.values, fullMatch, List.reduceOption] using hvalue
      rw [hmark.elim id And.right, htext]
    · exact absurd hfound not_mem_nil

variable {groups : Groups} {mark : JsStr}

theorem capture_fullMatch (index : Nat) :
    (fullMatch groups mark).capture index = if index - 1 < groups.count then mark else [] := by
  rw [Match.capture, fullMatch, getElem?_replicate]
  split_ifs <;> rfl

theorem named_fullMatch {name : JsStr} (hname : groups.has name = true) :
    (fullMatch groups mark).named groups name = some mark := by
  have hfst : (groups.names.zip (fullMatch groups mark).captures).map Prod.fst = groups.names :=
    map_fst_zip (by rw [fullMatch, length_replicate, Groups.count])
  have hmem := has_iff.mp hname
  rw [← hfst, mem_map] at hmem
  obtain ⟨pair, hpair, hkey⟩ := hmem
  have hsome : ((groups.names.zip (fullMatch groups mark).captures).lookup (some name)).isSome = true :=
    lookup_isSome_iff.mpr ⟨pair, hpair, by simp [hkey]⟩
  obtain ⟨value, hvalue⟩ := Option.isSome_iff_exists.mp hsome
  obtain ⟨before, after, heq, -⟩ := lookup_eq_some_iff.mp hvalue
  have hcap : (some name, value) ∈ groups.names.zip (fullMatch groups mark).captures := by
    rw [heq]
    exact mem_append_right _ mem_cons_self
  have hmark : value = some mark := eq_of_mem_replicate (of_mem_zip hcap).2
  rw [Match.named, hvalue, hmark]
  rfl

/-- The weight that tells the paths apart when groups have names: a group's text weighs little and negative, so
that a reference left as it stands weighs less than what it should stand for. -/
def namedWeight (count : Nat) (unit : UInt16) : Int :=
  if unit = dollar then -6
  else if isDigitCode unit then if digitValue unit ≤ count then 2 else 7
  else if unit = 0x7A then -1
  else 0

theorem namedWeight_digit {count : Nat} {unit : UInt16} (hdigit : isDigitCode unit = true) :
    namedWeight count unit = if digitValue unit ≤ count then 2 else 7 := by
  rw [namedWeight, if_neg (ne_of_digit hdigit).1, if_pos hdigit]

theorem weigh_named (hnamed : groups.isNamed = true) (text : JsStr) {piece : Piece}
    (hpiece : piece.WellFormed) (hnot : ¬piece.Resolves groups) :
    weigh (namedWeight groups.count) (piece.expand groups (fullMatch groups [0x7A]) text) <
      weigh (namedWeight groups.count) (piece.substitute groups (fullMatch groups [0x7A]) text) := by
  have hdol : namedWeight groups.count dollar = -6 := rfl
  have hmark : namedWeight groups.count 0x7A = -1 := rfl
  have hzero : namedWeight groups.count zero = 2 := by
    rw [namedWeight_digit (by decide), show digitValue zero = 0 from rfl, if_pos (Nat.zero_le _)]
  cases piece with
  | literal | escaped | matched | before | after => exact absurd trivial hnot
  | padded second =>
    rw [Piece.Resolves, not_or, not_lt] at hnot
    rw [Piece.substitute, if_pos ⟨Nat.one_le_iff_ne_zero.mpr hnot.1, hnot.2⟩, capture_fullMatch,
      if_pos (by omega), Piece.expand]
    simp [weigh, hdol, hmark, hzero, namedWeight_digit hpiece, hnot.2]
  | digit first =>
    rw [Piece.Resolves, not_le] at hnot
    rw [Piece.substitute, if_neg (not_le.mpr hnot), Piece.expand, capture_fullMatch, if_neg (by omega)]
    simp [weigh, hdol, namedWeight_digit hpiece.1, not_le.mpr hnot]
  | digits first second =>
    rw [Piece.Resolves, not_le] at hnot
    have hpos := one_le_digitValue hpiece.1 hpiece.2.1
    rw [Piece.substitute, if_neg (not_le.mpr hnot), Piece.expand, capture_fullMatch, if_neg (by omega)]
    have hsnd : 2 ≤ namedWeight groups.count second := by
      rw [namedWeight_digit hpiece.2.2]
      split_ifs <;> decide
    split_ifs with hfirst
    · rw [capture_fullMatch, if_pos (by omega)]
      simp [weigh, hmark]
      omega
    · simp [weigh, hdol, namedWeight_digit hpiece.1, hfirst]
      omega
  | named name =>
    rw [Piece.Resolves, if_pos hnamed, not_and_or, not_not, Classical.not_imp] at hnot
    rw [Piece.substitute, if_pos hnamed, Piece.expand]
    rcases hnot with hempty | ⟨hhas, hchg⟩
    · have hnone : groups.has [] ≠ true := fun hhas => (groups.valid _ (has_iff.mp hhas)).1 rfl
      rw [if_pos hempty, hempty, convertDollarZeroToFullMatch, named_eq_none hnone]
      simp [weigh, hdol, show namedWeight groups.count opening = 0 from rfl,
        show namedWeight groups.count closing = 0 from rfl]
    · rw [if_neg (groups.valid _ (has_iff.mp hhas)).1, if_pos hnamed, named_eq_none (has_convert hchg),
        named_fullMatch hhas]
      simp [weigh, hmark]

/-- Without names every reference that does not resolve is longer on the native path, when what the groups
captured is long enough. -/
theorem weigh_unnamed (hunn : groups.isNamed = false) (text : JsStr) {piece : Piece}
    (hpiece : piece.WellFormed) (hnot : ¬piece.Resolves groups) :
    weigh (fun _ => 1) (piece.expand groups (fullMatch groups (List.replicate 4 0x7A)) text) <
      weigh (fun _ => 1) (piece.substitute groups (fullMatch groups (List.replicate 4 0x7A)) text) := by
  have hlen : ∀ text : JsStr, weigh (fun _ => 1) text = text.length := fun text => by simp [weigh]
  rw [hlen, hlen]
  cases piece with
  | literal | escaped | matched | before | after => exact absurd trivial hnot
  | padded second =>
    rw [Piece.Resolves, not_or, not_lt] at hnot
    rw [Piece.substitute, if_pos ⟨Nat.one_le_iff_ne_zero.mpr hnot.1, hnot.2⟩, capture_fullMatch,
      if_pos (by omega), Piece.expand]
    simp
  | digit first =>
    rw [Piece.Resolves, not_le] at hnot
    rw [Piece.substitute, if_neg (not_le.mpr hnot), Piece.expand, capture_fullMatch, if_neg (by omega)]
    simp
  | digits first second =>
    rw [Piece.Resolves, not_le] at hnot
    have hpos := one_le_digitValue hpiece.1 hpiece.2.1
    rw [Piece.substitute, if_neg (not_le.mpr hnot), Piece.expand, capture_fullMatch, if_neg (by omega)]
    split_ifs <;> simp
  | named name =>
    have hnot' : ¬name = [] := by simpa [Piece.Resolves, hunn] using hnot
    rw [Piece.substitute, Piece.expand, if_neg hnot', hunn]
    simp
    omega

theorem exists_expand_lt {template : JsStr} (hnot : ¬Unambiguous groups template) :
    ∃ (mark : JsStr) (weight : UInt16 → Int), (∀ unit ∈ mark, unit = 0x7A) ∧
      weigh weight ((pieces template).flatMap (Piece.expand groups (fullMatch groups mark) mark)) <
        weigh weight ((pieces template).flatMap (Piece.substitute groups (fullMatch groups mark) mark)) := by
  rw [Unambiguous, not_forall] at hnot
  simp only [Classical.not_imp] at hnot
  obtain ⟨piece, hpiece, hres⟩ := hnot
  have hfor := pieces_wellFormed template
  cases hnamed : groups.isNamed with
  | true =>
    refine ⟨[0x7A], namedWeight groups.count, by simp, weigh_lt (fun _ => Piece.substitute_eq) ?_
      ⟨piece, hpiece, hres⟩⟩
    exact fun other hother => weigh_named hnamed _ (hfor other hother)
  | false =>
    refine ⟨List.replicate 4 0x7A, fun _ => 1, by simp, weigh_lt (fun _ => Piece.substitute_eq) ?_
      ⟨piece, hpiece, hres⟩⟩
    exact fun other hother => weigh_unnamed hnamed _ (hfor other hother)

end Tightness

/-- The two paths replace alike exactly when every reference of the template means the same on both. -/
theorem replacements_agree (groups : Groups) (template : JsStr) :
    (∀ (rule : CompiledRegexRule) (text : JsStr), rule.regexp.groups = groups → rule.replace = template →
      Untrimmed rule text → replaceWithTrimStrings text rule = replaceNatively text rule) ↔
      Unambiguous groups template := by
  constructor
  · intro hagree
    by_contra hnot
    obtain ⟨mark, weight, hunits, hlt⟩ := exists_expand_lt hnot
    have hmat : (fullRegexp groups mark).matchAll mark = [fullMatch groups mark] := if_pos rfl
    have hval : ∀ value ∈ (fullMatch groups mark).values, ∀ trimString ∈ [[zero]], trimString ≠ [] →
        ¬trimString <:+: value := by
      intro value hvalue trimString htrim _ hocc
      rw [mem_singleton.mp htrim] at hocc
      have hwit := (fullRegexp groups mark).within mark _ (by rw [hmat]; exact mem_singleton.mpr rfl)
        value hvalue
      have hzero := (hocc.trans hwit).subset mem_cons_self
      exact absurd (hunits _ hzero) (by decide)
    have heq := hagree ⟨fullRegexp groups mark, template, [[zero]]⟩ mark rfl rfl (by
      intro found hfound value hvalue
      rw [hmat, mem_singleton] at hfound
      rw [hfound] at hvalue
      exact hval value hvalue)
    rw [replaceWithTrimStrings, replaceNatively, hmat] at heq
    simp only [replaceMatches] at heq
    rw [expandReplacementTemplate_eq (fun value hvalue => trimMatchedValue_eq (hval value hvalue))
      (trimMatchedValue_nil _), getSubstitution_eq] at heq
    rw [if_pos (Nat.zero_le _), if_pos (Nat.zero_le _)] at heq
    exact hlt.ne (congrArg (weigh weight) (append_cancel_left (append_cancel_right heq)))
  · rintro hres rule text rfl rfl hunt
    exact replaceMatches_congr (fun found hfound => expand_eq_substitute hres (hunt found hfound)) _ _

/-- A pattern of one group, `$10` as the replacement and a trim string that occurs nowhere. -/
def sampleRule : CompiledRegexRule where
  regexp := fullRegexp ⟨[none], by simp⟩ [0x61]
  replace := [dollar, 0x31, zero]
  trimStrings := [[0x78]]

/-- The group is replaced by nothing with trim strings and by its text and a zero without. -/
theorem replacements_differ : ¬∀ (rule : CompiledRegexRule) (text : JsStr), Untrimmed rule text →
    replaceWithTrimStrings text rule = replaceNatively text rule := by
  intro hagree
  refine absurd (hagree sampleRule [0x61] ?_) (by decide +kernel)
  intro found hfound value hvalue trimString htrim _ hocc
  rw [mem_singleton.mp htrim] at hocc
  have hmem := (hocc.trans (sampleRule.regexp.within [0x61] found hfound value hvalue)).subset mem_cons_self
  exact absurd hmem (by decide)

end RegexEngine

end PiRp

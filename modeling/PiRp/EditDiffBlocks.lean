import PiRp.EditDiffExact

/-! `applyReplacementsPreservingUnchangedLines`: the replacements are widened to the lines that they touch. Lines that
no replacement touches come from the original, and the others from the content that was matched. -/

namespace PiRp.EditDiff

open List Sequenced
open Splicing (Range emitted positions positions_append mem_positions flatMap_positions)
open Splicing.Range (Before finish covers splice)

/-! ### Lines and where they start -/

/-- Where a line starts. -/
def offset (lines : List JsStr) (line : Nat) : Nat := (lines.take line).flatten.length

variable {lines : List JsStr}

@[simp] theorem offset_zero : offset lines 0 = 0 := rfl

theorem offset_length : offset lines lines.length = lines.flatten.length := by rw [offset, take_length]

theorem offset_mono {first second : Nat} (hle : first ≤ second) : offset lines first ≤ offset lines second := by
  rw [offset, offset, ← Nat.add_sub_cancel' hle, take_add, flatten_append, length_append]
  exact Nat.le_add_right _ _

theorem lt_of_offset_lt {first second : Nat} (hlt : offset lines first < offset lines second) : first < second := by
  by_contra hle
  exact absurd (offset_mono (not_lt.mp hle)) (not_le.mpr hlt)

theorem getElem?_spansFrom (start : Nat) {line : Nat} (hline : line < lines.length) :
    (spansFrom start lines)[line]? = some ⟨start + offset lines line, start + offset lines (line + 1)⟩ := by
  induction lines generalizing start line with
  | nil => exact absurd hline (Nat.not_lt_zero line)
  | cons first rest ih =>
    cases line with
    | zero => simp [spansFrom, offset]
    | succ line =>
      rw [spansFrom, getElem?_cons_succ, ih _ (Nat.lt_of_succ_lt_succ hline)]
      simp [offset, Nat.add_assoc]

theorem length_spansFrom (start : Nat) (lines : List JsStr) : (spansFrom start lines).length = lines.length := by
  induction lines generalizing start with
  | nil => rfl
  | cons first rest ih => rw [spansFrom, length_cons, length_cons, ih]

theorem getElem_spansFrom {line : Nat} (hline : line < (spansFrom 0 lines).length) :
    (spansFrom 0 lines)[line] = ⟨offset lines line, offset lines (line + 1)⟩ := by
  have h := getElem?_spansFrom 0 (length_spansFrom 0 lines ▸ hline)
  rw [getElem?_eq_getElem hline, Option.some.injEq, Nat.zero_add, Nat.zero_add] at h
  exact h

theorem take_flatten (lines : List JsStr) (line : Nat) :
    lines.flatten.take (offset lines line) = (lines.take line).flatten := by
  conv_lhs => rw [← take_append_drop line lines, flatten_append]
  rw [offset, take_append_drop, take_left]

theorem take_drop_flatten {first last : Nat} (hle : first ≤ last) :
    (lines.flatten.take (offset lines last)).drop (offset lines first) = linesBetween lines first last := by
  have hsplit : lines.take last = lines.take first ++ (lines.take last).drop first := by
    conv_lhs => rw [← take_append_drop first (lines.take last), take_take, Nat.min_eq_left hle]
  rw [take_flatten, linesBetween, offset]
  conv_lhs => rw [hsplit, flatten_append]
  rw [drop_left]

/-- A line that a range touches. -/
def Touches (lines : List JsStr) (line : Nat) (range : Range UInt16) : Prop :=
  range.start < offset lines (line + 1) ∧ offset lines line < range.finish

instance (lines : List JsStr) (line : Nat) (range : Range UInt16) : Decidable (Touches lines line range) :=
  inferInstanceAs (Decidable (_ ∧ _))

def TextReplacement.range (replacement : TextReplacement) : Range UInt16 :=
  ⟨replacement.matchIndex, replacement.matchLength, replacement.newText⟩

/-! ### The lines of a replacement -/

/-- A block of lines that contains a range and has no line that the range does not touch. -/
structure Encloses (lines : List JsStr) (block : LineRange) (range : Range UInt16) : Prop where
  nonempty : block.startLine < block.endLine
  inside : block.endLine ≤ lines.length
  start : offset lines block.startLine ≤ range.start
  finish : range.finish ≤ offset lines block.endLine
  touched : ∀ line, block.startLine ≤ line → line < block.endLine → Touches lines line range

variable {replacement : TextReplacement}

theorem getReplacementLineRange_encloses (hpos : 0 < replacement.matchLength)
    (hins : replacement.range.finish ≤ lines.flatten.length) :
    ∃ block, getReplacementLineRange (spansFrom 0 lines) replacement = .ok block ∧
      Encloses lines block replacement.range := by
  have hlen := length_spansFrom 0 lines
  have hends : replacement.range.finish = replacement.matchIndex + replacement.matchLength := rfl
  rw [getReplacementLineRange]
  cases hstart : (spansFrom 0 lines).findIdx? fun line =>
      line.start ≤ replacement.matchIndex && replacement.matchIndex < line.finish with
  | none =>
    rw [findIdx?_eq_none_iff] at hstart
    have hbeh : ∀ line ≤ lines.length, offset lines line ≤ replacement.matchIndex := by
      intro line hline
      induction line with
      | zero => exact Nat.zero_le _
      | succ line ih =>
        have hlt : line < (spansFrom 0 lines).length := by omega
        have htest := hstart _ (getElem_mem hlt)
        rw [getElem_spansFrom, decide_eq_true (ih (Nat.le_of_succ_le hline)), Bool.true_and] at htest
        exact not_lt.mp (of_decide_eq_false htest)
    have hlast := hbeh lines.length le_rfl
    rw [offset_length] at hlast
    omega
  | some startLine =>
    obtain ⟨hlt, htest, -⟩ := findIdx?_eq_some_iff_getElem.mp hstart
    rw [getElem_spansFrom, Bool.and_eq_true, decide_eq_true_eq, decide_eq_true_eq] at htest
    simp only []
    cases hfin : ((spansFrom 0 lines).drop startLine).findIdx? fun line =>
        replacement.matchIndex + replacement.matchLength ≤ line.finish with
    | none =>
      rw [findIdx?_eq_none_iff] at hfin
      have hlast : lines.length - 1 < (spansFrom 0 lines).length := by omega
      have hmem : (spansFrom 0 lines)[lines.length - 1] ∈ (spansFrom 0 lines).drop startLine :=
        mem_drop_iff_getElem.mpr ⟨lines.length - 1 - startLine, by omega, by congr 1; omega⟩
      have htest := of_decide_eq_false (hfin _ hmem)
      rw [getElem_spansFrom, Nat.sub_add_cancel (by omega), offset_length, not_le] at htest
      exact absurd hins (not_le.mpr htest)
    | some more =>
      obtain ⟨hmore, hend, hbef⟩ := findIdx?_eq_some_iff_getElem.mp hfin
      rw [length_drop] at hmore
      rw [getElem_drop, getElem_spansFrom, decide_eq_true_eq] at hend
      refine ⟨_, rfl, ⟨by simp only []; omega, by simp only []; omega, htest.1, hend, fun line hge hlt => ?_⟩⟩
      have hge' : startLine ≤ line := hge
      have hlt' : line < startLine + more + 1 := hlt
      refine ⟨htest.2.trans_le (offset_mono (by omega)), ?_⟩
      -- the lines before the last one end before the replacement does
      by_cases hfirst : line = startLine
      · have hstar : offset lines startLine ≤ replacement.matchIndex := htest.1
        rw [hfirst, hends]
        omega
      · have htest := hbef (line - startLine - 1) (by omega)
        rw [getElem_drop, getElem_spansFrom, decide_eq_true_eq, not_le] at htest
        rw [show startLine + (line - startLine - 1) + 1 = line by omega] at htest
        exact htest

/-! ### Groups -/

/-- Groups of replacements, each with the block of the lines that its replacements touch. -/
structure Covers (lines : List JsStr) (groups : List Group) (done : List TextReplacement) : Prop where
  replacements : groups.flatMap Group.replacements = done
  ordered : groups.Pairwise fun first second => first.endLine ≤ second.startLine
  nonempty : ∀ group ∈ groups, group.startLine < group.endLine
  inside : ∀ group ∈ groups, group.endLine ≤ lines.length
  within : ∀ group ∈ groups, ∀ replacement ∈ group.replacements,
    offset lines group.startLine ≤ replacement.range.start ∧ replacement.range.finish ≤ offset lines group.endLine
  touched : ∀ group ∈ groups, ∀ line, group.startLine ≤ line → line < group.endLine →
    ∃ replacement ∈ group.replacements, Touches lines line replacement.range

theorem Covers.nil : Covers lines [] [] :=
  ⟨rfl, .nil, by simp, by simp, by simp, by simp⟩

variable {groups : List Group} {done : List TextReplacement}

theorem Covers.push (covers : Covers lines groups done)
    {block : LineRange} (encloses : Encloses lines block replacement.range)
    (hbeh : ∀ group ∈ groups, group.endLine ≤ block.startLine) :
    Covers lines (groups ++ [⟨block, [replacement]⟩]) (done ++ [replacement]) where
  replacements := by rw [flatMap_append, covers.replacements, flatMap_singleton]
  ordered := by
    refine pairwise_append.mpr ⟨covers.ordered, pairwise_singleton _ _, fun group hgroup other hother => ?_⟩
    rw [mem_singleton.mp hother]
    exact hbeh group hgroup
  nonempty := forall_mem_append.mpr ⟨covers.nonempty, by simpa using encloses.nonempty⟩
  inside := forall_mem_append.mpr ⟨covers.inside, by simpa using encloses.inside⟩
  within := forall_mem_append.mpr
    ⟨covers.within, by simpa using ⟨encloses.start, encloses.finish⟩⟩
  touched := forall_mem_append.mpr ⟨covers.touched, by simpa using encloses.touched⟩

theorem Covers.merge {current : Group} (covers : Covers lines (groups ++ [current]) done) {block : LineRange}
    (encloses : Encloses lines block replacement.range)
    (hbef : ∀ other ∈ done, Before other.range replacement.range) (hreac : block.startLine < current.endLine) :
    Covers lines (groups ++ [{ current with
        endLine := max current.endLine block.endLine
        replacements := current.replacements ++ [replacement] }])
      (done ++ [replacement]) := by
  have hcur : current ∈ groups ++ [current] := by simp
  have hnon := covers.nonempty current hcur
  have hdone := covers.replacements
  rw [flatMap_append, flatMap_singleton] at hdone
  have hmem : ∀ {group}, group ∈ groups → group ∈ groups ++ [current] := mem_append_left [current]
  -- the block does not start before the group: its replacement starts behind the group's first one
  obtain ⟨first, hfirst, -⟩ := covers.touched current hcur current.startLine le_rfl hnon
  have hstart : current.startLine ≤ block.startLine := by
    have hfirst' := covers.within current hcur first hfirst
    have hafter : first.range.finish ≤ replacement.range.start :=
      hbef first (hdone ▸ mem_append_right _ hfirst)
    have hfin : first.range.finish = first.range.start + first.range.length := rfl
    have htouch := (encloses.touched block.startLine le_rfl encloses.nonempty).1
    have hlt : offset lines current.startLine < offset lines (block.startLine + 1) := by omega
    exact Nat.le_of_lt_succ (lt_of_offset_lt hlt)
  have hord := pairwise_append.mp covers.ordered
  refine ⟨?_, ?_, ?_, ?_, ?_, ?_⟩
  · rw [flatMap_append, flatMap_singleton, ← append_assoc, hdone]
  · refine pairwise_append.mpr ⟨hord.1, pairwise_singleton _ _, fun group hgroup other hother => ?_⟩
    rw [mem_singleton.mp hother]
    exact hord.2.2 group hgroup current (mem_singleton_self current)
  · refine forall_mem_append.mpr ⟨fun group hgroup => covers.nonempty group (hmem hgroup), ?_⟩
    rw [forall_mem_singleton]
    exact hnon.trans_le (le_max_left _ _)
  · refine forall_mem_append.mpr ⟨fun group hgroup => covers.inside group (hmem hgroup), ?_⟩
    rw [forall_mem_singleton]
    exact max_le (covers.inside current hcur) encloses.inside
  · refine forall_mem_append.mpr ⟨fun group hgroup => covers.within group (hmem hgroup), ?_⟩
    rw [forall_mem_singleton]
    refine forall_mem_append.mpr ⟨fun other hother => ?_, ?_⟩
    · have h := covers.within current hcur other hother
      exact ⟨h.1, h.2.trans (offset_mono (le_max_left _ _))⟩
    · rw [forall_mem_singleton]
      exact ⟨(offset_mono hstart).trans encloses.start, encloses.finish.trans (offset_mono (le_max_right _ _))⟩
  · refine forall_mem_append.mpr ⟨fun group hgroup => covers.touched group (hmem hgroup), ?_⟩
    rw [forall_mem_singleton]
    intro line hge hlt
    by_cases hold : line < current.endLine
    · obtain ⟨other, hother, htouches⟩ := covers.touched current hcur line hge hold
      exact ⟨other, mem_append_left _ hother, htouches⟩
    · refine ⟨replacement, mem_append_right _ (mem_singleton_self replacement), ?_⟩
      have hlt' := (lt_max_iff.mp hlt).resolve_left hold
      exact encloses.touched line (by omega) hlt'

theorem addToGroups_covers (covers : Covers lines groups done) (hpos : 0 < replacement.matchLength)
    (hins : replacement.range.finish ≤ lines.flatten.length)
    (hbef : ∀ other ∈ done, Before other.range replacement.range) :
    ∃ next, addToGroups (spansFrom 0 lines) groups replacement = .ok next ∧
      Covers lines next (done ++ [replacement]) := by
  obtain ⟨block, hblock, encloses⟩ := getReplacementLineRange_encloses hpos hins
  rw [addToGroups, hblock, ok_bind]
  rcases eq_nil_or_concat' groups with rfl | ⟨front, current, rfl⟩
  · exact ⟨_, rfl, covers.push encloses fun group hgroup => absurd hgroup not_mem_nil⟩
  · rw [getLast?_concat, dropLast_concat]
    simp only []
    split_ifs with hreac
    · exact ⟨_, rfl, covers.merge encloses hbef hreac⟩
    · refine ⟨_, rfl, covers.push encloses fun group hgroup => ?_⟩
      have hlast := not_lt.mp hreac
      rcases mem_append.mp hgroup with hgroup | hgroup
      · have hord := (pairwise_append.mp covers.ordered).2.2 group hgroup current (by simp)
        have := covers.nonempty current (by simp)
        omega
      · rwa [mem_singleton.mp hgroup]

variable {replacements : List TextReplacement}

theorem foldlM_addToGroups
    (covers : Covers lines groups done) (hord : ((done ++ replacements).map TextReplacement.range).Pairwise Before)
    (hpos : ∀ replacement ∈ replacements, 0 < replacement.matchLength)
    (hins : ∀ replacement ∈ replacements, replacement.range.finish ≤ lines.flatten.length) :
    ∃ next, replacements.foldlM (addToGroups (spansFrom 0 lines)) groups = .ok next ∧
      Covers lines next (done ++ replacements) := by
  induction replacements generalizing done groups with
  | nil => exact ⟨groups, rfl, by rwa [append_nil]⟩
  | cons replacement rest ih =>
    have hbef : ∀ other ∈ done, Before other.range replacement.range := by
      intro other hother
      rw [pairwise_map] at hord
      exact (pairwise_append.mp hord).2.2 other hother replacement mem_cons_self
    obtain ⟨next, hnext, hcov⟩ := addToGroups_covers covers (hpos replacement mem_cons_self)
      (hins replacement mem_cons_self) hbef
    rw [append_cons] at hord ⊢
    obtain ⟨last, hlast, hall⟩ := ih hcov hord (fun other hother => hpos other (mem_cons_of_mem _ hother))
      (fun other hother => hins other (mem_cons_of_mem _ hother))
    exact ⟨last, by rw [foldlM_cons, hnext, ok_bind, hlast], hall⟩

/-! ### Writing -/

theorem Covers.exists_group_iff (covers : Covers lines groups replacements) (line : Nat) :
    (∃ group ∈ groups, group.startLine ≤ line ∧ line < group.endLine) ↔
      ∃ replacement ∈ replacements, Touches lines line replacement.range := by
  constructor
  · rintro ⟨group, hgroup, hge, hlt⟩
    obtain ⟨replacement, hrepl, htouches⟩ := covers.touched group hgroup line hge hlt
    exact ⟨replacement, covers.replacements ▸ mem_flatMap.mpr ⟨group, hgroup, hrepl⟩, htouches⟩
  · rintro ⟨replacement, hrepl, hstart, hfin⟩
    rw [← covers.replacements] at hrepl
    obtain ⟨group, hgroup, hrepl⟩ := mem_flatMap.mp hrepl
    obtain ⟨hfirst, hlast⟩ := covers.within group hgroup replacement hrepl
    refine ⟨group, hgroup, Nat.le_of_lt_succ ?_, ?_⟩
    · exact lt_of_offset_lt (hfirst.trans_lt hstart)
    · exact lt_of_offset_lt (hfin.trans_le hlast)

section Writing

variable {content : JsStr} {ranges : List (Range UInt16)}

variable {replacements : List TextReplacement}

theorem foldr_splice_append (front block : JsStr)
    (hbeh : ∀ replacement ∈ replacements, front.length ≤ replacement.matchIndex) :
    (replacements.map TextReplacement.range).foldr splice (front ++ block) =
      front ++ applyReplacements block replacements front.length := by
  induction replacements with
  | nil => rfl
  | cons replacement rest ih =>
    obtain ⟨hfirst, hrest⟩ := forall_mem_cons.mp hbeh
    have hcons : applyReplacements block (replacement :: rest) front.length =
        applyReplacement front.length replacement (applyReplacements block rest front.length) := rfl
    rw [map_cons, foldr_cons, ih hrest, hcons, splice, applyReplacement]
    show List.take replacement.matchIndex _ ++ replacement.newText ++
      List.drop (replacement.matchIndex + replacement.matchLength) _ = _
    rw [take_append, take_of_length_le hfirst, drop_append, drop_eq_nil_of_le (by omega),
      nil_append, append_assoc, append_assoc, append_assoc]

theorem emitted_take {stop position : Nat} (hposit : position < stop) :
    emitted ranges (content.take stop) position = emitted ranges content position := by
  rw [emitted, emitted, getElem?_take_of_lt hposit]

theorem applyReplacements_block {start stop : Nat} (hstart : start ≤ stop)
    (hord : (replacements.map TextReplacement.range).Pairwise Before)
    (hpos : ∀ replacement ∈ replacements, 0 < replacement.matchLength)
    (hwit : ∀ replacement ∈ replacements, start ≤ replacement.range.start ∧ replacement.range.finish ≤ stop)
    (hstop : stop ≤ content.length) : applyReplacements ((content.take stop).drop start) replacements start =
      (positions start stop).flatMap (emitted (replacements.map TextReplacement.range) content) := by
  have hlen : (content.take stop).length = stop := by rw [length_take, Nat.min_eq_left hstop]
  have hfront : ((content.take stop).take start).length = start := by
    rw [length_take, hlen, Nat.min_eq_left hstart]
  have hspl := foldr_splice_append ((content.take stop).take start) ((content.take stop).drop start)
    fun replacement hrepl => hfront.symm ▸ (hwit replacement hrepl).1
  rw [take_append_drop, hfront, Splicing.foldr_splice hord (forall_mem_map.mpr hpos)
    (forall_mem_map.mpr fun replacement hrepl => (hwit replacement hrepl).2.trans hlen.ge)
    (forall_mem_map.mpr fun replacement hrepl => (hwit replacement hrepl).1)
    (hstart.trans hlen.ge), hlen] at hspl
  rw [← append_cancel_left hspl]
  exact flatMap_congr fun position hposit => emitted_take (mem_positions.mp hposit).2

theorem emitted_middle {before middle after : List (Range UInt16)} {start stop position : Nat}
    (hbef : ∀ range ∈ before, 0 < range.length ∧ range.finish ≤ start)
    (hafter : ∀ range ∈ after, stop ≤ range.start) (hstart : start ≤ position) (hstop : position < stop) :
    emitted (before ++ middle ++ after) content position = emitted middle content position := by
  have hskip : ∀ range ∈ before, decide (range.start = position) = false ∧ range.covers position = false := by
    intro range hrange
    obtain ⟨hpos, hfin⟩ := hbef range hrange
    have hends : range.finish = range.start + range.length := rfl
    refine ⟨decide_eq_false (by omega), ?_⟩
    rw [covers, decide_eq_false (show ¬ position < range.finish by omega), Bool.and_false]
  have hlater : ∀ range ∈ after, decide (range.start = position) = false ∧ range.covers position = false := by
    intro range hrange
    have hle := hafter range hrange
    refine ⟨decide_eq_false (by omega), ?_⟩
    rw [covers, decide_eq_false (show ¬ range.start ≤ position by omega), Bool.false_and]
  have hnone : ∀ {ranges : List (Range UInt16)},
      (∀ range ∈ ranges, decide (range.start = position) = false ∧ range.covers position = false) →
      ranges.find? (fun range => range.start = position) = none ∧ ranges.any (·.covers position) = false := by
    intro ranges hall
    constructor
    · exact find?_eq_none.mpr fun range hrange => by rw [(hall range hrange).1]; exact Bool.false_ne_true
    · exact any_eq_false.mpr fun range hrange => by rw [(hall range hrange).2]; exact Bool.false_ne_true
  rw [emitted, emitted, find?_append, find?_append, any_append, any_append, (hnone hskip).1,
    (hnone hskip).2, (hnone hlater).1, (hnone hlater).2, Option.none_or, Option.or_none, Bool.false_or, Bool.or_false]

/-- What is written for a line when the ranges are replaced. -/
def written (lines : List JsStr) (ranges : List (Range UInt16)) (line : Nat) : JsStr :=
  (positions (offset lines line) (offset lines (line + 1))).flatMap (emitted ranges lines.flatten)

theorem written_of_untouched {line : Nat} (hline : line < lines.length)
    (hunt : ∀ range ∈ ranges, 0 < range.length ∧ ¬ Touches lines line range) :
    written lines ranges line = lines[line] := by
  have hstop : offset lines (line + 1) ≤ lines.flatten.length := @offset_length lines ▸ offset_mono hline
  have hkept : ∀ position ∈ positions (offset lines line) (offset lines (line + 1)),
      emitted ranges lines.flatten position = lines.flatten[position]?.toList := by
    intro position hposit
    obtain ⟨hge, hlt⟩ := mem_positions.mp hposit
    have hnone : ∀ range ∈ ranges, decide (range.start = position) = false ∧ range.covers position = false := by
      intro range hrange
      obtain ⟨hpos, hnot⟩ := hunt range hrange
      have hends : range.finish = range.start + range.length := rfl
      have hcover : ¬ (range.start ≤ position ∧ position < range.finish) :=
        fun hcov => hnot ⟨by omega, by omega⟩
      refine ⟨decide_eq_false fun heq => hcover ⟨heq.le, by omega⟩, ?_⟩
      rw [covers, ← Bool.not_eq_true, Bool.and_eq_true, decide_eq_true_eq, decide_eq_true_eq]
      exact hcover
    have hfind : ranges.find? (fun range => range.start = position) = none :=
      find?_eq_none.mpr fun range hrange => by rw [(hnone range hrange).1]; exact Bool.false_ne_true
    have hany : ranges.any (·.covers position) = false :=
      any_eq_false.mpr fun range hrange => by rw [(hnone range hrange).2]; exact Bool.false_ne_true
    rw [emitted, hfind, hany]
    rfl
  rw [written, flatMap_congr hkept, flatMap_positions hstop, take_drop_flatten (Nat.le_succ line), linesBetween,
    take_add_one, getElem?_eq_getElem hline, drop_left' (by rw [length_take]; omega)]
  simp

/-- A content whose lines are taken from one side unless a range touches them. -/
def assembled (baseLines : List JsStr) (ranges : List (Range UInt16)) (kept : List JsStr)
    (lines : List Nat) : JsStr :=
  lines.flatMap fun line =>
    if ∃ range ∈ ranges, Touches baseLines line range then written baseLines ranges line else kept[line]?.getD []

theorem assembled_append (kept : List JsStr) (front back : List Nat) :
    assembled lines ranges kept (front ++ back) = assembled lines ranges kept front ++ assembled lines ranges kept back :=
  flatMap_append

theorem assembled_untouched (kept : List JsStr) {first last : Nat} (hle : last ≤ kept.length)
    (hunt : ∀ line, first ≤ line → line < last → ¬ ∃ range ∈ ranges, Touches lines line range) :
    assembled lines ranges kept (positions first last) = linesBetween kept first last := by
  have hkept : ∀ line ∈ positions first last,
      (if ∃ range ∈ ranges, Touches lines line range then written lines ranges line else kept[line]?.getD []) =
        kept[line]?.getD [] := fun line hline =>
    if_neg (hunt line (mem_positions.mp hline).1 (mem_positions.mp hline).2)
  rw [assembled, flatMap_congr hkept, linesBetween, ← flatMap_positions hle, ← flatMap_id, flatMap_assoc]
  refine flatMap_congr fun line hline => ?_
  rw [getElem?_eq_getElem ((mem_positions.mp hline).2.trans_le hle)]
  simp

theorem assembled_touched (kept : List JsStr) {first last : Nat} (hle : first ≤ last)
    (htouc : ∀ line, first ≤ line → line < last → ∃ range ∈ ranges, Touches lines line range) :
    assembled lines ranges kept (positions first last) =
      (positions (offset lines first) (offset lines last)).flatMap (emitted ranges lines.flatten) := by
  induction last, hle using Nat.le_induction with
  | base => simp [positions, assembled]
  | succ last hle ih =>
    rw [positions_append hle (Nat.le_succ last), assembled_append,
      ih fun line hge hlt => htouc line hge (Nat.lt_succ_of_lt hlt),
      positions_append (offset_mono hle) (offset_mono (Nat.le_succ last)), flatMap_append]
    congr 1
    have hone : positions last (last + 1) = [last] := by rw [positions, Nat.add_sub_cancel_left]; rfl
    rw [hone, assembled, flatMap_singleton, if_pos (htouc last hle (Nat.lt_succ_self last)), written]

theorem assembled_self {ranges : List (Range UInt16)} (hpos : ∀ range ∈ ranges, 0 < range.length) :
    assembled lines ranges lines (positions 0 lines.length) =
      (positions 0 lines.flatten.length).flatMap (emitted ranges lines.flatten) := by
  have hall : ∀ last ≤ lines.length, assembled lines ranges lines (positions 0 last) =
      (positions 0 (offset lines last)).flatMap (emitted ranges lines.flatten) := by
    intro last hlast
    induction last with
    | zero => rfl
    | succ last ih =>
      rw [positions_append (Nat.zero_le last) (Nat.le_succ last), assembled_append, ih (Nat.le_of_succ_le hlast),
        positions_append (Nat.zero_le _) (offset_mono (Nat.le_succ last)), flatMap_append]
      congr 1
      have hone : positions last (last + 1) = [last] := by rw [positions, Nat.add_sub_cancel_left]; rfl
      rw [hone, assembled, flatMap_singleton]
      split_ifs with htouc
      · rfl
      · rw [getElem?_eq_getElem hlast, Option.getD_some]
        refine (written_of_untouched hlast fun range hrange => ⟨hpos range hrange, fun htouches => ?_⟩).symm
        exact htouc ⟨range, hrange, htouches⟩
  rw [hall lines.length le_rfl, offset_length]

theorem writeGroup_text {group : Group} {before groups : List Group}
    (covers : Covers lines (before ++ group :: groups) replacements)
    (hord : (replacements.map TextReplacement.range).Pairwise Before)
    (hpos : ∀ replacement ∈ replacements, 0 < replacement.matchLength) :
    applyReplacements ((lines.flatten.take (offset lines group.endLine)).drop (offset lines group.startLine))
        group.replacements (offset lines group.startLine) =
      (positions (offset lines group.startLine) (offset lines group.endLine)).flatMap
        (emitted (replacements.map TextReplacement.range) lines.flatten) := by
  have hgroup : group ∈ before ++ group :: groups := mem_append_right _ mem_cons_self
  have hsplit : before.flatMap Group.replacements ++ group.replacements ++ groups.flatMap Group.replacements =
      replacements := by
    rw [← covers.replacements, flatMap_append, flatMap_cons, append_assoc]
  have hends : offset lines group.endLine ≤ lines.flatten.length :=
    @offset_length lines ▸ offset_mono (covers.inside group hgroup)
  have hpairs := pairwise_append.mp covers.ordered
  rw [← hsplit, map_append, map_append] at hord ⊢
  rw [applyReplacements_block (offset_mono (covers.nonempty group hgroup).le)
    (pairwise_append.mp (pairwise_append.mp hord).1).2.1
    (fun replacement hrepl => hpos replacement (hsplit ▸ by simp [hrepl]))
    (covers.within group hgroup) hends]
  refine flatMap_congr fun position hposit => ?_
  obtain ⟨hge, hlt⟩ := mem_positions.mp hposit
  refine (emitted_middle (fun range hrange => ?_) (fun range hrange => ?_) hge hlt).symm
  · obtain ⟨replacement, hrepl, rfl⟩ := mem_map.mp hrange
    obtain ⟨other, hother, hmem⟩ := mem_flatMap.mp hrepl
    refine ⟨hpos replacement (hsplit ▸ by simp [hrepl]), ?_⟩
    exact (covers.within other (mem_append_left _ hother) replacement hmem).2.trans
      (offset_mono (hpairs.2.2 other hother group mem_cons_self))
  · obtain ⟨replacement, hrepl, rfl⟩ := mem_map.mp hrange
    obtain ⟨other, hother, hmem⟩ := mem_flatMap.mp hrepl
    exact (offset_mono ((pairwise_cons.mp hpairs.2.1).1 other hother)).trans
      (covers.within other (mem_append_right _ (mem_cons_of_mem _ hother)) replacement hmem).1

theorem foldl_writeGroup {original : List JsStr} {replacements : List TextReplacement} {groups before : List Group}
    (covers : Covers lines (before ++ groups) replacements)
    (hord : (replacements.map TextReplacement.range).Pairwise Before)
    (hpos : ∀ replacement ∈ replacements, 0 < replacement.matchLength) (hlen : original.length = lines.length)
    {line : Nat} (hline : line ≤ lines.length) (hbef : ∀ group ∈ before, group.endLine ≤ line)
    (hafter : ∀ group ∈ groups, line ≤ group.startLine) :
    let result := groups.foldl (writeGroup original lines.flatten (spansFrom 0 lines))
      (line, assembled lines (replacements.map TextReplacement.range) original (positions 0 line))
    result.2 ++ linesBetween original result.1 original.length =
      assembled lines (replacements.map TextReplacement.range) original (positions 0 lines.length) := by
  have htouc : ∀ line, (∃ range ∈ replacements.map TextReplacement.range, Touches lines line range) ↔
      ∃ group ∈ before ++ groups, group.startLine ≤ line ∧ line < group.endLine := by
    intro line
    rw [covers.exists_group_iff]
    simp
  induction groups generalizing before line with
  | nil =>
    rw [foldl_nil, positions_append (Nat.zero_le line) hline, assembled_append, hlen,
      assembled_untouched original hlen.ge]
    intro other hge _ htouches
    obtain ⟨group, hgroup, -, hlt⟩ := (htouc other).mp htouches
    rw [append_nil] at hgroup
    exact absurd (hbef group hgroup) (by omega)
  | cons group rest ih =>
    have hgroup : group ∈ before ++ group :: rest := mem_append_right _ mem_cons_self
    have hnon := covers.nonempty group hgroup
    have hins := covers.inside group hgroup
    have hge := hafter group mem_cons_self
    have hlater := (pairwise_cons.mp (pairwise_append.mp covers.ordered).2.1).1
    have hstep : writeGroup original lines.flatten (spansFrom 0 lines)
        (line, assembled lines (replacements.map TextReplacement.range) original (positions 0 line)) group =
        (group.endLine,
          assembled lines (replacements.map TextReplacement.range) original (positions 0 group.endLine)) := by
      have hfirst := @getElem?_spansFrom lines 0 _ (hnon.trans_le hins)
      have hlast := @getElem?_spansFrom lines 0 _ (show group.endLine - 1 < lines.length by omega)
      rw [Nat.sub_add_cancel (by omega)] at hlast
      rw [writeGroup, hfirst, hlast]
      simp only [Option.map_some, Option.getD_some, Nat.zero_add]
      have hunt : ∀ other, line ≤ other → other < group.startLine →
          ¬ ∃ range ∈ replacements.map TextReplacement.range, Touches lines other range := by
        intro other hother hlt htouches
        obtain ⟨found, hfound, hstar, hends⟩ := (htouc other).mp htouches
        rcases mem_append.mp hfound with hfound | hfound
        · exact absurd (hbef found hfound) (by omega)
        · rcases mem_cons.mp hfound with rfl | hfound
          · omega
          · exact absurd (hlater found hfound) (by omega)
      rw [writeGroup_text covers hord hpos, positions_append (Nat.zero_le line) (hge.trans hnon.le),
        positions_append hge hnon.le, assembled_append, assembled_append,
        ← assembled_untouched original (show group.startLine ≤ original.length by omega) hunt,
        assembled_touched original hnon.le fun other hge hlt => (htouc other).mpr ⟨group, hgroup, hge, hlt⟩,
        append_assoc]
    rw [foldl_cons, hstep]
    rw [append_cons] at covers htouc
    refine ih covers hins (fun other hother => ?_) hlater htouc
    rcases mem_append.mp hother with hother | hother
    · exact (hbef other hother).trans (hge.trans hnon.le)
    · rw [mem_singleton.mp hother]

end Writing

/-- Replacements in order, carried over to an original with the same number of lines: the lines that none of them
touches are the original's. -/
theorem applyReplacementsPreservingUnchangedLines_eq {original base : JsStr}
    (hlen : (splitLinesWithEndings original).length = (splitLinesWithEndings base).length)
    (hbase : (splitLinesWithEndings base).flatten = base)
    (hord : (replacements.map TextReplacement.range).Pairwise Before)
    (hpos : ∀ replacement ∈ replacements, 0 < replacement.matchLength)
    (hins : ∀ replacement ∈ replacements, replacement.range.finish ≤ base.length) :
    applyReplacementsPreservingUnchangedLines original base replacements =
      .ok (assembled (splitLinesWithEndings base) (replacements.map TextReplacement.range)
        (splitLinesWithEndings original) (positions 0 (splitLinesWithEndings base).length)) := by
  have hsor : bySequence TextReplacement.matchIndex replacements = replacements := by
    refine List.Pairwise.insertionSort_eq ((pairwise_map.mp hord).imp fun hbef => ?_)
    exact (Nat.le_add_right _ _).trans hbef
  have hcont : getLineSpans base = spansFrom 0 (splitLinesWithEndings base) := rfl
  rw [applyReplacementsPreservingUnchangedLines]
  simp only [hcont, length_spansFrom, hsor]
  rw [if_neg (not_not.mpr hlen)]
  obtain ⟨groups, hgroups, covers⟩ := @foldlM_addToGroups (splitLinesWithEndings base) _ _ _ .nil
    (by rwa [nil_append]) hpos (by rwa [hbase])
  rw [hgroups, ok_bind]
  rw [nil_append] at covers
  have h := @foldl_writeGroup _ (splitLinesWithEndings original) _ _ [] covers hord hpos hlen _
    (Nat.zero_le _) (by simp) (fun group _ => Nat.zero_le _)
  rw [hbase] at h
  exact congrArg Except.ok h

end PiRp.EditDiff

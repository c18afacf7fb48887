import PiRp.JsOccurrences
import Mathlib.Data.Prod.Lex

/-! Jumping to a character in the editor. The lines are searched from the cursor's line on, its own line from the
column next to the cursor; a column out of range is clamped, so that the search backwards from the first column finds
the character at the cursor. -/

namespace PiRp.Tui

open List JsStr

inductive Direction where
  | forward
  | backward

inductive LastAction where
  | kill
  | yank
  | typeWord

structure EditorState where
  lines : List JsStr
  cursorLine : Fin lines.length
  cursorCol : Nat

structure Editor where
  state : EditorState
  lastAction : Option LastAction
  preferredVisualCol : Option Nat
  snappedFromCursorCol : Option Nat

/-- The columns that `line.indexOf(char, searchFrom)`, respectively `line.lastIndexOf(char, searchFrom)`, tries. -/
def columns (line : JsStr) (searchFrom : Option Int) : Direction → List Nat
  | .forward =>
    let start := min (searchFrom.elim 0 Int.toNat) line.length
    range' start (line.length + 1 - start)
  | .backward => (range (min (searchFrom.elim line.length Int.toNat) line.length + 1)).reverse

namespace EditorState

variable (state : EditorState) (char : JsStr) (direction : Direction)

def searchFrom (lineIdx : Fin state.lines.length) : Option Int :=
  if lineIdx = state.cursorLine then
    match direction with
    | .forward => some (state.cursorCol + 1)
    | .backward => some (state.cursorCol - 1)
  else none

/-- The lines in the order of the loop. -/
def loop : Direction → List (Fin state.lines.length)
  | .forward => (finRange _).filter (state.cursorLine ≤ ·)
  | .backward => ((finRange _).filter (· ≤ state.cursorLine)).reverse

/-- Places of the text in document order. -/
abbrev Place := Fin state.lines.length ×ₗ Nat

def columnsOf (lineIdx : Fin state.lines.length) : List Nat :=
  columns (state.lines.get lineIdx) (state.searchFrom direction lineIdx) direction

def found : Option state.Place :=
  (state.loop direction).findSome? fun lineIdx =>
    ((state.columnsOf direction lineIdx).find? fun idx => char.isPrefixOf ((state.lines.get lineIdx).drop idx)).map
      fun idx => toLex (lineIdx, idx)

def moveTo (place : state.Place) : EditorState :=
  { state with cursorLine := (ofLex place).1, cursorCol := (ofLex place).2 }

end EditorState

def jumpToChar (editor : Editor) (char : JsStr) (direction : Direction) : Editor :=
  let { state, .. } := editor
  match state.found char direction with
  | some place =>
    { state := state.moveTo place, lastAction := none, preferredVisualCol := none, snappedFromCursorCol := none }
  | none => { editor with lastAction := none }

/-! ### The nearest occurrence -/

/-- Strictly further in the direction. -/
def Direction.Past {α : Type} [LT α] : Direction → α → α → Prop
  | .forward, origin, place => origin < place
  | .backward, origin, place => place < origin

namespace EditorState

variable (state : EditorState) (char : JsStr) (direction : Direction)

def cursor : state.Place := toLex (state.cursorLine, state.cursorCol)

def Occurs (place : state.Place) : Prop := OccursAt char (state.lines.get (ofLex place).1) (ofLex place).2

/-- An occurrence strictly past the cursor. -/
def Ahead (place : state.Place) : Prop := state.Occurs char place ∧ direction.Past state.cursor place

/-- The cursor goes to the first occurrence past it, and stays exactly when there is none. -/
def Jumps (after : EditorState) : Prop :=
  (after = state ↔ ∀ place, ¬ state.Ahead char direction place) ∧
    ∀ place, state.Ahead char direction place → ∃ first, after = state.moveTo first ∧
      state.Ahead char direction first ∧ (place = first ∨ direction.Past first place)

def Visits (place : state.Place) : Prop :=
  (ofLex place).1 ∈ state.loop direction ∧ (ofLex place).2 ∈ state.columnsOf direction (ofLex place).1

variable {state char direction} {place : state.Place}

theorem past_toLex {α β : Type} [LinearOrder α] [LinearOrder β] {left right : α × β} :
    direction.Past (toLex left) (toLex right) ↔
      direction.Past left.1 right.1 ∨ left.1 = right.1 ∧ direction.Past left.2 right.2 := by
  cases direction with
  | forward => exact Prod.Lex.toLex_lt_toLex
  | backward => exact Prod.Lex.toLex_lt_toLex.trans (by rw [eq_comm]; rfl)

theorem past_loop : (state.loop direction).Pairwise direction.Past := by
  cases direction with
  | forward => exact (pairwise_lt_finRange _).filter _
  | backward => exact pairwise_reverse.mpr ((pairwise_lt_finRange _).filter _)

theorem past_columns (line : JsStr) (searchFrom : Option Int) :
    (columns line searchFrom direction).Pairwise direction.Past := by
  cases direction with
  | forward => exact pairwise_lt_range'
  | backward => exact pairwise_reverse.mpr pairwise_lt_range

theorem eq_or_rel_of_not_mem {α : Type} {r : α → α → Prop} {earlier later : List α} {item other : α}
    (hsort : (earlier ++ item :: later).Pairwise r) (hmem : other ∈ earlier ++ item :: later)
    (hnot : other ∉ earlier) : other = item ∨ r item other := by
  rcases mem_cons.mp ((mem_append.mp hmem).resolve_left hnot) with heq | hlat
  · exact .inl heq
  · exact .inr ((pairwise_cons.mp (pairwise_append.mp hsort).2.1).1 other hlat)

theorem found_eq_some (hfound : state.found char direction = some place) :
    state.Occurs char place ∧ state.Visits direction place ∧ ∀ other, state.Visits direction other →
      state.Occurs char other → other = place ∨ direction.Past place other := by
  obtain ⟨earlier, lineIdx, later, hloop, hline, hearl⟩ := findSome?_eq_some_iff.mp hfound
  obtain ⟨idx, hidx, rfl⟩ := Option.map_eq_some_iff.mp hline
  obtain ⟨hocc, before, after, hcols, hbef⟩ := find?_eq_some_iff_append.mp hidx
  refine ⟨ isPrefixOf_iff_prefix.mp hocc, ⟨hloop ▸ by simp, hcols ▸ by simp⟩, ?_⟩
  rintro ⟨otherLine, otherIdx⟩ ⟨hvis, hcol⟩ (hoth : char <+: (state.lines.get otherLine).drop otherIdx)
  have hsame : otherLine = lineIdx ∨ direction.Past lineIdx otherLine := by
    refine eq_or_rel_of_not_mem (hloop ▸ past_loop) (hloop ▸ hvis) fun hmem => ?_
    have hnone := find?_eq_none.mp (Option.map_eq_none_iff.mp (hearl otherLine hmem))
    exact hnone otherIdx hcol ( isPrefixOf_iff_prefix.mpr hoth)
  rcases hsame with rfl | hpast
  · have hidx : otherIdx = idx ∨ direction.Past idx otherIdx := by
      refine eq_or_rel_of_not_mem (hcols ▸ past_columns _ _) (hcols ▸ hcol) fun hmem => ?_
      have hnot := hbef otherIdx hmem
      rw [ isPrefixOf_iff_prefix.mpr hoth] at hnot
      exact absurd hnot (by decide)
    exact hidx.imp (fun heq => by rw [heq]; rfl) fun hpast => past_toLex.mpr (.inr ⟨rfl, hpast⟩)
  · exact .inr (past_toLex.mpr (.inl hpast))

theorem found_eq_none (hfound : state.found char direction = none) (hvis : state.Visits direction place) :
    ¬ state.Occurs char place := by
  intro hocc
  have hline := Option.map_eq_none_iff.mp (findSome?_eq_none_iff.mp hfound _ hvis.1)
  exact find?_eq_none.mp hline _ hvis.2 ( isPrefixOf_iff_prefix.mpr hocc)

theorem visits_iff (hne : char ≠ []) (hocc : state.Occurs char place) : state.Visits direction place ↔
    direction.Past state.cursor place ∨ direction = .backward ∧ state.cursorCol = 0 ∧ place = state.cursor := by
  obtain ⟨lineIdx, idx⟩ := place
  have hlen : idx + char.length ≤ (state.lines.get lineIdx).length := hocc.length_le hne
  have hpos := length_pos_iff.mpr hne
  change lineIdx ∈ state.loop direction ∧
    idx ∈ columns (state.lines.get lineIdx) (state.searchFrom direction lineIdx) direction ↔
      direction.Past (toLex (state.cursorLine, state.cursorCol)) (toLex (lineIdx, idx)) ∨
        _ ∧ _ ∧ toLex (lineIdx, idx) = toLex (state.cursorLine, state.cursorCol)
  rw [past_toLex, toLex_inj, Prod.mk.injEq, searchFrom.eq_def]
  generalize state.lines.get lineIdx = line at hlen ⊢
  split_ifs with hcur
  · cases direction with
    | forward =>
      simp [loop, columns, Direction.Past, hcur]
      omega
    | backward =>
      simp [loop, columns, Direction.Past, hcur]
      omega
  · cases direction with
    | forward =>
      simp [loop, columns, Direction.Past, hcur]
      omega
    | backward =>
      simp [loop, columns, Direction.Past, hcur]
      omega

theorem moveTo_eq (hmove : state.moveTo place = state) : place = state.cursor := by
  cases state
  obtain ⟨-, hline, hcol⟩ := EditorState.mk.injEq .. ▸ hmove
  exact congrArg toLex (Prod.ext (eq_of_heq hline) hcol)

theorem not_past_self : ¬ direction.Past place place := by cases direction <;> exact lt_irrefl place

theorem not_past_of_past {other : state.Place} (hpast : direction.Past place other) :
    ¬ direction.Past other place := by
  cases direction <;> exact lt_asymm hpast

end EditorState

open EditorState

theorem jumpToChar_state (editor : Editor) (char : JsStr) (direction : Direction) :
    (jumpToChar editor char direction).state =
      ((editor.state.found char direction).map editor.state.moveTo).getD editor.state := by
  rw [jumpToChar]
  cases editor.state.found char direction <;> rfl

/-- The cursor goes to the nearest occurrence unless it stands in the first column, on an occurrence, and another one
lies behind it. -/
theorem jumpToChar_jumps_iff (editor : Editor) (unit : UInt16) (others : JsStr) (direction : Direction) :
    editor.state.Jumps (unit :: others) direction (jumpToChar editor (unit :: others) direction).state ↔
      ¬ (direction = .backward ∧ editor.state.cursorCol = 0 ∧
        editor.state.Occurs (unit :: others) editor.state.cursor ∧
          ∃ place, editor.state.Ahead (unit :: others) .backward place) := by
  have hne := cons_ne_nil unit others
  rw [jumpToChar_state]
  cases hfound : editor.state.found (unit :: others) direction with
  | none =>
    have hnone : ∀ place, ¬ editor.state.Ahead (unit :: others) direction place := fun place hahead =>
      found_eq_none hfound ((visits_iff hne hahead.1).mpr (.inl hahead.2)) hahead.1
    refine iff_of_true ⟨iff_of_true rfl hnone, fun place hahead => absurd hahead (hnone place)⟩ ?_
    rintro ⟨rfl, -, -, place, hahead⟩
    exact hnone place hahead
  | some first =>
    obtain ⟨hocc, hvis, hfirst⟩ := found_eq_some hfound
    rcases (visits_iff hne hocc).mp hvis with hpast | ⟨rfl, hcol, rfl⟩
    · refine iff_of_true ⟨iff_of_false (fun hmove => ?_) fun hnone => hnone first ⟨hocc, hpast⟩, fun place hahead => ?_⟩ ?_
      · exact not_past_self (moveTo_eq hmove ▸ hpast)
      · have hplace := (visits_iff hne hahead.1).mpr (.inl hahead.2)
        exact ⟨first, rfl, ⟨hocc, hpast⟩, hfirst place hplace hahead.1⟩
      · -- The cursor would be visited after the place that was found.
        rintro ⟨rfl, hcol, hcur, -⟩
        rcases hfirst _ ((visits_iff hne hcur).mpr (.inr ⟨rfl, hcol, rfl⟩)) hcur with heq | hback
        · exact not_past_self (heq ▸ hpast)
        · exact not_past_of_past hpast hback
    · constructor
      · rintro hjumps ⟨-, -, -, place, hahead⟩
        exact hjumps.1.mp rfl place hahead
      · intro hnot
        have hnone : ∀ place, ¬ editor.state.Ahead (unit :: others) .backward place := fun place hahead =>
          hnot ⟨rfl, hcol, hocc, place, hahead⟩
        exact ⟨iff_of_true rfl hnone, fun place hahead => absurd hahead (hnone place)⟩

def secondLineEditor : Editor :=
  ⟨⟨[js "x", js "x"], 1, 0⟩, none, none, none⟩

/-- The character in the first line is not found. -/
theorem jumpToChar_clamped : ¬ secondLineEditor.state.Jumps (js "x") .backward
    (jumpToChar secondLineEditor (js "x") .backward).state := by
  intro hjumps
  exact hjumps.1.mp rfl (toLex (⟨0, by decide⟩, 0)) ⟨⟨[], rfl⟩, Prod.Lex.toLex_lt_toLex.mpr (.inl (by decide))⟩

end PiRp.Tui

import PiRp.TuiOverlay

/-! Which columns the base line and the overlay have in the result of `compositeTuiLine`. -/

namespace PiRp.Tui

open List Columns

variable {graphemeWidth : JsStr → ℕ} {getActiveCodes : List JsStr → List JsStr}

/-! ### What the loops keep -/

@[simp] theorem graphemes_nil : graphemes [] = [] := rfl

@[simp] theorem graphemes_ansi (code : JsStr) (rest : Line) : graphemes (.ansi code :: rest) = graphemes rest := rfl

@[simp] theorem graphemes_grapheme (segment : JsStr) (rest : Line) :
    graphemes (.grapheme segment :: rest) = segment :: graphemes rest := rfl

@[simp] theorem graphemes_append (line more : Line) : graphemes (line ++ more) = graphemes line ++ graphemes more :=
  filterMap_append

@[simp] theorem graphemes_ansiCodes (codes : List JsStr) : graphemes (ansiCodes codes) = [] := by
  induction codes with
  | nil => rfl
  | cons code codes ih => exact ih

@[simp] theorem graphemes_blanks (count : ℕ) : graphemes (blanks count) = List.replicate count (js " ") := by
  induction count with
  | zero => rfl
  | succ count ih =>
    rw [blanks, replicate_succ, graphemes_grapheme]
    exact congrArg (js " " :: ·) ih

@[simp] theorem graphemes_segmentReset : graphemes segmentReset = [] := rfl

variable (graphemeWidth) in
/-- A part of a line has these graphemes, and the width that goes with them. -/
def Keeps (text : Line) (width : ℕ) (kept : List (JsStr × ℕ)) : Prop :=
  graphemes text = kept.map Prod.fst ∧ width = extent graphemeWidth (kept.map Prod.fst)

theorem Keeps.nil : Keeps graphemeWidth [] 0 [] := ⟨rfl, rfl⟩

theorem Keeps.ansi {text : Line} {width : ℕ} {kept : List (JsStr × ℕ)} (keeps : Keeps graphemeWidth text width kept)
    (code : JsStr) : Keeps graphemeWidth ([.ansi code] ++ text) (0 + width) kept :=
  ⟨keeps.1, (Nat.zero_add width).trans keeps.2⟩

theorem Keeps.grapheme {text : Line} {width : ℕ} {kept : List (JsStr × ℕ)}
    (keeps : Keeps graphemeWidth text width kept) (codes : List JsStr) (segment : JsStr) (col : ℕ) :
    Keeps graphemeWidth (ansiCodes codes ++ [.grapheme segment] ++ text) (graphemeWidth segment + width)
      ((segment, col) :: kept) := by
  constructor
  · rw [graphemes_append, graphemes_append, graphemes_ansiCodes, keeps.1]
    rfl
  · rw [map_cons, extent_cons, keeps.2]

theorem sliceLoop_keeps (startCol endCol currentCol : ℕ) (pendingAnsi : List JsStr) (line : Line) :
    let slice := sliceLoop graphemeWidth startCol endCol true currentCol pendingAnsi line
    Keeps graphemeWidth slice.text slice.width
      (between graphemeWidth startCol endCol (placed graphemeWidth currentCol (graphemes line))) := by
  induction line generalizing currentCol pendingAnsi with
  | nil => exact Keeps.nil
  | cons token rest ih =>
    cases token with
    | ansi code =>
      rw [sliceLoop, graphemes_ansi]
      split
      · exact (ih currentCol pendingAnsi).ansi code
      · split <;> exact ih currentCol _
    | grapheme segment =>
      rw [graphemes_grapheme, placed, between_cons, sliceLoop]
      have hgoOn : ∀ pendingAnsi,
          let slice := if endCol ≤ currentCol + graphemeWidth segment then ({ text := [], width := 0 } : Slice)
            else sliceLoop graphemeWidth startCol endCol true (currentCol + graphemeWidth segment) pendingAnsi rest
          Keeps graphemeWidth slice.text slice.width (between graphemeWidth startCol endCol
            (placed graphemeWidth (currentCol + graphemeWidth segment) (graphemes rest))) := by
        intro pendingAnsi
        split
        · rw [between_of_le ‹_›]
          exact Keeps.nil
        · exact ih _ pendingAnsi
      by_cases hwit : Within graphemeWidth startCol endCol (segment, currentCol)
      · rw [if_pos hwit]
        simp only [Within] at hwit
        simp only [hwit, true_and, or_true, if_true]
        exact (hgoOn []).grapheme pendingAnsi segment currentCol
      · rw [if_neg hwit]
        simp only [Within] at hwit
        simp only [hwit, Bool.true_eq_false, false_or, if_false]
        exact hgoOn pendingAnsi

theorem sliceWithWidth_keeps (line : Line) (length : ℕ) :
    Keeps graphemeWidth (sliceWithWidth graphemeWidth line 0 length true).text
      (sliceWithWidth graphemeWidth line 0 length true).width
      (between graphemeWidth 0 length (placed graphemeWidth 0 (graphemes line))) := by
  unfold sliceWithWidth
  split
  · rw [between_of_le ‹length ≤ 0›]
    exact Keeps.nil
  · rw [Nat.zero_add]
    exact sliceLoop_keeps 0 length 0 [] line

variable (graphemeWidth) in
/-- The two segments have the graphemes of a row that lie entirely on either side of the overlay. -/
def KeepsSides (beforeEnd afterStart afterEnd : ℕ) (segments : Segments) (row : List (JsStr × ℕ)) : Prop :=
  Keeps graphemeWidth segments.before segments.beforeWidth (between graphemeWidth 0 beforeEnd row) ∧
    Keeps graphemeWidth segments.after segments.afterWidth (between graphemeWidth afterStart afterEnd row)

theorem extractLoop_keeps {beforeEnd afterStart afterEnd : ℕ} (hbef : beforeEnd ≤ afterStart)
    (hafter : afterStart ≤ afterEnd) (currentCol : ℕ) (pendingAnsiBefore codes : List JsStr) (afterStarted : Bool)
    (line : Line) : KeepsSides graphemeWidth beforeEnd afterStart afterEnd
      (extractLoop graphemeWidth getActiveCodes beforeEnd afterStart (afterEnd - afterStart) true currentCol
        pendingAnsiBefore codes afterStarted line) (placed graphemeWidth currentCol (graphemes line)) := by
  have hend : (afterStart + (afterEnd - afterStart) : ℤ) = afterEnd := by omega
  induction line generalizing currentCol pendingAnsiBefore codes afterStarted with
  | nil => exact ⟨Keeps.nil, Keeps.nil⟩
  | cons token rest ih =>
    cases token with
    | ansi code =>
      rw [extractLoop, graphemes_ansi]
      split
      · exact ih currentCol _ _ afterStarted
      · split
        · have h := ih currentCol pendingAnsiBefore (codes ++ [code]) afterStarted
          exact ⟨h.1, h.2.ansi code⟩
        · exact ih currentCol _ _ afterStarted
    | grapheme segment =>
      -- what is left out after the early exit lies behind both ranges
      have hgoOn : ∀ pendingAnsiBefore afterStarted, KeepsSides graphemeWidth beforeEnd afterStart afterEnd
          (if (if (afterEnd - afterStart : ℤ) ≤ 0 then beforeEnd ≤ currentCol + graphemeWidth segment
              else (afterStart + (afterEnd - afterStart) : ℤ) ≤ currentCol + graphemeWidth segment) then
            Segments.none
          else extractLoop graphemeWidth getActiveCodes beforeEnd afterStart (afterEnd - afterStart) true
            (currentCol + graphemeWidth segment) pendingAnsiBefore codes afterStarted rest)
          (placed graphemeWidth (currentCol + graphemeWidth segment) (graphemes rest)) := by
        intro pendingAnsiBefore afterStarted
        have hnext := ih (currentCol + graphemeWidth segment) pendingAnsiBefore codes afterStarted
        split
        · split
          · have hempty : between graphemeWidth afterStart afterEnd
                (placed graphemeWidth (currentCol + graphemeWidth segment) (graphemes rest)) = [] := by
              refine filter_eq_nil_iff.mpr fun p _ hwit => ?_
              have h := of_decide_eq_true hwit
              have := h.1
              have := h.2.1
              omega
            rw [KeepsSides, hempty, between_of_le ‹beforeEnd ≤ _›]
            exact ⟨Keeps.nil, Keeps.nil⟩
          · exact hnext
        · split
          · rw [KeepsSides, between_of_le (by omega), between_of_le (by omega)]
            exact ⟨Keeps.nil, Keeps.nil⟩
          · exact hnext
      rw [graphemes_grapheme, placed, extractLoop, KeepsSides, between_cons, between_cons]
      by_cases hfirst : Within graphemeWidth 0 beforeEnd (segment, currentCol)
      · have hsnd : ¬ Within graphemeWidth afterStart afterEnd (segment, currentCol) := fun hsnd =>
          absurd (hfirst.2.1.trans_le hbef) (not_lt.mpr hsnd.1)
        rw [if_pos hfirst, if_neg hsnd, if_pos hfirst.2]
        exact ⟨(hgoOn [] afterStarted).1.grapheme pendingAnsiBefore segment currentCol, (hgoOn [] afterStarted).2⟩
      · have hfirst' : ¬ (currentCol < beforeEnd ∧ currentCol + graphemeWidth segment ≤ beforeEnd) := fun h =>
          hfirst ⟨Nat.zero_le _, h⟩
        rw [if_neg hfirst, if_neg hfirst']
        by_cases hsnd : Within graphemeWidth afterStart afterEnd (segment, currentCol)
        · have htest : afterStart ≤ currentCol ∧ (currentCol : ℤ) < afterStart + (afterEnd - afterStart) ∧
              (true = false ∨ (currentCol + graphemeWidth segment : ℤ) ≤ afterStart + (afterEnd - afterStart)) := by
            have := hsnd.2.2
            rw [hend]
            exact ⟨hsnd.1, by exact_mod_cast hsnd.2.1, Or.inr (by exact_mod_cast this)⟩
          rw [if_pos hsnd, if_pos htest]
          refine ⟨(hgoOn pendingAnsiBefore true).1, ?_⟩
          cases afterStarted
          · exact (hgoOn pendingAnsiBefore true).2.grapheme (getActiveCodes codes) segment currentCol
          · exact (hgoOn pendingAnsiBefore true).2.grapheme [] segment currentCol
        · have htest : ¬ (afterStart ≤ currentCol ∧ (currentCol : ℤ) < afterStart + (afterEnd - afterStart) ∧
              (true = false ∨ (currentCol + graphemeWidth segment : ℤ) ≤ afterStart + (afterEnd - afterStart))) := by
            rw [hend]
            rintro ⟨hge, hlt, h⟩
            refine hsnd ⟨hge, by exact_mod_cast hlt, ?_⟩
            exact_mod_cast h.resolve_left Bool.true_eq_false_eq_False
          rw [if_neg hsnd, if_neg htest]
          exact hgoOn pendingAnsiBefore afterStarted

/-! ### The composed line -/

/-- A display without its blanks. -/
def shown (row : List (JsStr × ℕ)) : List (JsStr × ℕ) := row.filter fun p => p.1 ≠ js " "

theorem shown_append (row more : List (JsStr × ℕ)) : shown (row ++ more) = shown row ++ shown more :=
  filter_append ..

theorem shown_blanks (col count : ℕ) : shown (placed graphemeWidth col (List.replicate count (js " "))) = [] := by
  refine filter_eq_nil_iff.mpr fun p hp => ?_
  have hmem : p.1 ∈ (placed graphemeWidth col (List.replicate count (js " "))).map Prod.fst := mem_map_of_mem hp
  rw [map_fst_placed] at hmem
  simp [eq_of_mem_replicate hmem]

variable (graphemeWidth)

/-- The graphemes that a line displays, with their columns. -/
def displayed (line : Line) : List (JsStr × ℕ) := placed graphemeWidth 0 (graphemes line)

/-- What is to be seen: the base line's graphemes beside the overlay at their own columns, and between them the
overlay's from the start column on. -/
def expected (baseLine overlayLine : Line) (startCol overlayWidth totalWidth : ℕ) : List (JsStr × ℕ) :=
  between graphemeWidth 0 startCol (displayed graphemeWidth baseLine) ++
    (between graphemeWidth 0 overlayWidth (displayed graphemeWidth overlayLine)).map (fun p => (p.1, p.2 + startCol)) ++
    between graphemeWidth (startCol + overlayWidth) totalWidth (displayed graphemeWidth baseLine)

/-- The overlay does not move the base line. -/
structure Composited (baseLine overlayLine : Line) (startCol overlayWidth totalWidth : ℕ) (result : Line) : Prop where
  inPlace : (expected graphemeWidth baseLine overlayLine startCol overlayWidth totalWidth).Sublist
    (displayed graphemeWidth result)
  /-- all other columns are blank -/
  blank : shown (displayed graphemeWidth result) =
    shown (expected graphemeWidth baseLine overlayLine startCol overlayWidth totalWidth)
  fits : visibleWidth graphemeWidth result ≤ totalWidth

/-- No grapheme is cut by the overlay's right edge, or there is nothing but blanks behind it. -/
def Undisturbed (baseLine : Line) (afterStart totalWidth : ℕ) : Prop :=
  (¬ ∃ p ∈ displayed graphemeWidth baseLine, Straddles graphemeWidth afterStart p) ∨
    ∀ p ∈ between graphemeWidth afterStart totalWidth (displayed graphemeWidth baseLine), p.1 = js " "

variable {graphemeWidth}

theorem between_shifted {start stop : ℕ} (items : List JsStr) :
    ∃ shift taken, between graphemeWidth start stop (placed graphemeWidth 0 items) =
        placed graphemeWidth (start + shift) taken ∧
      (0 < shift ↔ ∃ p ∈ placed graphemeWidth 0 items, Straddles graphemeWidth start p) ∧
      (taken ≠ [] → start + shift + extent graphemeWidth taken ≤ stop) := by
  rcases @between_placed _ _ _ stop _ (Nat.zero_le start) items with
    ⟨hnone, taken, htaken, hext⟩ | ⟨hstr, shift, taken, hshift, htaken, hext⟩
  · exact ⟨0, taken, htaken, iff_of_false (lt_irrefl 0) hnone, fun hne => hext.resolve_left hne⟩
  · exact ⟨shift, taken, htaken, iff_of_true hshift hstr, fun hne => hext.resolve_left hne⟩

/-- The result as its parts: what is kept of the base line and of the overlay, padded to the columns of the overlay. -/
theorem compositeTuiLine_parts (hspace : graphemeWidth (js " ") = 1) (baseLine overlayLine : Line)
    {startCol overlayWidth totalWidth : ℕ} (hwidth : startCol + overlayWidth ≤ totalWidth)
    (himage : isImageLine baseLine = false) : ∃ before overlay after shift beforePad overlayPad afterPad,
      between graphemeWidth 0 startCol (displayed graphemeWidth baseLine) = placed graphemeWidth 0 before ∧
      between graphemeWidth 0 overlayWidth (displayed graphemeWidth overlayLine) = placed graphemeWidth 0 overlay ∧
      between graphemeWidth (startCol + overlayWidth) totalWidth (displayed graphemeWidth baseLine) =
        placed graphemeWidth (startCol + overlayWidth + shift) after ∧
      (0 < shift ↔ ∃ p ∈ displayed graphemeWidth baseLine, Straddles graphemeWidth (startCol + overlayWidth) p) ∧
      extent graphemeWidth before + beforePad = startCol ∧ extent graphemeWidth overlay + overlayPad = overlayWidth ∧
      startCol + overlayWidth + extent graphemeWidth after + afterPad = totalWidth ∧ (after ≠ [] → shift ≤ afterPad) ∧
      graphemes (compositeTuiLine graphemeWidth getActiveCodes baseLine overlayLine startCol overlayWidth totalWidth) =
        before ++ List.replicate beforePad (js " ") ++ overlay ++ List.replicate overlayPad (js " ") ++ after ++
          List.replicate afterPad (js " ") := by
  obtain ⟨before, hbef, hbeforeEnd⟩ := @between_of_ge _ graphemeWidth 0 startCol 0
    (Nat.zero_le 0) (graphemes baseLine)
  obtain ⟨overlay, hover, hoverlayEnd⟩ := @between_of_ge _ graphemeWidth 0 overlayWidth 0
    (Nat.zero_le 0) (graphemes overlayLine)
  obtain ⟨shift, after, hafter, hshift, hafterEnd⟩ := @between_shifted graphemeWidth
    (startCol + overlayWidth) totalWidth (graphemes baseLine)
  have hbeforeWidth : extent graphemeWidth before ≤ startCol := by
    rcases hbeforeEnd with rfl | h
    · exact Nat.zero_le _
    · omega
  have hoverlayWidth : extent graphemeWidth overlay ≤ overlayWidth := by
    rcases hoverlayEnd with rfl | h
    · exact Nat.zero_le _
    · omega
  have hafterWidth : startCol + overlayWidth + extent graphemeWidth after ≤ totalWidth := by
    by_cases hne : after = []
    · subst hne
      exact hwidth
    · have := hafterEnd hne
      omega
  have hsides := @extractLoop_keeps graphemeWidth getActiveCodes _ _ _
    (Nat.le_add_right startCol overlayWidth) hwidth 0 [] [] false baseLine
  rw [KeepsSides, hbef, hafter, Keeps, Keeps, map_fst_placed, map_fst_placed] at hsides
  obtain ⟨⟨hbeforeText, hbeforeExtent⟩, hafterText, hafterExtent⟩ := hsides
  have hslice := @sliceWithWidth_keeps graphemeWidth overlayLine overlayWidth
  rw [hover, Keeps, map_fst_placed] at hslice
  refine ⟨before, overlay, after, shift, startCol - extent graphemeWidth before,
    overlayWidth - extent graphemeWidth overlay,
    totalWidth - (startCol + overlayWidth) - extent graphemeWidth after, hbef, hover, hafter, hshift,
    by omega, by omega, by omega, fun hne => by have := hafterEnd hne; omega, ?_⟩
  have hgrap : ∀ beforePad overlayPad afterPad,
      graphemes ((extractLoop graphemeWidth getActiveCodes startCol (startCol + overlayWidth)
          (totalWidth - (startCol + overlayWidth : ℕ)) true 0 [] [] false baseLine).before ++ blanks beforePad ++
          segmentReset ++ (sliceWithWidth graphemeWidth overlayLine 0 overlayWidth true).text ++ blanks overlayPad ++
          segmentReset ++
          (extractLoop graphemeWidth getActiveCodes startCol (startCol + overlayWidth)
            (totalWidth - (startCol + overlayWidth : ℕ)) true 0 [] [] false baseLine).after ++ blanks afterPad) =
        before ++ List.replicate beforePad (js " ") ++ overlay ++ List.replicate overlayPad (js " ") ++ after ++
          List.replicate afterPad (js " ") := by
    intro beforePad overlayPad afterPad
    simp only [graphemes_append, graphemes_blanks, graphemes_segmentReset, append_nil, hbeforeText, hafterText,
      hslice.1]
  unfold compositeTuiLine extractSegments
  rw [himage, if_neg Bool.false_ne_true]
  simp only [hbeforeExtent, hafterExtent, hslice.2]
  rw [if_pos, hgrap, max_eq_left hbeforeWidth, max_eq_left hoverlayWidth, Nat.sub_sub totalWidth startCol]
  rw [visibleWidth, hgrap]
  simp only [extent_append, extent_replicate hspace, max_eq_left hbeforeWidth, max_eq_left hoverlayWidth]
  omega

theorem shown_map_add (row : List (JsStr × ℕ)) (shift : ℕ) :
    shown (row.map fun p => (p.1, p.2 + shift)) = (shown row).map fun p => (p.1, p.2 + shift) := by
  rw [shown, shown, filter_map]
  rfl

theorem shown_shifted {col shift : ℕ} (hshift : 0 < shift) {items : List JsStr}
    (heq : shown (placed graphemeWidth col items) = shown (placed graphemeWidth (col + shift) items)) :
    shown (placed graphemeWidth (col + shift) items) = [] := by
  rw [placed_add, shown_map_add] at heq ⊢
  cases hshown : shown (placed graphemeWidth col items) with
  | nil => rfl
  | cons p row =>
    rw [hshown, map_cons] at heq
    have := congrArg Prod.snd (List.cons.inj heq).1
    simp only [] at this
    omega

theorem sublist_blanks (hspace : graphemeWidth (js " ") = 1) {col shift count more : ℕ} (hshift : shift ≤ more) :
    (placed graphemeWidth (col + shift) (List.replicate count (js " "))).Sublist
      (placed graphemeWidth col (List.replicate (count + more) (js " "))) := by
  have hsplit : count + more = shift + (count + (more - shift)) := by omega
  rw [hsplit, replicate_add, replicate_add, placed_append, placed_append, extent_replicate hspace]
  exact (sublist_append_left _ _).trans (sublist_append_right _ _)

/-- The overlay does not move the base line, exactly when its right edge cuts no grapheme or there are only blanks
behind it. -/
theorem compositeTuiLine_iff (hspace : graphemeWidth (js " ") = 1) (baseLine overlayLine : Line)
    (startCol overlayWidth totalWidth : ℕ) (hwidth : startCol + overlayWidth ≤ totalWidth)
    (himage : isImageLine baseLine = false) :
    Composited graphemeWidth baseLine overlayLine startCol overlayWidth totalWidth
        (compositeTuiLine graphemeWidth getActiveCodes baseLine overlayLine startCol overlayWidth totalWidth) ↔
      Undisturbed graphemeWidth baseLine (startCol + overlayWidth) totalWidth := by
  obtain ⟨before, overlay, after, shift, beforePad, overlayPad, afterPad, hbef, hover, hafter, hshift,
    hbeforePad, hoverlayPad, hafterPad, hroom, hresult⟩ :=
    @compositeTuiLine_parts graphemeWidth getActiveCodes hspace baseLine overlayLine _ _ _ hwidth himage
  have hexp : expected graphemeWidth baseLine overlayLine startCol overlayWidth totalWidth =
      placed graphemeWidth 0 before ++ placed graphemeWidth startCol overlay ++
        placed graphemeWidth (startCol + overlayWidth + shift) after := by
    rw [expected, hbef, hover, hafter, ← placed_add, Nat.zero_add]
  have hdis : displayed graphemeWidth
      (compositeTuiLine graphemeWidth getActiveCodes baseLine overlayLine startCol overlayWidth totalWidth) =
      placed graphemeWidth 0 before ++
        placed graphemeWidth (extent graphemeWidth before) (List.replicate beforePad (js " ")) ++
        placed graphemeWidth startCol overlay ++
        placed graphemeWidth (startCol + extent graphemeWidth overlay) (List.replicate overlayPad (js " ")) ++
        placed graphemeWidth (startCol + overlayWidth) (after ++ List.replicate afterPad (js " ")) := by
    rw [displayed, hresult, append_assoc _ after]
    simp only [placed_append, extent_append, extent_replicate hspace, Nat.zero_add]
    rw [hbeforePad, show startCol + extent graphemeWidth overlay + overlayPad = startCol + overlayWidth by omega]
  have hshown : shown (displayed graphemeWidth
      (compositeTuiLine graphemeWidth getActiveCodes baseLine overlayLine startCol overlayWidth totalWidth)) =
      shown (placed graphemeWidth 0 before) ++ shown (placed graphemeWidth startCol overlay) ++
        shown (placed graphemeWidth (startCol + overlayWidth) after) := by
    rw [hdis, placed_append]
    simp only [shown_append, shown_blanks, append_nil]
  have hfits : visibleWidth graphemeWidth
      (compositeTuiLine graphemeWidth getActiveCodes baseLine overlayLine startCol overlayWidth totalWidth) ≤
      totalWidth := by
    rw [visibleWidth, hresult]
    simp only [extent_append, extent_replicate hspace]
    omega
  constructor
  · rintro ⟨-, hblank, -⟩
    rw [hshown, hexp, shown_append, shown_append] at hblank
    have hsame := append_cancel_left hblank
    by_cases hstr : 0 < shift
    · right
      intro p hp
      rw [hafter] at hp
      have hnone := filter_eq_nil_iff.mp (shown_shifted hstr hsame) p hp
      simpa using hnone
    · exact Or.inl (hshift.not.mp hstr)
  · intro hund
    have hkept : placed graphemeWidth (startCol + overlayWidth + shift) after = placed graphemeWidth
        (startCol + overlayWidth) after ∨ ∃ count, after = List.replicate count (js " ") := by
      rcases hund with hnone | hblan
      · have hzero : shift = 0 := Nat.eq_zero_of_not_pos (hshift.not.mpr hnone)
        exact Or.inl (by rw [hzero, Nat.add_zero])
      · refine Or.inr ⟨after.length, eq_replicate_iff.mpr ⟨rfl, fun segment hseg => ?_⟩⟩
        rw [hafter] at hblan
        rw [← @map_fst_placed _ graphemeWidth (startCol + overlayWidth + shift) after] at hseg
        obtain ⟨p, hp, rfl⟩ := mem_map.mp hseg
        exact hblan p hp
    refine ⟨?_, ?_, hfits⟩
    · rw [hexp, hdis]
      refine List.Sublist.append (List.Sublist.append (sublist_append_left _ _) (List.Sublist.refl _)
        |>.trans (sublist_append_left _ _)) ?_
      rcases hkept with hkept | ⟨count, hblan⟩
      · rw [hkept, placed_append]
        exact sublist_append_left _ _
      · by_cases hnil : after = []
        · rw [hnil]
          exact nil_sublist _
        · rw [hblan, ← replicate_add]
          exact sublist_blanks hspace (hroom hnil)
    · rw [hshown, hexp, shown_append, shown_append]
      rcases hkept with hkept | ⟨count, hblan⟩
      · rw [hkept]
      · rw [hblan, shown_blanks, shown_blanks]

section Samples

/-- Widths of the graphemes in the samples. -/
def sampleWidth (segment : JsStr) : ℕ := if segment = js "让" then 2 else 1

/-- A wide grapheme that the left edge of the overlay cuts, and a style that goes on behind it. -/
def sampleLine : Line :=
  [.grapheme (js "a"), .grapheme (js "让"), .ansi (js "\x1b[1m"), .grapheme (js "b"), .grapheme (js "c")]

theorem compositeTuiLine_iff_sample : sampleWidth (js " ") = 1 ∧ 2 + 2 ≤ 6 ∧ isImageLine sampleLine = false ∧
      (Composited sampleWidth sampleLine [.grapheme (js "X")] 2 2 6
        (compositeTuiLine sampleWidth id sampleLine [.grapheme (js "X")] 2 2 6) ↔
        Undisturbed sampleWidth sampleLine (2 + 2) 6) :=
  ⟨rfl, by decide, by decide, compositeTuiLine_iff rfl sampleLine [.grapheme (js "X")] 2 2 6 (by decide) (by decide)⟩

/-- The overlay ends inside a wide grapheme: what follows it is displayed one column too far to the left. -/
theorem cut_moves : ¬ ∀ (baseLine overlayLine : Line) (startCol overlayWidth totalWidth : ℕ),
    startCol + overlayWidth ≤ totalWidth → isImageLine baseLine = false →
    Composited sampleWidth baseLine overlayLine startCol overlayWidth totalWidth
      (compositeTuiLine sampleWidth id baseLine overlayLine startCol overlayWidth totalWidth) := by
  intro h
  have hcom := h [.grapheme (js "让"), .grapheme (js "E")] [.grapheme (js "X")] 0 1 3 (by decide) (by decide)
  exact absurd hcom.blank (by decide +kernel)

end Samples

end PiRp.Tui

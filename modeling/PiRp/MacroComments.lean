import PiRp.MacroEngine

/-! Comments among macros. A comment that the expander reaches outside of other macros writes nothing, and what
stands around it is read the same whatever balanced text it holds. The macros inside it are expanded, though, so
that it is inert only when they change nothing that is read later. -/

namespace PiRp.Macros

open List

variable {ω : Type}

/-! ### The scan -/

section Scan

variable {depth : Nat} {text rest rawContent after : JsStr}

theorem scan_open : scan depth (leftBrace :: leftBrace :: rest) =
    (scan (depth + 1) rest).map fun found => (leftBrace :: leftBrace :: found.1, found.2) := by
  rw [scan, if_pos ⟨rfl, rfl⟩]

theorem scan_close_succ : scan (depth + 1) (rightBrace :: rightBrace :: rest) =
    (scan depth rest).map fun found => (rightBrace :: rightBrace :: found.1, found.2) := by
  rw [scan, if_neg (by decide), if_pos ⟨rfl, rfl⟩, if_neg (Nat.succ_ne_zero depth), Nat.add_sub_cancel]

theorem scan_skip {unit next : UInt16} (hopen : ¬ (unit = leftBrace ∧ next = leftBrace))
    (hclose : ¬ (unit = rightBrace ∧ next = rightBrace)) : scan depth (unit :: next :: rest) =
      (scan depth (next :: rest)).map fun found => (unit :: found.1, found.2) := by
  rw [scan, if_neg hopen, if_neg hclose]

theorem scan_append (hscan : scan depth text = some (rawContent, after)) (following : JsStr) :
    scan depth (text ++ following) = some (rawContent, after ++ following) := by
  replace hscan := Scans.of_scan hscan
  induction hscan with
  | opened hscans ih =>
    rw [cons_append, cons_append, scan_open, ih]
    rfl
  | last after => rfl
  | closed hscans ih =>
    rw [cons_append, cons_append, scan_close_succ, ih]
    rfl
  | skipped hopen hclose hscans ih =>
    rw [cons_append] at ih
    rw [cons_append, cons_append, scan_skip hopen hclose, ih]
    rfl

theorem scan_shift (hscan : scan depth text = some (rawContent, after)) (outer : Nat) :
    scan (depth + outer + 1) text = (scan outer after).map fun found =>
      (rawContent ++ rightBrace :: rightBrace :: found.1, found.2) := by
  replace hscan := Scans.of_scan hscan
  induction hscan with
  | @opened depth rest rawContent after hscans ih =>
    rw [scan_open, show depth + outer + 1 + 1 = depth + 1 + outer + 1 by omega, ih, Option.map_map]
    rfl
  | last after =>
    rw [Nat.zero_add, scan_close_succ]
    rfl
  | @closed depth rest rawContent after hscans ih =>
    rw [scan_close_succ, show depth + 1 + outer = depth + outer + 1 by omega, ih, Option.map_map]
    rfl
  | skipped hopen hclose hscans ih =>
    rw [scan_skip hopen hclose, ih, Option.map_map]
    rfl

end Scan

/-! ### Comments -/

/-- The braces of a text are balanced, also where it is followed by the end of a region. -/
def Balanced (body : JsStr) : Prop := scan 0 (body ++ [rightBrace, rightBrace]) = some (body, [])

instance (body : JsStr) : Decidable (Balanced body) :=
  inferInstanceAs (Decidable (scan 0 (body ++ [rightBrace, rightBrace]) = some (body, [])))

/-- A comment and what follows it, without the braces that open it. -/
def commentTail (body after : JsStr) : JsStr := js "//" ++ body ++ rightBrace :: rightBrace :: after

/-- A comment and what follows it. -/
def comment (body after : JsStr) : JsStr := leftBrace :: leftBrace :: commentTail body after

theorem scan_commentTail {body : JsStr} (hbal : Balanced body) (after : JsStr) :
    scan 0 (commentTail body after) = some (js "//" ++ body, after) := by
  have hbody : scan 0 (body ++ rightBrace :: rightBrace :: after) = some (body, after) := by
    have hfol := scan_append hbal after
    rwa [append_assoc] at hfol
  have hslash : ∀ text : JsStr,
      scan 0 (0x2F :: text) = (scan 0 text).map fun found => (0x2F :: found.1, found.2) := by
    intro text
    cases text with
    | nil => rfl
    | cons next text =>
      exact scan_skip (fun hopen => absurd hopen.1 (by decide)) fun hclose => absurd hclose.1 (by decide)
  have hmark : js "//" = [0x2F, 0x2F] := by decide
  rw [commentTail, hmark, append_assoc, cons_append, cons_append, nil_append, hslash, hslash, hbody]
  rfl

/-- Scans of the same front that end in it, or that go on alike behind the comment. -/
def Agree (body other after : JsStr) (first second : Option (JsStr × JsStr)) : Prop :=
  (∃ rawContent rest, first = some (rawContent, rest ++ comment body after) ∧
      second = some (rawContent, rest ++ comment other after)) ∨
    ∃ depth, first.map Prod.snd = (scan depth after).map Prod.snd ∧
      second.map Prod.snd = (scan depth after).map Prod.snd

theorem Agree.cons {body other after : JsStr} {first second : Option (JsStr × JsStr)}
    (hagree : Agree body other after first second) (read : JsStr) :
    Agree body other after (first.map fun found => (read ++ found.1, found.2))
      (second.map fun found => (read ++ found.1, found.2)) := by
  rcases hagree with ⟨rawContent, rest, rfl, rfl⟩ | ⟨depth, hfirst, hsnd⟩
  · exact .inl ⟨read ++ rawContent, rest, rfl, rfl⟩
  · refine .inr ⟨depth, ?_, ?_⟩
    · rw [← hfirst, Option.map_map]
      rfl
    · rw [← hsnd, Option.map_map]
      rfl

theorem scan_comment {body : JsStr} (hbal : Balanced body) (depth : Nat) (after : JsStr) :
    (scan (depth + 1) (commentTail body after)).map Prod.snd = (scan depth after).map Prod.snd := by
  have hshift := scan_shift (scan_commentTail hbal after) depth
  rw [Nat.zero_add] at hshift
  rw [hshift, Option.map_map]
  rfl

theorem scan_agree {body other : JsStr} (hbody : Balanced body) (hother : Balanced other) (depth : Nat)
    (front after : JsStr) :
    Agree body other after (scan depth (front ++ comment body after)) (scan depth (front ++ comment other after)) := by
  have hcom : ∀ body depth, Balanced body →
      (scan depth (comment body after)).map Prod.snd = (scan depth after).map Prod.snd := by
    intro body depth hbal
    rw [comment, scan_open, Option.map_map, ← scan_comment hbal]
    rfl
  -- A brace in front of the comment pairs with its first brace, and the scan is one unit behind.
  have hunit : ∀ body depth unit, Balanced body →
      (scan depth (unit :: comment body after)).map Prod.snd = (scan depth after).map Prod.snd := by
    intro body depth unit hbal
    by_cases hbrace : unit = leftBrace
    · have hslash : ∃ rest, commentTail body after = 0x2F :: rest := ⟨_, rfl⟩
      obtain ⟨rest, hrest⟩ := hslash
      have hcom := scan_comment hbal depth after
      rw [hrest] at hcom
      rw [hbrace, comment, hrest, scan_open, Option.map_map, scan_skip (fun hopen => absurd hopen.2 (by decide))
        (fun hclose => absurd hclose.1 (by decide)), Option.map_map, ← hcom]
      rfl
    · rw [← hcom body depth hbal, comment, scan_skip (fun hopen => hbrace hopen.1)
        (fun hclose => absurd hclose.2 (by decide)), Option.map_map]
      rfl
  induction depth, front using scan.induct with
  | case1 depth => exact .inr ⟨depth, hcom body depth hbody, hcom other depth hother⟩
  | case2 depth unit => exact .inr ⟨depth, hunit body depth unit hbody, hunit other depth unit hother⟩
  | case3 depth unit next rest hopen ih =>
    simp only [cons_append, scan, if_pos hopen]
    exact ih.cons [unit, next]
  | case4 unit next rest hopen hclose =>
    simp only [cons_append, scan, if_neg hopen, if_pos hclose, if_true]
    exact .inl ⟨[], rest, rfl, rfl⟩
  | case5 depth unit next rest hopen hclose hdepth ih =>
    simp only [cons_append, scan, if_neg hopen, if_pos hclose, if_neg hdepth]
    exact ih.cons [unit, next]
  | case6 depth unit next rest hopen hclose ih =>
    simp only [cons_append, scan, if_neg hopen, if_neg hclose]
    exact ih.cons [unit]

/-! ### Reaching a comment -/

/-- The expander comes to the comment outside of other macros: it starts with the front in one state, and when it
reaches the comment it has written a text and is in another state. -/
inductive Reaches (env : Env ω) (body after : JsStr) : JsStr → State ω → JsStr → State ω → Prop where
  | here (state : State ω) : Reaches env body after [] state [] state
  | unit {unit : UInt16} {front written : JsStr} {state last : State ω}
      (hplain : afterOpening (unit :: (front ++ comment body after)) = none)
      (hreac : Reaches env body after front state written last) :
      Reaches env body after (unit :: front) state (unit :: written) last
  | unclosed {front written : JsStr} {state last : State ω} (hscan : scan 0 (front ++ comment body after) = none)
      (hreac : Reaches env body after front state written last) :
      Reaches env body after (leftBrace :: leftBrace :: front) state (leftBrace :: leftBrace :: written) last
  | kept {front rawContent rest written : JsStr} {state last : State ω}
      (hscan : scan 0 (front ++ comment body after) = some (rawContent, rest ++ comment body after))
      (hkeeps : keepsNested env rawContent = true)
      (hreac : Reaches env body after rest (state.report .warning (nestedMessage rawContent)) written last) :
      Reaches env body after (leftBrace :: leftBrace :: front) state (braced rawContent ++ written) last
  | region {front rawContent rest written : JsStr} {state last : State ω}
      (hscan : scan 0 (front ++ comment body after) = some (rawContent, rest ++ comment body after))
      (hexp : keepsNested env rawContent = false)
      (hreac : Reaches env body after rest
        (resolve env rawContent (processText env rawContent state).1 (processText env rawContent state).2).2
        written last) :
      Reaches env body after (leftBrace :: leftBrace :: front) state
        ((resolve env rawContent (processText env rawContent state).1 (processText env rawContent state).2).1 ++
          written) last

/-! ### One round of the expander -/

section Rounds

variable (env : Env ω) {state : State ω}

theorem afterOpening_pair (unit next : UInt16) (rest : JsStr) :
    afterOpening (unit :: next :: rest) = if unit = leftBrace ∧ next = leftBrace then some rest else none := by
  have hstar : [leftBrace, leftBrace].isPrefixOf (unit :: next :: rest) = true ↔
      unit = leftBrace ∧ next = leftBrace := by
    rw [ isPrefixOf_iff_prefix, cons_prefix_cons, cons_prefix_cons, eq_comm, eq_comm (b := next)]
    exact and_congr_right fun _ => and_iff_left ( nil_prefix)
  rw [afterOpening]
  exact if_congr hstar rfl rfl

theorem afterOpening_braces (rest : JsStr) : afterOpening (leftBrace :: leftBrace :: rest) = some rest := by
  rw [afterOpening_pair, if_pos ⟨rfl, rfl⟩]

theorem processText_unit {unit : UInt16} {rest : JsStr} (hplain : afterOpening (unit :: rest) = none) :
    processText env (unit :: rest) state =
      (unit :: (processText env rest state).1, (processText env rest state).2) := by
  rw [processText]
  split
  · rename_i hopening
    cases hopening.symm.trans hplain
  · rfl

theorem processText_unclosed {rest : JsStr} (hscan : scan 0 rest = none) :
    processText env (leftBrace :: leftBrace :: rest) state =
      (leftBrace :: leftBrace :: (processText env rest state).1, (processText env rest state).2) := by
  rw [processText]
  split
  · rename_i hopening
    obtain rfl := Option.some.inj ((afterOpening_braces rest).symm.trans hopening)
    split
    · rename_i hfound
      cases hscan.symm.trans hfound
    · rfl
  · rename_i hopening
    cases (afterOpening_braces rest).symm.trans hopening

theorem processText_scanned {inside rawContent rest : JsStr} (hscan : scan 0 inside = some (rawContent, rest)) :
    processText env (leftBrace :: leftBrace :: inside) state =
      if keepsNested env rawContent = true then
        (braced rawContent ++ (processText env rest (state.report .warning (nestedMessage rawContent))).1,
          (processText env rest (state.report .warning (nestedMessage rawContent))).2)
      else
        let expanded := processText env rawContent state
        let region := resolve env rawContent expanded.1 expanded.2
        (region.1 ++ (processText env rest region.2).1, (processText env rest region.2).2) := by
  rw [processText]
  split
  · rename_i hopening
    obtain rfl := Option.some.inj ((afterOpening_braces inside).symm.trans hopening)
    split
    · rename_i hfound
      cases hscan.symm.trans hfound
      rfl
    · rename_i hnone
      cases hscan.symm.trans hnone
  · rename_i hopening
    cases (afterOpening_braces inside).symm.trans hopening

theorem processText_region {inside rawContent rest : JsStr} (hscan : scan 0 inside = some (rawContent, rest))
    (hexp : keepsNested env rawContent = false) : processText env (leftBrace :: leftBrace :: inside) state =
      let expanded := processText env rawContent state
      let region := resolve env rawContent expanded.1 expanded.2
      (region.1 ++ (processText env rest region.2).1, (processText env rest region.2).2) := by
  rw [processText_scanned env hscan, if_neg (Bool.eq_false_iff.mp hexp)]

theorem rounds_induction {motive : JsStr → Prop} (nil : motive [])
    (unit : ∀ unit rest, afterOpening (unit :: rest) = none → motive rest → motive (unit :: rest))
    (unclosed : ∀ rest, scan 0 rest = none → motive rest → motive (leftBrace :: leftBrace :: rest))
    (region : ∀ inside rawContent rest, scan 0 inside = some (rawContent, rest) → motive rawContent → motive rest →
      motive (leftBrace :: leftBrace :: inside)) (input : JsStr) : motive input := by
  induction hlen : input.length using Nat.strong_induction_on generalizing input with
  | h length ih =>
    cases input with
    | nil => exact nil
    | cons first rest =>
      rw [length_cons] at hlen
      cases hopening : afterOpening (first :: rest) with
      | none => exact unit first rest hopening (ih rest.length (by omega) rest rfl)
      | some inside =>
        obtain ⟨rfl, rfl⟩ := List.cons.inj (eq_of_afterOpening hopening)
        rw [length_cons] at hlen
        cases hscan : scan 0 inside with
        | none => exact unclosed inside hscan (ih inside.length (by omega) inside rfl)
        | some found =>
          have hparts := congrArg List.length (eq_of_scan hscan)
          rw [length_append, length_cons, length_cons] at hparts
          exact region inside found.1 found.2 hscan (ih found.1.length (by omega) found.1 rfl)
            (ih found.2.length (by omega) found.2 rfl)

end Rounds

/-! ### Another body -/

section Replacement

variable {env : Env ω} {body other after front : JsStr} {state last : State ω} {written : JsStr}

theorem Agree.of_rest {first second : Option (JsStr × JsStr)} (hagree : Agree body other after first second)
    {rawContent rest : JsStr} (hfirst : first = some (rawContent, rest ++ comment body after)) :
    second = some (rawContent, rest ++ comment other after) := by
  rcases hagree with ⟨found, between, hleft, hright⟩ | ⟨depth, hleft, -⟩
  · rw [hfirst, Option.some.injEq, Prod.mk.injEq, append_cancel_right_eq] at hleft
    rw [hright, hleft.1, hleft.2]
  · rw [hfirst] at hleft
    cases hscan : scan depth after with
    | none => rw [hscan] at hleft; exact nomatch hleft
    | some found =>
      rw [hscan] at hleft
      have hlen := congrArg List.length (eq_of_scan hscan)
      have hrest := congrArg List.length (Option.some.inj hleft)
      simp only [comment, commentTail, length_append, length_cons] at hlen hrest
      omega

theorem Agree.of_none {first second : Option (JsStr × JsStr)} (hagree : Agree body other after first second)
    (hfirst : first = none) : second = none := by
  rcases hagree with ⟨found, between, hleft, -⟩ | ⟨depth, hleft, hright⟩
  · exact nomatch hfirst.symm.trans hleft
  · rw [hfirst] at hleft
    rw [← Option.map_eq_none_iff, hright, ← hleft]
    rfl

theorem Reaches.replace (hbody : Balanced body) (hother : Balanced other)
    (hreac : Reaches env body after front state written last) : Reaches env other after front state written last := by
  induction hreac with
  | here state => exact .here state
  | @unit unit front written state last hplain hreac ih =>
    refine .unit ?_ ih
    cases front with
    | nil =>
      rw [nil_append, comment, afterOpening_pair] at hplain ⊢
      split_ifs at hplain ⊢
      rfl
    | cons next front =>
      rw [cons_append, afterOpening_pair] at hplain ⊢
      split_ifs at hplain ⊢
      rfl
  | unclosed hscan hreac ih => exact .unclosed ((scan_agree hbody hother 0 _ after).of_none hscan) ih
  | kept hscan hkeeps hreac ih => exact .kept ((scan_agree hbody hother 0 _ after).of_rest hscan) hkeeps ih
  | region hscan hexp hreac ih =>
    exact .region ((scan_agree hbody hother 0 _ after).of_rest hscan) hexp ih

theorem Reaches.processText (hreac : Reaches env body after front state written last) :
    Macros.processText env (front ++ comment body after) state =
      (written ++ (Macros.processText env (comment body after) last).1,
        (Macros.processText env (comment body after) last).2) := by
  induction hreac with
  | here state => rfl
  | unit hplain hreac ih =>
    rw [cons_append, processText_unit env hplain, ih]
    rfl
  | unclosed hscan hreac ih =>
    rw [cons_append, cons_append, processText_unclosed env hscan, ih]
    rfl
  | kept hscan hkeeps hreac ih =>
    rw [cons_append, cons_append, processText_scanned env hscan, if_pos hkeeps, ih, append_assoc]
  | region hscan hexp hreac ih =>
    rw [cons_append, cons_append, processText_region env hscan hexp]
    dsimp only
    rw [ih, append_assoc]

theorem resolve_comment (rawContent content : JsStr) (state : State ω) :
    resolve env rawContent (js "//" ++ content) state = ([], state) := by
  have hstar : JsStr.startsWith (js "//" ++ content) (js "//") = true :=
    isPrefixOf_iff_prefix.mpr (prefix_append _ _)
  rw [resolve, if_pos hstar]

theorem processText_comment (hbody : Balanced body) : Macros.processText env (comment body after) state =
      Macros.processText env after (Macros.processText env body state).2 := by
  have hkeeps : keepsNested env (js "//" ++ body) = false := by
    have hmatch : matchCall (js "//" ++ body) = none := rfl
    rw [keepsNested, hmatch, Option.any_none, Bool.and_false]
  have hslash : ∀ (text : JsStr), Macros.processText env (0x2F :: text) state =
      (0x2F :: (Macros.processText env text state).1, (Macros.processText env text state).2) := by
    intro text
    refine processText_unit env ?_
    cases text with
    | nil => rfl
    | cons next text => rw [afterOpening_pair, if_neg fun hopen => absurd hopen.1 (by decide)]
  have hmark : js "//" ++ body = 0x2F :: 0x2F :: body := rfl
  have hcont : Macros.processText env (js "//" ++ body) state =
      (js "//" ++ (Macros.processText env body state).1, (Macros.processText env body state).2) := by
    rw [hmark, hslash, hslash]
    rfl
  rw [comment, processText_region env (scan_commentTail hbody after) hkeeps, hcont]
  dsimp only
  rw [resolve_comment]
  rfl

end Replacement

/-! ### What a comment may do -/

/-- A static call without macros in it that renders a value in every state and changes nothing. -/
def Settled (env : Env ω) (rawContent value : JsStr) : Prop :=
  includes [leftBrace, leftBrace] rawContent = false ∧ ∃ name params called,
    matchCall rawContent = some (name, params) ∧ getMacro env name = some called ∧ called.isStatic = true ∧
    ∀ memory, called.render memory params = (value, memory)

/-- A snapshot that holds settled calls in addition. -/
def Extends (env : Env ω) (first second : JsMap JsStr JsStr) : Prop :=
  ∀ rawContent, second.get? rawContent = first.get? rawContent ∨
    first.get? rawContent = none ∧ ∃ value, second.get? rawContent = some value ∧ Settled env rawContent value

/-- What was changed makes no difference to what is expanded later: the memory is the same, and the snapshot has
only settled calls in addition. -/
structure Harmless (env : Env ω) (first second : State ω) : Prop where
  memory : second.memory = first.memory
  snapshot : Option.Rel (Extends env) first.snapshot second.snapshot

theorem Harmless.refl (env : Env ω) (state : State ω) : Harmless env state state where
  memory := rfl
  snapshot := by
    cases state.snapshot with
    | none => exact .none
    | some entries => exact .some fun _ => .inl rfl

theorem Harmless.report {env : Env ω} {first second : State ω} (hhar : Harmless env first second) (level : Level)
    (message : JsStr) : Harmless env (first.report level message) (second.report level message) :=
  { hhar with }

section Simulation

variable {env : Env ω} {first second : State ω} {rawContent : JsStr}

theorem processText_plain {text : JsStr} (hplain : includes [leftBrace, leftBrace] text = false) (state : State ω) :
    processText env text state = (text, state) := by
  induction text with
  | nil => rw [processText]
  | cons unit rest ih =>
    rw [includes, JsStr.indexOf] at hplain
    split_ifs at hplain with hstar
    · cases hplain
    · rw [Option.isSome_map] at hplain
      rw [processText_unit env (by rw [afterOpening, if_neg hstar]), ih hplain]

theorem renderCall_harmless (hhar : Harmless env first second) {called : Macro ω} {name : JsStr}
    {params : Option JsStr} (hcal : getMacro env name = some called)
    (hraw : includes [leftBrace, leftBrace] rawContent = false → matchCall rawContent = some (name, params)) :
    (renderCall called rawContent params second).1 = (renderCall called rawContent params first).1 ∧
      Harmless env (renderCall called rawContent params first).2 (renderCall called rawContent params second).2 := by
  obtain ⟨memory, snapshot, diagnostics⟩ := first
  obtain ⟨_, others, reported⟩ := second
  obtain ⟨rfl, hsnap⟩ := hhar
  rw [renderCall, renderCall]
  cases hstat : called.isStatic with
  | false => exact ⟨rfl, rfl, hsnap⟩
  | true =>
    cases hsnap with
    | none => exact ⟨rfl, rfl, .none⟩
    | @some entries more hext =>
      simp only [if_true]
      rcases hext rawContent with hsame | ⟨hnone, value, hvalue, hsett⟩
      · rw [hsame]
        cases hentry : entries.get? rawContent with
        | some value => exact ⟨rfl, rfl, .some hext⟩
        | none =>
          refine ⟨rfl, rfl, .some fun other => ?_⟩
          rw [JsMap.get?_set, JsMap.get?_set]
          split_ifs
          · exact .inl rfl
          · exact hext other
      · -- The value is taken from one snapshot and rendered for the other one.
        obtain ⟨hplain, found, others, other, hmatch, hother, -, hren⟩ := hsett
        obtain ⟨rfl, rfl⟩ := Prod.mk.inj (Option.some.inj ((hraw hplain).symm.trans hmatch))
        obtain rfl := Option.some.inj (hcal.symm.trans hother)
        rw [hnone, hvalue]
        dsimp only
        rw [hren]
        refine ⟨rfl, rfl, .some fun key => ?_⟩
        rw [JsMap.get?_set]
        split_ifs with hkey
        · exact .inl (hkey ▸ hvalue)
        · exact hext key

theorem resolve_harmless (hhar : Harmless env first second) (rawContent expandedContent : JsStr)
    (hraw : includes [leftBrace, leftBrace] rawContent = false → expandedContent = rawContent) :
    (resolve env rawContent expandedContent second).1 = (resolve env rawContent expandedContent first).1 ∧
      Harmless env (resolve env rawContent expandedContent first).2
        (resolve env rawContent expandedContent second).2 := by
  rw [resolve, resolve]
  split_ifs with hcom
  · exact ⟨rfl, hhar⟩
  · cases hmatch : matchCall expandedContent with
    | none => exact ⟨rfl, hhar⟩
    | some call =>
      obtain ⟨name, params⟩ := call
      dsimp only
      cases hcal : getMacro env name with
      | some called =>
        dsimp only
        split_ifs
        · exact renderCall_harmless hhar hcal fun hplain => hraw hplain ▸ hmatch
        · exact ⟨rfl, hhar⟩
      | none =>
        dsimp only
        rw [hhar.memory]
        cases first.memory.vars.read name with
        | some value => exact ⟨rfl, hhar⟩
        | none =>
          refine ⟨rfl, ?_⟩
          cases env.unresolvedPolicy with
          | keep => exact hhar
          | warn => exact hhar.report _ _
          | error => exact hhar.report _ _

/-- **What is harmless stays without effect**: from states whose difference is harmless the same text is written,
and the difference stays harmless. -/
theorem processText_harmless (input : JsStr) {first second : State ω} (hhar : Harmless env first second) :
    (processText env input second).1 = (processText env input first).1 ∧
      Harmless env (processText env input first).2 (processText env input second).2 := by
  induction input using rounds_induction generalizing first second with
  | nil => rw [processText, processText]; exact ⟨rfl, hhar⟩
  | unit unit rest hopening ih =>
    obtain ⟨htext, hstate⟩ := ih hhar
    rw [processText_unit env hopening, processText_unit env hopening, htext]
    exact ⟨rfl, hstate⟩
  | unclosed rest hscan ih =>
    obtain ⟨htext, hstate⟩ := ih hhar
    rw [processText_unclosed env hscan, processText_unclosed env hscan, htext]
    exact ⟨rfl, hstate⟩
  | region inside rawContent rest hscan ihcontent ih =>
    cases hkeeps : keepsNested env rawContent with
    | true =>
      obtain ⟨htext, hstate⟩ := ih (hhar.report .warning (nestedMessage rawContent))
      rw [processText_scanned env hscan, if_pos hkeeps, processText_scanned env hscan, if_pos hkeeps, htext]
      exact ⟨rfl, hstate⟩
    | false =>
      obtain ⟨hexpan, hcont⟩ := ihcontent hhar
      have hplain : includes [leftBrace, leftBrace] rawContent = false →
          (processText env rawContent first).1 = rawContent := fun hplain => by rw [processText_plain hplain]
      obtain ⟨hwrt, hreg⟩ := resolve_harmless hcont rawContent (processText env rawContent first).1 hplain
      obtain ⟨htext, hstate⟩ := ih hreg
      rw [processText_region env hscan hkeeps, processText_region env hscan hkeeps]
      dsimp only
      rw [hexpan, hwrt, htext]
      exact ⟨rfl, hstate⟩

end Simulation

/-! ### Inert comments -/

section Inert

variable {env : Env ω} {body other after front : JsStr} {state last : State ω} {written : JsStr}

theorem harmless_plain (hplain : includes [leftBrace, leftBrace] body = false) (state : State ω) :
    Harmless env state (processText env body state).2 := by
  rw [processText_plain hplain]
  exact Harmless.refl env state

theorem processText_harmless_comment (after : JsStr) (hbody : Balanced body)
    (hhar : Harmless env last (processText env body last).2) :
    (processText env (comment body after) last).1 = (processText env after last).1 ∧
      Harmless env (processText env after last).2 (processText env (comment body after) last).2 := by
  rw [processText_comment hbody]
  exact processText_harmless after hhar

/-- **Harmless comments are inert**: a comment outside of other macros can hold any other balanced text, as long as
what the macros in the texts do is harmless where the comment is reached. -/
theorem comments_inert (hbody : Balanced body) (hother : Balanced other)
    (hreac : Reaches env body after front state written last) (hhar : Harmless env last (processText env body last).2)
    (hhar' : Harmless env last (processText env other last).2) :
    outcome env (front ++ comment other after) state = outcome env (front ++ comment body after) state := by
  obtain ⟨htext, hstate⟩ := processText_harmless_comment after hbody hhar
  obtain ⟨htext', hstate'⟩ := processText_harmless_comment after hother hhar'
  rw [outcome, outcome, expandMacros, expandMacros, hreac.processText, (hreac.replace hbody hother).processText]
  dsimp only
  rw [htext, htext', hstate.memory, hstate'.memory]

end Inert

section Samples

def sampleEnv : Env Unit where
  runtime := ⟨⟨2026, 9, 15, 10, 20, 30⟩, js "/work", none, none⟩
  customMacros _ := none
  mode := .all
  unresolvedPolicy := .keep

def sampleState : State Unit := ⟨⟨.empty, ()⟩, none, []⟩

/-- The comment sets a variable that is read behind it. -/
theorem comment_writes : Balanced [] ∧ Balanced (braced (js "setvar::x::1")) ∧
    Reaches sampleEnv [] (braced (js "getvar::x")) [] sampleState [] sampleState ∧
    outcome sampleEnv (comment [] (braced (js "getvar::x"))) sampleState = ([], .empty) ∧
    (outcome sampleEnv (comment (braced (js "setvar::x::1")) (braced (js "getvar::x"))) sampleState).1 = js "1" := by
  refine ⟨?_, ?_, .here _, ?_, ?_⟩ <;> decide +kernel

theorem comments_inert_sample : outcome sampleEnv (js "a" ++ comment (braced (js "user")) (js "b")) sampleState =
      outcome sampleEnv (js "a" ++ comment (js "note") (js "b")) sampleState := by
  have huser : (processText sampleEnv (braced (js "user")) sampleState).2 = sampleState := by decide +kernel
  exact comments_inert (by decide +kernel) (by decide +kernel)
    (.unit (by decide +kernel) (.here sampleState)) (harmless_plain (by decide +kernel) _)
    (by rw [huser]; exact Harmless.refl _ _)

end Samples

end PiRp.Macros

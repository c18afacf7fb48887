import PiRp.JsonTextTrailing
import PiRp.SessionInfoScan

/-! When the two scans of a session file agree. They read the same lines: decoding a file and cutting it at its
line breaks commute, a carriage return at the end of a line is no part of its JSON text, and a line of white
space has none. Behind the header they differ on a line that throws, on one whose role the byte scan takes from
elsewhere or without parsing, and on one that looks like a header but is none. -/

namespace PiRp.Manager

open List JsonText Utf8

variable [Conversions] [NumberText]

namespace SessionScan

/-! ### Lines -/

omit [Conversions] [NumberText] in
theorem toNat_of_isWhitespace {unit : UInt16} (hunit : JsStr.isWhitespace unit = true) :
    unit.toNat ≤ 0x20 ∨ 0xa0 ≤ unit.toNat := by
  simp only [JsStr.isWhitespace, Bool.or_eq_true, Bool.and_eq_true, decide_eq_true_eq, or_assoc] at hunit
  rcases hunit with rfl | rfl | rfl | rfl | rfl | rfl | rfl | rfl | hrange | rfl | rfl | rfl | rfl | rfl | rfl
  all_goals first
    | decide
    | omega

omit [Conversions] in
theorem parse_of_whitespace {text : JsStr} (hblank : ∀ unit ∈ text, JsStr.isWhitespace unit = true) :
    parse text = none := by
  rw [parse, parseValue]
  cases hskip : skipWhitespace text with
  | nil => rfl
  | cons unit rest =>
    have hmem : unit ∈ text := by
      refine (dropWhile_suffix JsonText.isWhitespace).subset ?_
      rw [show List.dropWhile JsonText.isWhitespace text = unit :: rest from hskip]
      exact mem_cons_self
    have hunit := hblank unit hmem
    have hnot : unit ≠ quoteMark ∧ unit ≠ openBracket ∧ unit ≠ openBrace ∧
        unit ≠ 0x2d ∧ isDigit unit = false ∧ unit ≠ 0x6e ∧ unit ≠ 0x74 ∧ unit ≠ 0x66 := by
      have hrange := toNat_of_isWhitespace hunit
      have hdigit : isDigit unit = false := by
        rw [isDigit, Bool.and_eq_false_iff, decide_eq_false_iff_not, decide_eq_false_iff_not]
        omega
      refine ⟨?_, ?_, ?_, ?_, hdigit, ?_, ?_, ?_⟩
      all_goals
        rintro rfl
        exact absurd hrange (by decide)
    obtain ⟨hquote, hbrac, hbrace, hminus, hdigit, hnull, htrue, hfalse⟩ := hnot
    simp only [if_neg hquote, if_neg hbrac, if_neg hbrace, hdigit, if_neg hnull, if_neg htrue, if_neg hfalse,
      hminus, decide_false, Bool.or_false, Bool.false_eq_true, if_false]

omit [Conversions] in
theorem parse_of_trim {text : JsStr} (htrim : JsStr.trim text = []) : parse text = none := by
  have hdrop : (text.dropWhile JsStr.isWhitespace).reverse.dropWhile JsStr.isWhitespace = [] :=
    reverse_eq_nil_iff.mp htrim
  have hfront : text.dropWhile JsStr.isWhitespace = [] := by
    cases hfront : text.dropWhile JsStr.isWhitespace with
    | nil => rfl
    | cons unit rest =>
      -- The first unit that is kept is no white space, wherever the end is cut.
      have hunit : JsStr.isWhitespace unit = false := by
        have hhead := head_dropWhile_not JsStr.isWhitespace (by rw [hfront]; exact cons_ne_nil _ _)
        simpa [hfront] using hhead
      rw [hfront, dropWhile_eq_nil_iff] at hdrop
      rw [hdrop unit (mem_reverse.mpr mem_cons_self)] at hunit
      exact nomatch hunit
  exact parse_of_whitespace (dropWhile_eq_nil_iff.mp hfront)

/-- A value that counts as true in a condition. -/
def isTruthy : Json → Bool
  | .null | .bool false | .string [] | .number (.int 0) | .number .negZero => false
  | _ => true

omit [Conversions] in
theorem parseSessionEntryLine_eq (line : JsStr) :
    SessionManager.parseSessionEntryLine (stripReturn line) = (parse line).filter isTruthy := by
  have hstrip : parse (stripReturn line) = parse line := by
    rw [stripReturn]
    split_ifs with hlast
    · obtain ⟨front, rfl⟩ := getLast?_eq_some_iff.mp hlast
      rw [dropLast_concat, parse_trailing (by decide)]
    · rfl
  rw [SessionManager.parseSessionEntryLine]
  split_ifs with htrim
  · rw [← hstrip, parse_of_trim htrim]
    rfl
  · rw [hstrip]
    cases hparse : parse line with
    | none => rfl
    | some entry =>
      rw [Option.filter_some]
      split
      all_goals simp_all [isTruthy]

/-- The lines of the file in bytes, and as the line scan reads them. -/
def byteLines (bytes : List UInt8) : List (List UInt8) := (withoutMark bytes).splitOn 0x0a

/-- The entries of the lines, for the line scan. -/
def entryOf (line : List UInt8) : Option Json := (parse (decode line)).filter isTruthy

/-- The loop of the line scan over the lines in bytes. -/
def scanEntries : SessionScanAccumulator → List (List UInt8) → Except Unit (Option SessionScanAccumulator)
  | acc, [] => .ok (some acc)
  | acc, line :: rest =>
    match entryOf line with
    | none => scanEntries acc rest
    | some entry =>
      match applySessionEntry acc entry with
      | (next, .applied) => scanEntries next rest
      | (_, .rejected) => .ok none
      | (_, .threw) => .error ()

theorem scanLines_eq (acc : SessionScanAccumulator) (lines : List (List UInt8)) :
    scanLines acc (lines.map fun line => stripReturn (decode line)) = scanEntries acc lines := by
  induction lines generalizing acc with
  | nil => rfl
  | cons line rest ih =>
    rw [map_cons, scanLines, scanEntries, parseSessionEntryLine_eq, ← entryOf]
    cases entryOf line with
    | none => exact ih acc
    | some entry =>
      cases hstep : applySessionEntry acc entry with
      | mk next outcome => cases outcome <;> simp only [hstep, ih]

theorem scanLines_concat_nil (acc : SessionScanAccumulator) (lines : List JsStr) :
    scanLines acc (lines ++ [[]]) = scanLines acc lines := by
  induction lines generalizing acc with
  | nil => rfl
  | cons line rest ih =>
    rw [cons_append, scanLines, scanLines]
    cases SessionManager.parseSessionEntryLine line with
    | none => exact ih acc
    | some entry =>
      cases hstep : applySessionEntry acc entry with
      | mk next outcome => cases outcome <;> simp only [hstep, ih]

theorem scanSessionInfoLines_eq (bytes : List UInt8) :
    scanSessionInfoLines bytes = scanEntries newSessionScanAccumulator (byteLines bytes) := by
  rw [scanSessionInfoLines, readTextLinesSync, readTextLines, Jsonl.JsonlSessionStorage.physicalLines,
    show Jsonl.newline = 0x0a from rfl, splitOn_decode, ← byteLines]
  split_ifs with hlast
  · -- The empty line behind a final line break is no entry.
    obtain ⟨front, hfront⟩ := getLast?_eq_some_iff.mp hlast
    have hlines : (byteLines bytes).map (fun line => stripReturn (decode line)) =
        front.map stripReturn ++ [[]] :=
      calc (byteLines bytes).map (fun line => stripReturn (decode line))
        _ = ((byteLines bytes).map decode).map stripReturn := by rw [map_map]; rfl
        _ = front.map stripReturn ++ [[]] := by rw [hfront, map_append]; rfl
    rw [hfront, dropLast_concat, ← scanLines_concat_nil, ← hlines, scanLines_eq]
  · rw [map_map]
    exact scanLines_eq _ _

/-! ### Lines that both scans take alike -/

/-- A message of a user or an assistant that has content. -/
def hasSpokenContent (entry : Json) : Bool :=
  isMessageWithContent (entry.member (js "message")) = some true &&
    isSpoken ((entry.member (js "message")).getD .null)

/-- Applying the entry throws: a name that is no text, a message that cannot be read, a time that cannot be
converted, content without blocks. -/
def throws (entry : Json) : Bool :=
  if isType entry (js "session_info") then trimmedName (entry.member (js "name")) = none
  else
    isType entry (js "message") &&
      (getMessageActivityTime entry = none ||
        hasSpokenContent entry && extractTextContent ((entry.member (js "message")).getD .null) = none)

/-- The entry is counted, and neither its time nor its text is kept. -/
def isOnlyCounted (entry : Json) : Bool :=
  isType entry (js "message") && getMessageActivityTime entry = some none &&
    (!hasSpokenContent entry || extractTextContent ((entry.member (js "message")).getD .null) = some [])

/-- A line behind the header that the byte scan takes as the line scan does: it is counted unparsed only if it
is an entry that is only counted, applying it does not throw, and it is skipped as a header only if it is
neither a message nor a name. -/
def Harmless (line : List UInt8) : Prop :=
  match parse (decode line) with
  | none => isSkipped line = false
  | some entry =>
    (isTruthy entry = true → throws entry = false) ∧
    (isSkipped line = true → isOnlyCounted entry = true) ∧
    (sessionLinePrefix.isPrefixOf (line.take 24) = true →
      isType entry (js "message") = false ∧ isType entry (js "session_info") = false)

/-- Whether the first entry of the lines is a header. -/
def startsWithHeader (lines : List (List UInt8)) : Bool := (lines.filterMap entryOf).head?.any isHeader

/-- The lines of a file that both scans take alike, before and behind the header. A value that counts as false
ends the byte scan, so that no header may follow it. -/
def Conforming : Bool → List (List UInt8) → Prop
  | _, [] => True
  | true, line :: rest => Harmless line ∧ Conforming true rest
  | false, line :: rest =>
    match parse (decode line) with
    | none | some .null => Conforming false rest
    | some entry =>
      if isHeader entry then Conforming true rest
      else isTruthy entry = true ∨ startsWithHeader rest = false

/-- What the list shows of a file, when it is not left out. -/
def summary (acc : SessionScanAccumulator) :
    Option (Json × Nat × JsStr × JsStr × Option JsStr × Option JsNumber) :=
  acc.header.map fun header =>
    (header, acc.messageCount, acc.firstMessage, JsStr.join (js " ") acc.allMessages, acc.name,
      acc.lastActivityTime)

/-- The two scans of the file give the same rejection and the same summary. -/
def Agree (bytes : List UInt8) : Prop :=
  (scannedLines bytes).bind summary = (scanSessionInfoBytes bytes).bind summary

omit [NumberText] in
theorem buildSessionInfo_congr {left right : Option SessionScanAccumulator}
    (hsum : left.bind summary = right.bind summary) (path : JsStr) (mtimeMs : JsNumber) :
    left.bind (buildSessionInfo path mtimeMs) = right.bind (buildSessionInfo path mtimeMs) := by
  have hleft (acc : Option SessionScanAccumulator) : acc.bind (buildSessionInfo path mtimeMs) =
      (acc.bind summary).bind fun found => buildSessionInfo path mtimeMs
        ⟨some found.1, found.2.1, found.2.2.1, [found.2.2.2.1], found.2.2.2.2.1, found.2.2.2.2.2⟩ := by
    rcases acc with _ | ⟨_ | header, count, first, messages, name, time⟩
    · rfl
    · rfl
    · simp only [Option.bind_some, summary, Option.map_some, buildSessionInfo]
      have hjoin : JsStr.join (js " ") [JsStr.join (js " ") messages] = JsStr.join (js " ") messages := by
        simp [JsStr.join]
      rw [hjoin]
  rw [hleft, hleft, hsum]

section Steps

variable {acc : SessionScanAccumulator} {entry : Json}

omit [Conversions] [NumberText] in
theorem not_null_of_isTruthy (htrut : isTruthy entry = true) : entry ≠ .null := by
  rintro rfl
  exact nomatch htrut

omit [NumberText] in
theorem applySessionEntry_outcome (hheader : acc.header ≠ none) (hnull : entry ≠ .null) :
    (applySessionEntry acc entry).2 = if throws entry then .threw else .applied := by
  rw [applySessionEntry, if_neg hnull, if_neg hheader, throws]
  by_cases hinfo : isType entry (js "session_info") = true
  · rw [if_pos hinfo, if_pos hinfo]
    cases hname : trimmedName (entry.member (js "name")) with
    | none => simp
    | some name => simp
  · rw [if_neg hinfo, if_neg hinfo]
    by_cases hmsg : isType entry (js "message") = true
    · rw [if_pos hmsg, hmsg, Bool.true_and, applyMessage]
      cases htime : getMessageActivityTime entry with
      | none => simp
      | some time =>
        by_cases hspok : hasSpokenContent entry = true
        · have hboth := hspok
          rw [hasSpokenContent, Bool.and_eq_true, decide_eq_true_iff] at hboth
          simp only [if_pos hboth, hspok, Bool.true_and]
          cases extractTextContent ((entry.member (js "message")).getD .null) <;> simp
        · have hboth := hspok
          rw [hasSpokenContent, Bool.and_eq_true, decide_eq_true_iff] at hboth
          simp only [if_neg hboth]
          simp [hspok]
    · rw [if_neg hmsg]
      simp [hmsg]

omit [NumberText] in
theorem header_applySessionEntry (hheader : acc.header ≠ none) :
    (applySessionEntry acc entry).1.header = acc.header := by
  have hact (acc : SessionScanAccumulator) (time : Option JsNumber) : (acc.active time).header = acc.header := by
    cases time <;> rfl
  have hpush (acc : SessionScanAccumulator) (message : Json) (text : JsStr) :
      (acc.push message text).header = acc.header := by
    rw [SessionScanAccumulator.push]
    split_ifs <;> rfl
  rw [applySessionEntry, if_neg hheader]
  split_ifs
  · rfl
  · cases trimmedName (entry.member (js "name")) <;> rfl
  · rw [applyMessage]
    cases getMessageActivityTime entry with
    | none => rfl
    | some time =>
      dsimp only
      split_ifs
      · cases extractTextContent ((entry.member (js "message")).getD .null) with
        | none => exact hact _ time
        | some text => exact (hpush _ _ text).trans (hact _ time)
      · exact hact _ time
  · rfl

omit [Conversions] [NumberText] in
theorem isType_ne {type other : JsStr} (htype : isType entry type = true) (hne : type ≠ other) :
    isType entry other = false := by
  rw [isType, decide_eq_true_iff] at htype
  rw [isType, htype]
  simpa using hne

omit [NumberText] in
theorem applySessionEntry_onlyCounted (hheader : acc.header ≠ none) (hcoun : isOnlyCounted entry = true) :
    applySessionEntry acc entry = ({ acc with messageCount := acc.messageCount + 1 }, .applied) := by
  simp only [isOnlyCounted, Bool.and_eq_true, decide_eq_true_iff, Bool.or_eq_true, Bool.not_eq_true'] at hcoun
  obtain ⟨⟨hmsg, htime⟩, htext⟩ := hcoun
  have hnull : entry ≠ .null := by
    rintro rfl
    exact nomatch hmsg
  rw [applySessionEntry, if_neg hnull, if_neg hheader,
    if_neg (by rw [isType_ne hmsg (by decide)]; exact Bool.false_ne_true), if_pos hmsg, applyMessage, htime]
  rcases htext with hspok | htext
  · rw [hasSpokenContent, Bool.and_eq_false_iff, decide_eq_false_iff_not] at hspok
    have hnot : ¬(isMessageWithContent (entry.member (js "message")) = some true ∧
        isSpoken ((entry.member (js "message")).getD .null) = true) := by
      rintro ⟨hcont, hrole⟩
      rcases hspok with hspok | hspok
      · exact hspok hcont
      · rw [hspok] at hrole
        exact nomatch hrole
    simp only [if_neg hnot]
    rfl
  · simp only [htext]
    split_ifs <;> rfl

omit [NumberText] in
theorem applySessionEntry_other (hheader : acc.header ≠ none) (hnull : entry ≠ .null)
    (hmsg : isType entry (js "message") = false) (hinfo : isType entry (js "session_info") = false) :
    applySessionEntry acc entry = (acc, .applied) := by
  rw [applySessionEntry, if_neg hnull, if_neg hheader, hinfo, hmsg]
  rfl

omit [Conversions] [NumberText] in
theorem isType_of_falsy (hfalsy : isTruthy entry = false) (type : JsStr) : isType entry type = false := by
  cases entry with
  | object props => exact nomatch hfalsy
  | _ => rfl

omit [NumberText] in
theorem applySessionEntry_falsy (hheader : acc.header ≠ none) (hfalsy : isTruthy entry = false) :
    (applySessionEntry acc entry).1 = acc := by
  by_cases hnull : entry = .null
  · rw [applySessionEntry, if_pos hnull]
  · rw [applySessionEntry_other hheader hnull (isType_of_falsy hfalsy _) (isType_of_falsy hfalsy _)]

end Steps

/-! ### One line of the byte scan -/

omit [Conversions] [NumberText] in
theorem prefix_clash {left right line : List UInt8} (hleft : left.isPrefixOf line = true)
    (hright : right.isPrefixOf line = true) : left.isPrefixOf right = true ∨ right.isPrefixOf left = true := by
  rw [ isPrefixOf_iff_prefix] at hleft hright ⊢
  rw [ isPrefixOf_iff_prefix]
  exact prefix_or_prefix_of_prefix hleft hright

section ByteLine

variable {acc : SessionScanAccumulator} {line : List UInt8}

variable (hheader : acc.header ≠ none)

include hheader

theorem outcome_applyParsed : (applyParsed acc line).2 ≠ .rejected := by
  rw [applyParsed]
  cases parse (decode line) with
  | none => exact nofun
  | some entry =>
    by_cases hnull : entry = .null
    · dsimp only
      rw [applySessionEntry, if_pos hnull]
      exact nofun
    · dsimp only
      rw [applySessionEntry_outcome hheader hnull]
      split_ifs <;> exact nofun

theorem scanLine_header : scanLine acc line = some
      (if isSkipped line then { acc with messageCount := acc.messageCount + 1 }
      else if sessionLinePrefix.isPrefixOf (line.take 24) then acc
      else (applyParsed acc line).1) := by
  have hsome : acc.header.isSome = true := Option.isSome_iff_ne_none.mpr hheader
  rw [scanLine, hsome, Bool.true_and, Bool.true_and, Bool.not_true, Bool.false_or]
  by_cases hempty : line = []
  · rw [if_pos hempty, hempty]
    rfl
  rw [if_neg hempty]
  by_cases hmsg : messageLinePrefix.isPrefixOf (line.take 24) = true
  · have hsess : ¬sessionLinePrefix.isPrefixOf (line.take 24) = true := fun hsess =>
      absurd (prefix_clash hmsg hsess) (by decide)
    rw [if_pos hmsg, if_neg hsess]
    split_ifs <;> rfl
  rw [if_neg hmsg]
  have hskipp : ¬isSkipped line = true := fun hskipp => by
    rw [isSkipped, Bool.and_eq_true] at hskipp
    exact hmsg hskipp.1
  rw [if_neg hskipp]
  by_cases hinfo : sessionInfoLinePrefix.isPrefixOf (line.take 24) = true
  · have hsess : ¬sessionLinePrefix.isPrefixOf (line.take 24) = true := fun hsess =>
      absurd (prefix_clash hinfo hsess) (by decide)
    rw [if_pos hinfo, if_neg hsess]
  rw [if_neg hinfo]
  by_cases hsess : sessionLinePrefix.isPrefixOf (line.take 24) = true
  · rw [hsess]
    rfl
  · rw [if_neg hsess, Bool.eq_false_of_not_eq_true hsess, Bool.not_false, if_pos rfl]
    have hout : (applyParsed acc line).2 ≠ .rejected := outcome_applyParsed hheader
    cases hpar : applyParsed acc line with
    | mk next outcome =>
      rw [hpar] at hout
      cases outcome with
      | rejected => exact absurd rfl hout
      | applied => rfl
      | threw => rfl

theorem header_scanLine {next : SessionScanAccumulator}
    (hscan : scanLine acc line = some next) : next.header = acc.header := by
  rw [scanLine_header hheader] at hscan
  obtain rfl := Option.some.inj hscan
  split_ifs
  · rfl
  · rfl
  · rw [applyParsed]
    cases parse (decode line) with
    | none => rfl
    | some entry => exact header_applySessionEntry hheader

theorem scanLine_harmless (hhar : Harmless line) : match entryOf line with
    | none => scanLine acc line = some acc
    | some entry =>
      scanLine acc line = some (applySessionEntry acc entry).1 ∧ (applySessionEntry acc entry).2 = .applied := by
  rw [scanLine_header hheader, entryOf]
  rw [Harmless] at hhar
  cases hparse : parse (decode line) with
  | none =>
    rw [hparse] at hhar
    simp only [Option.filter_none, hhar, Bool.false_eq_true, if_false, applyParsed, hparse, ite_self]
  | some entry =>
    rw [hparse] at hhar
    obtain ⟨hthr, hcoun, hsess⟩ := hhar
    cases htrut : isTruthy entry with
    | false =>
      have hnot : ¬isSkipped line = true := fun hskipp => by
        have hmsg := hcoun hskipp
        rw [isOnlyCounted, isType_of_falsy htrut] at hmsg
        exact nomatch hmsg
      simp only [Option.filter_some, htrut, Bool.false_eq_true, if_false, if_neg hnot, applyParsed, hparse,
        applySessionEntry_falsy hheader htrut, ite_self]
    | true =>
      have hnull := not_null_of_isTruthy htrut
      simp only [Option.filter_some, htrut, if_true]
      refine ⟨?_, ?_⟩
      · split_ifs with hskipp hpref
        · rw [applySessionEntry_onlyCounted hheader (hcoun hskipp)]
        · obtain ⟨hmsg, hinfo⟩ := hsess hpref
          rw [applySessionEntry_other hheader hnull hmsg hinfo]
        · rw [applyParsed, hparse]
      · rw [applySessionEntry_outcome hheader hnull, hthr htrut]
        rfl

end ByteLine

/-! ### Whole files -/

/-- The accumulator of a line scan that ends without an exception. -/
def finished (scan : Except Unit (Option SessionScanAccumulator)) : Option SessionScanAccumulator :=
  match scan with
  | .ok acc => acc
  | .error () => none

theorem scannedLines_eq (bytes : List UInt8) :
    scannedLines bytes = finished (scanEntries newSessionScanAccumulator (byteLines bytes)) := by
  rw [scannedLines, scanSessionInfoLines_eq]
  rfl

section Files

variable {acc : SessionScanAccumulator}

variable {lines : List (List UInt8)}

theorem finished_header (hheader : acc.header ≠ none)
    (hlines : Conforming true lines) : finished (scanEntries acc lines) = lines.foldlM scanLine acc := by
  induction lines generalizing acc with
  | nil => rfl
  | cons line rest ih =>
    have hline := scanLine_harmless hheader hlines.1
    rw [scanEntries, foldlM_cons]
    cases hentry : entryOf line with
    | none =>
      rw [hentry] at hline
      rw [hline]
      exact ih hheader hlines.2
    | some entry =>
      rw [hentry] at hline
      obtain ⟨hscan, hout⟩ := hline
      have hnext : (applySessionEntry acc entry).1.header = acc.header := header_applySessionEntry hheader
      cases hstep : applySessionEntry acc entry with
      | mk next outcome =>
        rw [hstep] at hscan hout hnext
        subst hout
        rw [hscan]
        simp only [hstep]
        exact ih (hnext.symm ▸ hheader) hlines.2

section

variable (hheader : acc.header = none)

include hheader

theorem finished_of_noHeader
    (hlines : startsWithHeader lines = false) : (finished (scanEntries acc lines)).bind summary = none := by
  induction lines with
  | nil =>
    rw [scanEntries, finished, Option.bind_some, summary, hheader]
    rfl
  | cons line rest ih =>
    rw [startsWithHeader, filterMap_cons] at hlines
    rw [scanEntries]
    cases hentry : entryOf line with
    | none =>
      rw [hentry] at hlines
      exact ih hlines
    | some entry =>
      rw [hentry] at hlines
      have hnull : entry ≠ .null := not_null_of_isTruthy (Option.filter_eq_some_iff.mp hentry).2
      have hnot : ¬isHeader entry = true := by simpa using hlines
      simp only [applySessionEntry, if_neg hnull, if_pos hheader, if_neg hnot]
      rfl

theorem scanLine_start (line : List UInt8) :
    scanLine acc line = match applyParsed acc line with
      | (_, .rejected) => none
      | (next, _) => some next := by
  rw [scanLine]
  by_cases hempty : line = []
  · rw [if_pos hempty, hempty]
    rfl
  · obtain ⟨⟨next, outcome⟩, happ⟩ : ∃ applied, applyParsed acc line = applied := ⟨_, rfl⟩
    cases outcome <;> simp [if_neg hempty, hheader, happ]

theorem summary_start (hlines : Conforming false lines) :
    (finished (scanEntries acc lines)).bind summary = (lines.foldlM scanLine acc).bind summary := by
  induction lines with
  | nil => rfl
  | cons line rest ih =>
    rw [Conforming] at hlines
    rw [scanEntries, foldlM_cons, scanLine_start hheader, entryOf, applyParsed]
    cases hparse : parse (decode line) with
    | none =>
      rw [hparse] at hlines
      exact ih hlines
    | some entry =>
      by_cases hnull : entry = .null
      · rw [hparse, hnull] at hlines
        simp only [hnull, applySessionEntry, if_true]
        exact ih hlines
      · have hrest : if isHeader entry then Conforming true rest
            else isTruthy entry = true ∨ startsWithHeader rest = false := by
          rw [hparse] at hlines
          cases entry with
          | null => exact absurd rfl hnull
          | _ => exact hlines
        by_cases hhead : isHeader entry = true
        · have htrut : isTruthy entry = true := by
            by_contra hfalsy
            rw [isHeader, isType_of_falsy (Bool.eq_false_of_not_eq_true hfalsy)] at hhead
            exact nomatch hhead
          rw [if_pos hhead] at hrest
          simp only [Option.filter_some, htrut, if_true, applySessionEntry, if_neg hnull, if_pos hheader,
            if_pos hhead]
          rw [finished_header (Option.some_ne_none entry) hrest]
          rfl
        · rw [if_neg hhead] at hrest
          cases htrut : isTruthy entry with
          | true =>
            simp only [Option.filter_some, htrut, if_true, applySessionEntry, if_neg hnull, if_pos hheader,
              if_neg hhead]
            rfl
          | false =>
            have hnone := hrest.resolve_left (by rw [htrut]; exact Bool.false_ne_true)
            simp only [Option.filter_some, htrut, Bool.false_eq_true, if_false, applySessionEntry,
              if_neg hnull, if_pos hheader, if_neg hhead]
            exact finished_of_noHeader hheader hnone

end

theorem agree_of_conforming {bytes : List UInt8} (hbytes : Conforming false (byteLines bytes)) : Agree bytes := by
  rw [Agree, scannedLines_eq]
  exact summary_start rfl hbytes

end Files

-- The lines of a concrete file are not computed where one of these is stated of it.
attribute [irreducible] Harmless Conforming

end SessionScan

end PiRp.Manager

import PiRp.JsonDecimal
import PiRp.SessionInfoAgreement

/-! Lines on which the two scans of a session file differ. A line that is not harmless tells them apart in a file
of its own: behind a header, or behind a header and a name. -/

namespace PiRp.Manager

open List Option JsonText Utf8

namespace SessionScan

section Differences

variable [Conversions] [NumberText]

/-! ### Lines that tell the scans apart -/

/-- The file of some lines. -/
def fileOf (lines : List (List UInt8)) : List UInt8 := [0x0a].intercalate lines

def headerEntry : Json := .object [(js "type", .string (js "session"))]

def nameEntry : Json := .object [(js "type", .string (js "session_info")), (js "name", .string (js "x"))]

def headerLine : List UInt8 := ascii "\x7b\"type\":\"session\"\x7d"

def nameLine : List UInt8 := ascii "\x7b\"type\":\"session_info\",\"name\":\"x\"\x7d"

omit [Conversions] in
theorem parse_headerLine : parse (decode headerLine) = some headerEntry := by
  have htext : decode headerLine = stringify headerEntry :=
    calc decode headerLine
      _ = js "\x7b\"type\":\"session\"\x7d" := by decide +kernel
      _ = stringify headerEntry := by
        rw [headerEntry, JsonText.stringify.eq_def]
        rfl
  rw [htext, parse_stringify ((Json.isSerializable_iff _).mp (by decide +kernel))]
  decide +kernel

omit [Conversions] in
theorem parse_nameLine : parse (decode nameLine) = some nameEntry := by
  have htext : decode nameLine = stringify nameEntry :=
    calc decode nameLine
      _ = js "\x7b\"type\":\"session_info\"" ++ js ",\"name\":\"x\"\x7d" := by decide +kernel
      _ = stringify nameEntry := by
        rw [nameEntry, JsonText.stringify.eq_def]
        rfl
  rw [htext, parse_stringify ((Json.isSerializable_iff _).mp (by decide +kernel))]
  decide +kernel

/-- The lines before the one that matters: the header, or the header and a name. -/
def linesBefore (hasName : Bool) : List (List UInt8) := headerLine :: if hasName then [nameLine] else []

/-- Both scans behind these lines. -/
def accBefore (hasName : Bool) : SessionScanAccumulator :=
  ⟨some headerEntry, 0, [], [], if hasName then some (js "x") else none, none⟩

omit [Conversions] [NumberText] in
theorem byteLines_fileOf (rest : List (List UInt8)) (hrest : ∀ line ∈ rest, 0x0a ∉ line) :
    byteLines (fileOf (headerLine :: rest)) = headerLine :: rest := by
  have hmark : withoutMark (fileOf (headerLine :: rest)) = fileOf (headerLine :: rest) := by
    have hstart : ∃ tail, fileOf (headerLine :: rest) = 0x7b :: tail := by
      cases rest with
      | nil => exact ⟨_, rfl⟩
      | cons line rest => exact ⟨_, rfl⟩
    obtain ⟨tail, htail⟩ := hstart
    rw [htail, withoutMark, if_neg]
    simp
  rw [byteLines, hmark, fileOf]
  refine splitOn_intercalate 0x0a ?_ (cons_ne_nil _ _)
  intro line hline
  rcases mem_cons.mp hline with rfl | hmem
  · decide
  · exact hrest line hmem

theorem scans_linesBefore (hasName : Bool) (lines : List (List UInt8)) :
    scanEntries newSessionScanAccumulator (linesBefore hasName ++ lines) = scanEntries (accBefore hasName) lines ∧
      (linesBefore hasName ++ lines).foldlM scanLine newSessionScanAccumulator =
        lines.foldlM scanLine (accBefore hasName) := by
  have hheader (lines : List (List UInt8)) :
      scanEntries newSessionScanAccumulator (headerLine :: lines) = scanEntries (accBefore false) lines ∧
        (headerLine :: lines).foldlM scanLine newSessionScanAccumulator =
          lines.foldlM scanLine (accBefore false) := by
    have happly : applySessionEntry newSessionScanAccumulator headerEntry = (accBefore false, .applied) := rfl
    constructor
    · rw [scanEntries, entryOf, parse_headerLine, filter_some, if_pos (show isTruthy headerEntry = true from rfl)]
      simp only [happly]
    · rw [foldlM_cons, scanLine_start rfl, applyParsed, parse_headerLine]
      simp only [happly]
      rfl
  cases hasName with
  | false => exact hheader lines
  | true =>
    have happly : applySessionEntry (accBefore false) nameEntry = (accBefore true, .applied) := by
      rw [applySessionEntry, if_neg (by decide), if_neg (by decide), if_pos (by decide)]
      have hname : trimmedName (nameEntry.member (js "name")) = some (some (js "x")) := by decide
      rw [hname]
      rfl
    obtain ⟨hents, hbytes⟩ := hheader (nameLine :: lines)
    constructor
    · refine hents.trans ?_
      rw [scanEntries, entryOf, parse_nameLine, filter_some, if_pos (show isTruthy nameEntry = true from rfl)]
      simp only [happly]
    · refine hbytes.trans ?_
      rw [foldlM_cons, scanLine_header (some_ne_none headerEntry), if_neg (by decide), if_neg (by decide),
        applyParsed, parse_nameLine]
      simp only [happly]
      rfl

theorem agree_fileOf_iff (hasName : Bool) {line : List UInt8} (hline : 0x0a ∉ line) :
    Agree (fileOf (linesBefore hasName ++ [line])) ↔
      (finished (scanEntries (accBefore hasName) [line])).bind summary =
        (scanLine (accBefore hasName) line).bind summary := by
  have hlines : byteLines (fileOf (linesBefore hasName ++ [line])) = linesBefore hasName ++ [line] := by
    rw [linesBefore, cons_append]
    refine byteLines_fileOf _ ?_
    intro other hother
    rcases mem_append.mp hother with hname | hlast
    · cases hasName with
      | false => exact nomatch hname
      | true =>
        obtain rfl := mem_singleton.mp hname
        decide
    · obtain rfl := mem_singleton.mp hlast
      exact hline
  obtain ⟨hents, hbytes⟩ := scans_linesBefore hasName [line]
  rw [Agree, scannedLines_eq, scanSessionInfoBytes, ← byteLines, hlines, hents, hbytes, foldlM_cons]
  cases scanLine (accBefore hasName) line <;> rfl

section Lines

variable {acc : SessionScanAccumulator} {entry : Json} {line : List UInt8}

omit [NumberText] in
theorem messageCount_applySessionEntry (hheader : acc.header ≠ none) : (applySessionEntry acc entry).1.messageCount =
      acc.messageCount + if isType entry (js "message") then 1 else 0 := by
  have hact (acc : SessionScanAccumulator) (time : Option JsNumber) :
      (acc.active time).messageCount = acc.messageCount := by
    cases time <;> rfl
  have hpush (acc : SessionScanAccumulator) (message : Json) (text : JsStr) :
      (acc.push message text).messageCount = acc.messageCount := by
    rw [SessionScanAccumulator.push]
    split_ifs <;> rfl
  by_cases hnull : entry = .null
  · rw [hnull, applySessionEntry, if_pos rfl]
    rfl
  rw [applySessionEntry, if_neg hnull, if_neg hheader]
  by_cases hinfo : isType entry (js "session_info") = true
  · rw [if_pos hinfo, isType_ne hinfo (by decide), if_neg Bool.false_ne_true]
    cases trimmedName (entry.member (js "name")) <;> rfl
  rw [if_neg hinfo]
  by_cases hmsg : isType entry (js "message") = true
  · rw [if_pos hmsg, if_pos hmsg, applyMessage]
    cases getMessageActivityTime entry with
    | none => rfl
    | some time =>
      dsimp only
      split_ifs
      · cases extractTextContent ((entry.member (js "message")).getD .null) with
        | none => exact hact _ time
        | some text => exact (hpush _ _ text).trans (hact _ time)
      · exact hact _ time
  · rw [if_neg hmsg, if_neg hmsg]
    rfl

omit [NumberText] in
theorem trace_of_message (hheader : acc.header ≠ none) (hmsg : isType entry (js "message") = true)
    (hthr : throws entry = false) (hcoun : isOnlyCounted entry = false) :
    (applySessionEntry acc entry).1.lastActivityTime ≠ none ∨
      ∃ text, text ≠ [] ∧ (applySessionEntry acc entry).1.allMessages = acc.allMessages ++ [text] := by
  have hnull : entry ≠ .null := by
    rintro rfl
    cases hmsg
  have hinfo : ¬isType entry (js "session_info") = true := by
    rw [isType_ne hmsg (by decide)]
    exact Bool.false_ne_true
  rw [throws, if_neg hinfo, hmsg, Bool.true_and, Bool.or_eq_false_iff, decide_eq_false_iff_not] at hthr
  obtain ⟨htime, htext⟩ := hthr
  rw [isOnlyCounted, hmsg, Bool.true_and] at hcoun
  rw [applySessionEntry, if_neg hnull, if_neg hheader, if_neg hinfo, if_pos hmsg, applyMessage]
  cases hactiv : getMessageActivityTime entry with
  | none => exact absurd hactiv htime
  | some time =>
    cases time with
    | some time =>
      left
      dsimp only
      split_ifs
      · cases extractTextContent ((entry.member (js "message")).getD .null) with
        | none => exact some_ne_none _
        | some text =>
          by_cases hempty : text = []
          · simp only [SessionScanAccumulator.push, if_pos hempty]
            exact some_ne_none _
          · simp only [SessionScanAccumulator.push, if_neg hempty]
            exact some_ne_none _
      · exact some_ne_none _
    | none =>
      right
      rw [hactiv, decide_eq_true rfl, Bool.true_and, Bool.or_eq_false_iff, Bool.not_eq_false'] at hcoun
      obtain ⟨hspok, hempty⟩ := hcoun
      rw [hspok, Bool.true_and, decide_eq_false_iff_not] at htext
      rw [hasSpokenContent, Bool.and_eq_true, decide_eq_true_iff] at hspok
      simp only [if_pos hspok]
      cases hext : extractTextContent ((entry.member (js "message")).getD .null) with
      | none => exact absurd hext htext
      | some text =>
        have hne : text ≠ [] := by
          rintro rfl
          rw [hext] at hempty
          cases hempty
        refine ⟨text, hne, ?_⟩
        simp only [SessionScanAccumulator.push, if_neg hne]
        rfl

omit [Conversions] [NumberText] in
theorem summary_inj {left right : SessionScanAccumulator} (hheader : left.header ≠ none)
    (hsum : summary left = summary right) : left.messageCount = right.messageCount ∧
      JsStr.join (js " ") left.allMessages = JsStr.join (js " ") right.allMessages ∧
      left.name = right.name ∧ left.lastActivityTime = right.lastActivityTime := by
  obtain ⟨_ | header, count, first, messages, name, time⟩ := left
  · exact absurd rfl hheader
  obtain ⟨_ | header', count', first', messages', name', time'⟩ := right
  · exact nomatch hsum
  · simp only [summary, map_some, Option.some.injEq, Prod.mk.injEq] at hsum
    obtain ⟨-, hcount, -, hmsgs, hname, htime⟩ := hsum
    exact ⟨hcount, hmsgs, hname, htime⟩

variable (hheader : acc.header ≠ none)

include hheader

theorem finished_applied (hparse : parse (decode line) = some entry)
    (hquiet : isTruthy entry = true → throws entry = false) :
    finished (scanEntries acc [line]) = some (applySessionEntry acc entry).1 := by
  rw [scanEntries, entryOf, hparse, filter_some]
  cases htrut : isTruthy entry with
  | false =>
    rw [applySessionEntry_falsy hheader htrut]
    rfl
  | true =>
    have hout := applySessionEntry_outcome hheader (not_null_of_isTruthy htrut)
    rw [hquiet htrut, if_neg Bool.false_ne_true] at hout
    cases hstep : applySessionEntry acc entry with
    | mk next outcome =>
      rw [hstep] at hout
      subst hout
      simp only [if_true, hstep]
      rfl

theorem differ_of_throws (hparse : parse (decode line) = some entry)
    (htrut : isTruthy entry = true) (hthr : throws entry = true) :
    (finished (scanEntries acc [line])).bind summary ≠ (scanLine acc line).bind summary := by
  have hout := applySessionEntry_outcome hheader (not_null_of_isTruthy htrut)
  rw [if_pos hthr] at hout
  have hlines : finished (scanEntries acc [line]) = none := by
    rw [scanEntries, entryOf, hparse, filter_some, if_pos htrut]
    cases hstep : applySessionEntry acc entry with
    | mk next outcome =>
      rw [hstep] at hout
      subst hout
      simp only [hstep]
      rfl
  rw [hlines]
  cases hscan : scanLine acc line with
  | none =>
    rw [scanLine_header hheader] at hscan
    cases hscan
  | some next =>
    obtain ⟨header, hsome⟩ := ne_none_iff_exists'.mp hheader
    rw [bind_none, bind_some, summary, header_scanLine hheader hscan, hsome]
    rintro ⟨⟩

theorem differ_of_skipped (hstart : acc.allMessages = [] ∧ acc.lastActivityTime = none)
    (hparse : parse (decode line) = some entry) (hquiet : isTruthy entry = true → throws entry = false)
    (hskipp : isSkipped line = true) (hcoun : isOnlyCounted entry = false) :
    (finished (scanEntries acc [line])).bind summary ≠ (scanLine acc line).bind summary := by
  rw [finished_applied hheader hparse hquiet, scanLine_header hheader, if_pos hskipp]
  intro heq
  have hafter : (applySessionEntry acc entry).1.header ≠ none := by rwa [header_applySessionEntry hheader]
  obtain ⟨hmsgs, htexts, -, htime⟩ := summary_inj hafter heq
  rw [messageCount_applySessionEntry hheader, Nat.add_right_inj] at hmsgs
  have hmsg : isType entry (js "message") = true := by
    by_contra hother
    rw [if_neg hother] at hmsgs
    exact nomatch hmsgs
  have htrut : isTruthy entry = true := by
    by_contra hfalsy
    rw [isType_of_falsy (Bool.eq_false_of_not_eq_true hfalsy)] at hmsg
    exact nomatch hmsg
  rcases trace_of_message hheader hmsg (hquiet htrut) hcoun with hleft | ⟨text, hne, hleft⟩
  · exact hleft (htime.trans hstart.2)
  · rw [hleft, hstart.1] at htexts
    exact hne (by simpa [JsStr.join] using htexts)

end Lines

theorem differ_of_prefix {line : List UInt8} {entry : Json}
    (hparse : parse (decode line) = some entry) (hquiet : isTruthy entry = true → throws entry = false)
    (hstart : sessionLinePrefix.isPrefixOf (line.take 24) = true)
    (htypes : isType entry (js "message") = true ∨ isType entry (js "session_info") = true) :
    ∃ hasName, (finished (scanEntries (accBefore hasName) [line])).bind summary ≠
      (scanLine (accBefore hasName) line).bind summary := by
  have hheader (hasName : Bool) : (accBefore hasName).header ≠ none := some_ne_none headerEntry
  have hnot : ¬isSkipped line = true := fun hskip => by
    rw [isSkipped, Bool.and_eq_true] at hskip
    exact absurd (prefix_clash hskip.1 hstart) (by decide)
  have hbytes (hasName : Bool) : scanLine (accBefore hasName) line = some (accBefore hasName) := by
    rw [scanLine_header (hheader hasName), if_neg hnot, if_pos hstart]
  have hafter (hasName : Bool) : (applySessionEntry (accBefore hasName) entry).1.header ≠ none := by
    rw [header_applySessionEntry (hheader hasName)]
    exact hheader hasName
  rcases htypes with hmsg | hinfo
  · refine ⟨false, ?_⟩
    rw [finished_applied (hheader false) hparse hquiet, hbytes]
    intro heq
    have hmsgs := (summary_inj (hafter false) heq).1
    rw [messageCount_applySessionEntry (hheader false), if_pos hmsg] at hmsgs
    cases hmsgs
  · have hnull : entry ≠ .null := by
      rintro rfl
      cases hinfo
    have htrut : isTruthy entry = true := by
      by_contra hfalsy
      rw [isType_of_falsy (Bool.eq_false_of_not_eq_true hfalsy)] at hinfo
      cases hinfo
    cases hname : trimmedName (entry.member (js "name")) with
    | none =>
      have hthr := hquiet htrut
      rw [throws, if_pos hinfo, hname, decide_eq_true rfl] at hthr
      cases hthr
    | some name =>
      -- A blank name takes away the one that was read; any other name is new.
      refine ⟨name.isNone, ?_⟩
      rw [finished_applied (hheader name.isNone) hparse hquiet, hbytes]
      intro heq
      have hnames := (summary_inj (hafter name.isNone) heq).2.2.1
      rw [applySessionEntry, if_neg hnull, if_neg (hheader name.isNone), if_pos hinfo, hname] at hnames
      cases name <;> cases hnames

theorem not_agree_of_not_harmless {line : List UInt8} (hline : 0x0a ∉ line) (hhar : ¬Harmless line) :
    ∃ hasName, ¬Agree (fileOf (linesBefore hasName ++ [line])) := by
  suffices hdif : ∃ hasName, (finished (scanEntries (accBefore hasName) [line])).bind summary ≠
      (scanLine (accBefore hasName) line).bind summary by
    obtain ⟨hasName, hne⟩ := hdif
    exact ⟨hasName, fun hagree => hne ((agree_fileOf_iff hasName hline).mp hagree)⟩
  have hheader : (accBefore false).header ≠ none := some_ne_none headerEntry
  rw [Harmless] at hhar
  cases hparse : parse (decode line) with
  | none =>
    -- A line that is no JSON text is counted by the byte scan alone.
    rw [hparse] at hhar
    have hskipp : isSkipped line = true := Bool.eq_true_of_not_eq_false hhar
    refine ⟨false, ?_⟩
    rw [scanEntries, entryOf, hparse, filter_none, scanLine_header hheader, if_pos hskipp]
    exact fun heq => absurd (summary_inj hheader heq).1 (by decide)
  | some entry =>
    rw [hparse] at hhar
    by_cases hquiet : isTruthy entry = true → throws entry = false
    · by_cases hskipp : isSkipped line = true → isOnlyCounted entry = true
      · have hstart : sessionLinePrefix.isPrefixOf (line.take 24) = true ∧
            ¬(isType entry (js "message") = false ∧ isType entry (js "session_info") = false) := by
          by_contra hnot
          refine hhar ⟨hquiet, hskipp, fun hstart => ?_⟩
          by_contra htypes
          exact hnot ⟨hstart, htypes⟩
        refine differ_of_prefix hparse hquiet hstart.1 ?_
        by_contra htypes
        rw [not_or, Bool.not_eq_true, Bool.not_eq_true] at htypes
        exact hstart.2 htypes
      · rw [Classical.not_imp, Bool.not_eq_true] at hskipp
        exact ⟨false, differ_of_skipped hheader ⟨rfl, rfl⟩ hparse hquiet hskipp.1 hskipp.2⟩
    · rw [Classical.not_imp, Bool.not_eq_false] at hquiet
      exact ⟨false, differ_of_throws hheader hparse hquiet.1 hquiet.2⟩

theorem not_agree_of_falsy {line : List UInt8} {entry : Json} (hline : 0x0a ∉ line)
    (hparse : parse (decode line) = some entry) (hnull : entry ≠ .null)
    (hfalsy : isTruthy entry = false) : ¬Agree (fileOf [[], line, headerLine]) := by
  have hlines : byteLines (fileOf [[], line, headerLine]) = [[], line, headerLine] := by
    rw [byteLines, show withoutMark (fileOf [[], line, headerLine]) = fileOf [[], line, headerLine] from rfl, fileOf]
    refine splitOn_intercalate 0x0a ?_ (cons_ne_nil _ _)
    simp only [mem_cons, not_mem_nil, or_false, forall_eq_or_imp, forall_eq]
    exact ⟨(by rintro ⟨⟩), hline, by decide⟩
  have hbytes : scanSessionInfoBytes (fileOf [[], line, headerLine]) = none := by
    have hnot : ¬isHeader entry = true := by
      rw [isHeader, isType_of_falsy hfalsy]
      exact Bool.false_ne_true
    have hempty : scanLine newSessionScanAccumulator [] = some newSessionScanAccumulator := rfl
    have hrej : scanLine newSessionScanAccumulator line = none := by
      rw [scanLine_start rfl, applyParsed, hparse]
      simp only [applySessionEntry, if_neg hnull, if_neg hnot]
      rfl
    rw [scanSessionInfoBytes, ← byteLines, hlines, foldlM_cons, hempty]
    simp only [bind_eq_bind, bind_some, foldlM_cons, hrej, bind_none]
  have hents : scannedLines (fileOf [[], line, headerLine]) = some (accBefore false) := by
    rw [scannedLines_eq, hlines, scanEntries, scanEntries, entryOf, entryOf, hparse,
      show parse (decode []) = none from rfl, filter_some, hfalsy, if_neg Bool.false_ne_true]
    exact congrArg finished (scans_linesBefore false []).1
  rw [Agree, hbytes, hents]
  rintro ⟨⟩

theorem conforming_pair {bytes line : List UInt8} (hbytes : byteLines bytes = [headerLine, line])
    (hhar : Harmless line) : Conforming false (byteLines bytes) := by
  have hhead : isHeader headerEntry = true := by decide
  rw [hbytes, Conforming, parse_headerLine, headerEntry]
  dsimp only
  rw [← headerEntry, if_pos hhead, Conforming, Conforming]
  exact ⟨hhar, trivial⟩

/-- The list shows the same of a file whichever scan reads it, when each of its lines is one that both take alike;
every line of another kind has a file on which the scans differ. -/
theorem scans_agree : (∀ bytes, Conforming false (byteLines bytes) → Agree bytes ∧ ∀ path mtimeMs,
      (scanSessionInfoBytes bytes).bind (buildSessionInfo path mtimeMs) =
        (scannedLines bytes).bind (buildSessionInfo path mtimeMs)) ∧
    (∀ line, 0x0a ∉ line → ¬Harmless line → ∃ hasName, ¬Agree (fileOf (linesBefore hasName ++ [line]))) ∧
    ∀ line entry, 0x0a ∉ line → parse (decode line) = some entry → entry ≠ .null →
      isTruthy entry = false → ¬Agree (fileOf [[], line, headerLine]) := by
  refine ⟨fun bytes hbytes => ?_, fun line hline hhar => not_agree_of_not_harmless hline hhar,
    fun line entry hline hparse hnull hfalsy => not_agree_of_falsy hline hparse hnull hfalsy⟩
  have hagree := agree_of_conforming hbytes
  exact ⟨hagree, fun path mtimeMs => (buildSessionInfo_congr hagree path mtimeMs).symm⟩

end Differences

section Samples

local instance : NumberText := decimalNumbers

/-- The conversions of the sample: its header has no time, and the file was changed at a time in range. -/
local instance sampleConversions : Conversions where
  getTime
    | some (.number time) => some time
    | _ => some .nan
  toText := fun _ => none
  max := fun left right => if left.exceeds 0 then left else right

/-- The result of a tool that the writer did not finish. -/
def truncatedLine : List UInt8 := ascii "\x7b\"type\":\"message\",\"message\":\x7b\"role\":\"toolResult\","

theorem harmless_nameLine : Harmless nameLine := by
  rw [Harmless, parse_nameLine]
  exact ⟨fun _ => by decide +kernel, fun hskipp => absurd hskipp (by decide +kernel),
    fun hstart => absurd hstart (by decide +kernel)⟩

/-- A file of a header and a name. -/
theorem scans_agree_named :
    ((scanSessionInfoBytes (fileOf [headerLine, nameLine])).bind (buildSessionInfo [] (.int 0))).bind
      SessionInfo.name = some (js "x") ∧
    (scanSessionInfoBytes (fileOf [headerLine, nameLine])).bind (buildSessionInfo [] (.int 0)) =
      (scannedLines (fileOf [headerLine, nameLine])).bind (buildSessionInfo [] (.int 0)) := by
  have hlines : byteLines (fileOf [headerLine, nameLine]) = [headerLine, nameLine] :=
    byteLines_fileOf [nameLine] (by decide)
  refine ⟨?_, (scans_agree.1 _ (conforming_pair hlines harmless_nameLine)).2 [] (.int 0)⟩
  have hbytes : [headerLine, nameLine].foldlM scanLine newSessionScanAccumulator = some (accBefore true) := by
    refine Eq.trans ?_ (scans_linesBefore true []).2
    rw [append_nil]
    rfl
  rw [scanSessionInfoBytes, ← byteLines, hlines, hbytes]
  rfl

/-- The byte scan counts the truncated line, the line scan does not. -/
theorem scans_differ_on_truncated :
    ¬∀ bytes path mtimeMs, (scanSessionInfoBytes bytes).bind (buildSessionInfo path mtimeMs) =
      (scannedLines bytes).bind (buildSessionInfo path mtimeMs) := by
  intro hagree
  have hcount := congrArg (Option.map SessionInfo.messageCount)
    (hagree (fileOf [headerLine, truncatedLine]) [] (.int 0))
  have hlines : byteLines (fileOf [headerLine, truncatedLine]) = [headerLine, truncatedLine] :=
    byteLines_fileOf [truncatedLine] (by decide)
  obtain ⟨hents, hbytes⟩ := scans_linesBefore false [truncatedLine]
  have hparse : parse (decode truncatedLine) = none := by decide +kernel
  have hskipp : isSkipped truncatedLine = true := by decide +kernel
  have hentry : scanEntries newSessionScanAccumulator [headerLine, truncatedLine] = .ok (some (accBefore false)) := by
    refine hents.trans ?_
    rw [scanEntries, entryOf, hparse]
    rfl
  have hscan : [headerLine, truncatedLine].foldlM scanLine newSessionScanAccumulator =
      some { accBefore false with messageCount := 1 } := by
    refine hbytes.trans ?_
    rw [foldlM_cons, scanLine_header (some_ne_none headerEntry), if_pos hskipp]
    rfl
  rw [scannedLines_eq, scanSessionInfoBytes, ← byteLines, hlines, hentry, hscan] at hcount
  exact absurd hcount (by decide)

end Samples

end SessionScan

end PiRp.Manager

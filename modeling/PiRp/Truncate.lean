import PiRp.JsText
import Mathlib.Data.List.DropRight

/-! Truncation of tool output from its tail. The tail of an output is truncated like the whole output. -/

namespace PiRp.Truncate

open List

/-- Decoded output, which has no unpaired surrogates. -/
abbrev Text := List Char

def defaultMaxLines : Nat := 2000

def defaultMaxBytes : Nat := 50 * 1024

def utf8ByteLength (content : Text) : Nat := (utf8 content).length

inductive TruncatedBy where
  | lines
  | bytes
  deriving DecidableEq

structure TruncationResult where
  content : Text
  truncated : Bool
  truncatedBy : Option TruncatedBy
  totalLines : Nat
  totalBytes : Nat
  outputLines : Nat
  outputBytes : Nat
  lastLinePartial : Bool
  firstLineExceedsLimit : Bool
  maxLines : Nat
  maxBytes : Nat

def splitLinesForCounting (content : Text) : List Text :=
  if content = [] then []
  else if content.getLast? = some '\n' then (content.splitOn '\n').dropLast
  else content.splitOn '\n'

/-- The loop of `truncateStringToBytesFromEnd`, over the characters from the end. -/
def takeFromEnd (maxBytes outputBytes : Nat) : Text → Text
  | [] => []
  | char :: rest =>
    if outputBytes + char.utf8Size > maxBytes then []
    else char :: takeFromEnd maxBytes (outputBytes + char.utf8Size) rest

def truncateStringToBytesFromEnd (str : Text) (maxBytes : Nat) : Text :=
  if maxBytes = 0 then [] else (takeFromEnd maxBytes 0 str.reverse).reverse

/-- The variables of the loop of `truncateTail`. -/
structure Kept where
  outputLinesArr : List Text
  outputBytesCount : Nat
  truncatedBy : TruncatedBy
  lastLinePartial : Bool

/-- The loop of `truncateTail`, over the lines from the end. -/
def keepLines (maxLines maxBytes : Nat) (kept : Kept) : List Text → Kept
  | [] => kept
  | line :: rest =>
    if kept.outputLinesArr.length < maxLines then
      let lineBytes := utf8ByteLength line + if 0 < kept.outputLinesArr.length then 1 else 0
      if kept.outputBytesCount + lineBytes > maxBytes then
        if kept.outputLinesArr.length = 0 then
          let truncatedLine := truncateStringToBytesFromEnd line maxBytes
          ⟨[truncatedLine], utf8ByteLength truncatedLine, .bytes, true⟩
        else { kept with truncatedBy := .bytes }
      else
        keepLines maxLines maxBytes { kept with
          outputLinesArr := line :: kept.outputLinesArr
          outputBytesCount := kept.outputBytesCount + lineBytes } rest
    else kept

def truncateTail (content : Text) (maxLines maxBytes : Nat) : TruncationResult :=
  let totalBytes := utf8ByteLength content
  let lines := splitLinesForCounting content
  let totalLines := lines.length
  if totalLines ≤ maxLines ∧ totalBytes ≤ maxBytes then
    { content, truncated := false, truncatedBy := none, totalLines, totalBytes, outputLines := totalLines
      outputBytes := totalBytes, lastLinePartial := false, firstLineExceedsLimit := false, maxLines, maxBytes }
  else
    let kept := keepLines maxLines maxBytes ⟨[], 0, .lines, false⟩ lines.reverse
    let byLines := maxLines ≤ kept.outputLinesArr.length ∧ kept.outputBytesCount ≤ maxBytes
    let outputContent := ['\n'].intercalate kept.outputLinesArr
    { content := outputContent, truncated := true
      truncatedBy := some (if byLines then .lines else kept.truncatedBy), totalLines, totalBytes
      outputLines := kept.outputLinesArr.length, outputBytes := utf8ByteLength outputContent
      lastLinePartial := kept.lastLinePartial, firstLineExceedsLimit := false, maxLines, maxBytes }

/-! ### Bytes -/

@[simp]
theorem utf8ByteLength_nil : utf8ByteLength [] = 0 := rfl

@[simp]
theorem utf8ByteLength_append (front back : Text) :
    utf8ByteLength (front ++ back) = utf8ByteLength front + utf8ByteLength back := by
  rw [utf8ByteLength, utf8, flatMap_append, length_append]
  rfl

@[simp]
theorem utf8ByteLength_cons (char : Char) (rest : Text) :
    utf8ByteLength (char :: rest) = char.utf8Size + utf8ByteLength rest := by
  rw [utf8ByteLength, utf8, flatMap_cons, length_append, String.length_utf8EncodeChar]
  rfl

theorem utf8ByteLength_reverse (text : Text) : utf8ByteLength text.reverse = utf8ByteLength text := by
  induction text with
  | nil => rfl
  | cons char rest ih => simp [ih, Nat.add_comm]

/-- A byte inside a character. -/
def isContinuation (byte : UInt8) : Bool := byte &&& 0xc0 == 0x80

theorem isContinuation_head (byte : UInt8) (hbyte : byte.IsUTF8FirstByte) : isContinuation byte = false := by
  have hall : ∀ value : Fin 256, (UInt8.ofFin value).IsUTF8FirstByte → isContinuation (UInt8.ofFin value) = false := by
    decide +kernel
  exact hall byte.toFin hbyte

theorem isContinuation_tail (char : Char) : ∀ byte ∈ (String.utf8EncodeChar char).tail, isContinuation byte = true := by
  have hlow (value : Nat) : isContinuation (UInt8.ofNat (value % 0x40 + 0x80)) = true := by
    have hall : ∀ low : Fin 64, isContinuation (UInt8.ofNat (low + 0x80)) = true := by decide +kernel
    exact hall ⟨value % 0x40, Nat.mod_lt _ (by decide)⟩
  rw [String.utf8EncodeChar]
  split_ifs <;> simp only [tail_cons, mem_cons, not_mem_nil, or_false, forall_eq_or_imp, forall_eq, hlow, and_self,
    false_imp_iff, implies_true]

theorem dropWhile_utf8 (text : Text) : (utf8 text).dropWhile isContinuation = utf8 text := by
  cases text with
  | nil => rfl
  | cons char rest =>
    have hfirst := UInt8.isUTF8FirstByte_getElem_zero_utf8EncodeChar (c := char)
    rw [utf8, flatMap_cons]
    cases hchar : String.utf8EncodeChar char with
    | nil => exact absurd hchar String.utf8EncodeChar_ne_nil
    | cons byte bytes =>
      simp only [hchar, getElem_cons_zero] at hfirst
      rw [cons_append, dropWhile_cons, isContinuation_head byte hfirst, if_neg Bool.false_ne_true]

/-- From any byte on, the text goes on with the next whole character. -/
theorem dropWhile_drop_utf8 (text : Text) {start : Nat} (hstart : start ≤ utf8ByteLength text) :
    ∃ front back, text = front ++ back ∧ ((utf8 text).drop start).dropWhile isContinuation = utf8 back ∧
      start ≤ utf8ByteLength front ∧ utf8ByteLength front ≤ start + 3 := by
  induction text generalizing start with
  | nil => exact ⟨[], [], rfl, by rw [utf8, flatMap_nil, drop_nil]; rfl, hstart, Nat.zero_le _⟩
  | cons char rest ih =>
    rcases Nat.eq_zero_or_pos start with rfl | hpos
    · exact ⟨[], char :: rest, rfl, dropWhile_utf8 _, Nat.le_refl _, Nat.zero_le _⟩
    have hsplit : utf8 (char :: rest) = String.utf8EncodeChar char ++ utf8 rest := flatMap_cons ..
    have hsize := String.length_utf8EncodeChar char
    rw [utf8ByteLength_cons] at hstart
    rcases Nat.lt_or_ge start char.utf8Size with hlt | hge
    · -- The bytes that are left of the character are skipped.
      have hfour := char.utf8Size_le_four
      refine ⟨[char], rest, rfl, ?_, by simp; omega, by simp; omega⟩
      have hskip : ∀ byte ∈ (String.utf8EncodeChar char).drop start, isContinuation byte = true := by
        intro byte hbyte
        refine isContinuation_tail char byte ?_
        rw [← drop_one]
        exact (drop_suffix_drop_left _ hpos).subset hbyte
      rw [hsplit, drop_append_of_le_length (by omega), dropWhile_append_of_pos hskip, dropWhile_utf8]
    · obtain ⟨front, back, rfl, hback, hfront, hfront'⟩ := ih (Nat.sub_le_iff_le_add'.mpr hstart)
      refine ⟨char :: front, back, rfl, ?_, by simp; omega, by simp; omega⟩
      rw [hsplit, drop_append, hsize, drop_eq_nil_of_le (by omega), nil_append, hback]

/-! ### Lines -/

theorem splitOn_suffix (front tail : Text) : ∃ more lead line rest, tail.splitOn '\n' = line :: rest ∧
    (front ++ tail).splitOn '\n' = more ++ (lead ++ line) :: rest := by
  induction front with
  | nil =>
    obtain ⟨line, rest, htail⟩ := exists_cons_of_ne_nil (splitOn_ne_nil '\n' tail)
    exact ⟨[], [], line, rest, htail, htail⟩
  | cons char front ih =>
    obtain ⟨more, lead, line, rest, htail, hwhole⟩ := ih
    rw [cons_append, splitOn_cons_eq_if_modifyHead, hwhole]
    split_ifs with hchar
    · exact ⟨[] :: more, lead, line, rest, htail, rfl⟩
    · cases more with
      | nil => exact ⟨[], char :: lead, line, rest, htail, rfl⟩
      | cons first more => exact ⟨(char :: first) :: more, lead, line, rest, htail, rfl⟩

/-- The bytes of lines and of the newlines before them. -/
def lineBytes (lines : List Text) : Nat := (lines.map (utf8ByteLength · + 1)).sum

theorem utf8ByteLength_intercalate (line : Text) (rest : List Text) :
    utf8ByteLength (['\n'].intercalate (line :: rest)) = utf8ByteLength line + lineBytes rest := by
  induction rest generalizing line with
  | nil => simp [lineBytes]
  | cons next rest ih =>
    rw [intercalate_cons_cons, utf8ByteLength_append, utf8ByteLength_append, ih, lineBytes, lineBytes, map_cons,
      sum_cons]
    have hnewline : utf8ByteLength ['\n'] = 1 := rfl
    omega

/-- The lines that count are those of the text without its last newline. -/
theorem splitLines_body {tail : Text} (hne : tail ≠ []) : ∃ body, utf8ByteLength tail ≤ utf8ByteLength body + 1 ∧
    ∀ front, splitLinesForCounting (front ++ tail) = (front ++ body).splitOn '\n' := by
  by_cases hends : tail.getLast? = some '\n'
  · obtain ⟨body, rfl⟩ := getLast?_eq_some_iff.mp hends
    refine ⟨body, by simp; rfl, fun front => ?_⟩
    rw [splitLinesForCounting, if_neg (by simp), getLast?_append, hends]
    rw [← append_assoc, splitOn_append_cons_self, splitOn_nil, dropLast_concat]
    rfl
  · refine ⟨tail, Nat.le_succ _, fun front => ?_⟩
    rw [splitLinesForCounting, if_neg (by simp [hne]), if_neg (by rwa [getLast?_append_of_ne_nil _ hne])]

/-- The text behind the last newline. -/
def lastLine (text : Text) : Text := text.rtakeWhile (· ≠ '\n')

theorem lastLine_append_of_notMem {text : Text} (htext : '\n' ∉ text) (front : Text) :
    lastLine (front ++ text) = lastLine front ++ text := by
  have hall : ∀ char ∈ text.reverse, decide (char ≠ '\n') = true := by
    intro char hchar
    exact decide_eq_true (ne_of_mem_of_not_mem (mem_reverse.mp hchar) htext)
  rw [lastLine, rtakeWhile, reverse_append, takeWhile_append_of_pos hall, reverse_append, reverse_reverse]
  rfl

theorem lastLine_newline {line : Text} (hline : '\n' ∉ line) (lead : Text) : lastLine (lead ++ '\n' :: line) = line := by
  rw [append_cons, lastLine_append_of_notMem hline, lastLine, rtakeWhile_concat_neg _ _ _ (by simp)]
  rfl

theorem lastLine_append_of_mem {text : Text} (htext : '\n' ∈ text) (front : Text) :
    lastLine (front ++ text) = lastLine text := by
  obtain ⟨line, lead, hreverse, hline⟩ := eq_append_cons_of_mem (mem_reverse.mpr htext)
  have hsplit : text = lead.reverse ++ '\n' :: line.reverse := by
    rw [← reverse_reverse text, hreverse]
    simp
  rw [← mem_reverse] at hline
  rw [hsplit, ← append_assoc, lastLine_newline hline, lastLine_newline hline]

theorem length_splitOn (text : Text) : (text.splitOn '\n').length = text.count '\n' + 1 := by
  induction text with
  | nil => rfl
  | cons char rest ih =>
    rw [splitOn_cons_eq_if_modifyHead, count_cons]
    split_ifs
    · rw [length_cons, ih]
    · rw [length_modifyHead, ih, Nat.add_zero]

/-- A line counts when it is ended or not empty. -/
theorem length_splitLines (text : Text) :
    (splitLinesForCounting text).length = text.count '\n' + if lastLine text = [] then 0 else 1 := by
  rw [splitLinesForCounting]
  by_cases hnil : text = []
  · subst hnil
    rfl
  rw [if_neg hnil]
  by_cases hends : text.getLast? = some '\n'
  · obtain ⟨body, rfl⟩ := getLast?_eq_some_iff.mp hends
    rw [if_pos hends, if_pos (lastLine_newline not_mem_nil body), length_dropLast, length_splitOn]
    rfl
  · have hopen : lastLine text ≠ [] := by
      intro hlast
      have hnewline := rtakeWhile_eq_nil_iff.mp hlast hnil
      rw [decide_eq_true_eq, not_not] at hnewline
      exact hends (hnewline ▸ getLast?_eq_some_getLast hnil)
    rw [if_neg hends, if_neg hopen, length_splitOn]

theorem length_splitLines_mono (front text : Text) :
    (splitLinesForCounting front).length ≤ (splitLinesForCounting (front ++ text)).length := by
  rw [length_splitLines, length_splitLines, count_append]
  by_cases hmem : '\n' ∈ text
  · have hpos := count_pos_iff.mpr hmem
    split_ifs <;> omega
  · rw [lastLine_append_of_notMem hmem]
    split_ifs with hfront hwhole hwhole
    · omega
    · omega
    · exact absurd (append_eq_nil_iff.mp hwhole).1 hfront
    · omega

/-! ### Truncation of a suffix -/

variable {maxLines maxBytes outputBytes : Nat} {line : Text}

theorem takeFromEnd_append (hlong : maxBytes < outputBytes + utf8ByteLength line) (more : Text) :
    takeFromEnd maxBytes outputBytes (line ++ more) = takeFromEnd maxBytes outputBytes line := by
  induction line generalizing outputBytes with
  | nil =>
    rw [utf8ByteLength_nil, Nat.add_zero] at hlong
    cases more with
    | nil => rfl
    | cons char more => rw [nil_append, takeFromEnd, takeFromEnd, if_pos (Nat.lt_add_right _ hlong)]
  | cons char rest ih =>
    rw [cons_append, takeFromEnd, takeFromEnd, ih (by rwa [Nat.add_assoc, ← utf8ByteLength_cons])]

theorem truncateString_append (hlong : maxBytes < utf8ByteLength line) (lead : Text) :
    truncateStringToBytesFromEnd (lead ++ line) maxBytes = truncateStringToBytesFromEnd line maxBytes := by
  rw [truncateStringToBytesFromEnd, reverse_append, takeFromEnd_append]
  · rfl
  · rwa [utf8ByteLength_reverse, Nat.zero_add]

theorem keepLines_agree {kept : Kept} {common : List Text} (hempty : kept.outputLinesArr = [] → kept.outputBytesCount = 0)
    (hlong : maxBytes < kept.outputBytesCount + lineBytes common + utf8ByteLength line +
      if 0 < kept.outputLinesArr.length then 1 else 0) (lead : Text) (more : List Text) :
    keepLines maxLines maxBytes kept (common ++ (lead ++ line) :: more) =
      keepLines maxLines maxBytes kept (common ++ [line]) := by
  induction common generalizing kept with
  | nil =>
    -- Neither the line nor the longer one fits.
    rw [lineBytes, map_nil, sum_nil] at hlong
    have hline : maxBytes < kept.outputBytesCount + (utf8ByteLength line +
        if 0 < kept.outputLinesArr.length then 1 else 0) := by omega
    have hlead : maxBytes < kept.outputBytesCount + (utf8ByteLength (lead ++ line) +
        if 0 < kept.outputLinesArr.length then 1 else 0) := by
      rw [utf8ByteLength_append]
      omega
    rw [nil_append, nil_append, keepLines, keepLines]
    dsimp only
    rw [if_pos hline, if_pos hlead]
    by_cases hnone : kept.outputLinesArr.length = 0
    · rw [hempty (eq_nil_of_length_eq_zero hnone), hnone] at hline
      rw [truncateString_append (by simpa using hline)]
    · rw [if_neg hnone, if_neg hnone]
  | cons next common ih =>
    have hrest (count : Nat) (hcount : count = kept.outputBytesCount + (utf8ByteLength next +
        if 0 < kept.outputLinesArr.length then 1 else 0)) :=
      @ih { kept with outputLinesArr := next :: kept.outputLinesArr, outputBytesCount := count } nofun <| by
        rw [lineBytes, map_cons, sum_cons, ← lineBytes] at hlong
        simp only [length_cons, Nat.succ_pos, if_true]
        omega
    rw [cons_append, cons_append, keepLines, keepLines]
    dsimp only
    rw [hrest _ rfl]

/-- A tail that is longer than the limit is truncated like the whole text. -/
theorem truncateTail_append {tail : Text} (hlong : maxBytes + 1 < utf8ByteLength tail) (front : Text) :
    truncateTail (front ++ tail) maxLines maxBytes = { truncateTail tail maxLines maxBytes with
        totalLines := (splitLinesForCounting (front ++ tail)).length
        totalBytes := utf8ByteLength (front ++ tail) } := by
  have hne : tail ≠ [] := by
    rintro rfl
    exact absurd hlong (Nat.not_lt_zero _)
  obtain ⟨body, hbody, hlines⟩ := splitLines_body hne
  obtain ⟨more, lead, line, rest, htail, hwhole⟩ := splitOn_suffix front body
  have hlength : maxBytes < utf8ByteLength line + lineBytes rest := by
    rw [← utf8ByteLength_intercalate, ← htail, intercalate_splitOn]
    omega
  have hkept : keepLines maxLines maxBytes ⟨[], 0, .lines, false⟩ (splitLinesForCounting (front ++ tail)).reverse =
      keepLines maxLines maxBytes ⟨[], 0, .lines, false⟩ (splitLinesForCounting tail).reverse := by
    have hown := hlines []
    rw [nil_append, nil_append] at hown
    rw [hlines, hown, hwhole, htail, reverse_append, reverse_cons, reverse_cons, append_assoc]
    refine keepLines_agree (fun _ => rfl) ?_ lead _
    have hsum : lineBytes rest.reverse = lineBytes rest := by rw [lineBytes, map_reverse, sum_reverse, lineBytes]
    simp only [hsum, length_nil, Nat.lt_irrefl, if_false]
    omega
  have hover (text : Text) (htext : maxBytes < utf8ByteLength text) :
      ¬ ((splitLinesForCounting text).length ≤ maxLines ∧ utf8ByteLength text ≤ maxBytes) := by omega
  rw [truncateTail, truncateTail, if_neg (hover tail (by omega)), if_neg (hover _ (by simp; omega)), hkept]

theorem truncateTail_exceeded {content : Text}
    (hlong : maxLines < (splitLinesForCounting content).length ∨ maxBytes < utf8ByteLength content) :
    (truncateTail content maxLines maxBytes).truncated = true ∧
      ∃ reason, (truncateTail content maxLines maxBytes).truncatedBy = some reason := by
  rw [truncateTail, if_neg (by omega)]
  exact ⟨rfl, _, rfl⟩

theorem truncateTail_totals (content : Text) (maxLines maxBytes : Nat) :
    (truncateTail content maxLines maxBytes).totalLines = (splitLinesForCounting content).length ∧
      (truncateTail content maxLines maxBytes).totalBytes = utf8ByteLength content := by
  rw [truncateTail]
  split_ifs <;> exact ⟨rfl, rfl⟩

end PiRp.Truncate

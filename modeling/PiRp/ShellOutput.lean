import PiRp.Truncate

/-! Shell commands with captured output. However the output comes in chunks, what is reported of it is the truncation
of the whole output, and the whole of it is in the full-output file when it exceeds a limit. -/

namespace PiRp.ShellOutput

open List Truncate

def maxOutputBytes : Nat := defaultMaxBytes * 2

structure ExecutionError where
  code : String
  message : String

/-- What is thrown: an execution error, or something else with its message. -/
inductive Thrown where
  | execution (error : ExecutionError)
  | other (message : String)

def toExecutionError : Thrown → ExecutionError
  | .execution error => error
  | .other message => ⟨"unknown", message⟩

/-- The environment of a command, with what its calls return. -/
structure ExecutionEnv where
  exec : Except Thrown (Except ExecutionError Nat)
  aborted : Bool
  returnExecutionErrors : Bool
  createTempFile : Except Thrown String
  appendFile : Nat → Except Thrown Unit

/-- A chunk of a stream that decodes UTF-8, and what the caller's `onChunk` does with it. -/
structure Chunk where
  text : Text
  onChunk : Except Thrown Unit

def sanitizeBinaryOutput (str : Text) : Text :=
  str.filter fun char =>
    let code := char.toNat
    if code = 0x09 ∨ code = 0x0a ∨ code = 0x0d then true
    else if code ≤ 0x1f then false
    else if code ≥ 0xfff9 ∧ code ≤ 0xfffb then false
    else true

/-- `TextDecoder.decode`, for whole characters: a byte order mark at the start is dropped. -/
def decode (bytes : List UInt8) : Text :=
  match (decodeUtf8 bytes).getD [] with
  | [] => []
  | char :: rest => if char = '\ufeff' then rest else char :: rest

def trimToLastUtf8Bytes (text : Text) (maxBytes : Nat) : Text :=
  let bytes := utf8 text
  if bytes.length ≤ maxBytes then text
  else decode ((bytes.drop (bytes.length - maxBytes)).dropWhile isContinuation)

/-! ### The counters -/

structure Counters where
  totalBytes : Nat
  completedLines : Nat
  hasOpenLine : Bool
  currentLineBytes : Nat

def Counters.totalLines (counters : Counters) : Nat := counters.completedLines + if counters.hasOpenLine then 1 else 0

def Counters.exceeded (counters : Counters) : Bool :=
  counters.totalBytes > defaultMaxBytes || counters.totalLines > defaultMaxLines

def Counters.add (counters : Counters) (text : Text) : Counters :=
  let textBytes := utf8ByteLength text
  let totalBytes := counters.totalBytes + textBytes
  let completedLines := counters.completedLines + ((text.splitOn '\n').length - 1)
  if '\n' ∈ text then
    let trailingText := text.rtakeWhile (· ≠ '\n')
    ⟨totalBytes, completedLines, trailingText ≠ [], utf8ByteLength trailingText⟩
  else if text ≠ [] then ⟨totalBytes, completedLines, true, counters.currentLineBytes + textBytes⟩
  else { counters with totalBytes, completedLines }

/-! ### The full-output file -/

/-- The variables of the full-output file, its content, and how many appends there were. -/
structure FullOutput where
  fullOutputPath : Option String
  fullOutputRequested : Bool
  writeChain : Except ExecutionError Unit
  content : Text
  appends : Nat

def FullOutput.append (env : ExecutionEnv) (file : FullOutput) (text : Text) : FullOutput :=
  match env.appendFile file.appends with
  | .error error => { file with writeChain := .error (toExecutionError error), appends := file.appends + 1 }
  | .ok () => { file with content := file.content ++ text, appends := file.appends + 1 }

def FullOutput.appendFullOutput (env : ExecutionEnv) (captureError : Option ExecutionError) (text : Text)
    (file : FullOutput) : FullOutput :=
  if !file.fullOutputRequested || captureError.isSome then file
  else
    match file.writeChain, file.fullOutputPath with
    | .error _, _ => file
    | .ok (), none => { file with writeChain := .error ⟨"unknown", "Full output path was not created"⟩ }
    | .ok (), some _ => file.append env text

def FullOutput.ensureFullOutputFile (env : ExecutionEnv) (captureError : Option ExecutionError) (initialContent : Text)
    (file : FullOutput) : FullOutput :=
  if file.fullOutputRequested || captureError.isSome then file
  else
    let requested := { file with fullOutputRequested := true }
    match file.writeChain, env.createTempFile with
    | .error _, _ => requested
    | .ok (), .error error => { requested with writeChain := .error (toExecutionError error) }
    | .ok (), .ok path => { requested with fullOutputPath := some path }.append env initialContent

/-! ### The command -/

/-- The variables of `executeShellWithCapture`. -/
structure Capture where
  tailOutput : Text
  counters : Counters
  file : FullOutput
  captureError : Option ExecutionError

def Capture.start : Capture := ⟨[], ⟨0, 0, false, 0⟩, ⟨none, false, .ok (), [], 0⟩, none⟩

structure ShellCaptureProgress where
  output : Text
  truncation : TruncationResult
  fullOutputPath : Option String
  lastLineBytes : Nat

structure ShellCaptureResult extends ShellCaptureProgress where
  exitCode : Option Nat
  cancelled : Bool
  truncated : Bool
  executionError : Option ExecutionError

def Capture.createProgress (state : Capture) : ShellCaptureProgress :=
  let tailTruncation := truncateTail state.tailOutput defaultMaxLines defaultMaxBytes
  let truncated := state.counters.exceeded
  let byBytes := if state.counters.totalBytes > defaultMaxBytes then TruncatedBy.bytes else .lines
  let truncation := { tailTruncation with
    truncated
    truncatedBy := if truncated then some (tailTruncation.truncatedBy.getD byBytes) else none
    totalLines := state.counters.totalLines
    totalBytes := state.counters.totalBytes }
  ⟨if truncated then truncation.content else state.tailOutput, truncation, state.file.fullOutputPath,
    state.counters.currentLineBytes⟩

/-- The text that is taken of a chunk. -/
def Chunk.sanitized (chunk : Chunk) : Text := (sanitizeBinaryOutput chunk.text).filter (· ≠ '\r')

def onChunk (env : ExecutionEnv) (state : Capture) (chunk : Chunk) : Capture :=
  let text := chunk.sanitized
  let counters := state.counters.add text
  let tailOutput := state.tailOutput ++ text
  let file :=
    if counters.exceeded && !state.file.fullOutputRequested then
      state.file.ensureFullOutputFile env state.captureError tailOutput
    else if state.file.fullOutputRequested then state.file.appendFullOutput env state.captureError text
    else state.file
  let captureError :=
    match chunk.onChunk with
    | .error error => some (toExecutionError error)
    | .ok () => state.captureError
  ⟨trimToLastUtf8Bytes tailOutput maxOutputBytes, counters, file, captureError⟩

/-- The state behind the chunks that came before the end of the command; later ones are not accepted. -/
def captured (env : ExecutionEnv) (chunks : List Chunk) : Capture :=
  let state := chunks.foldl (onChunk env) .start
  if state.createProgress.truncation.truncated && !state.file.fullOutputRequested then
    { state with file := state.file.ensureFullOutputFile env state.captureError state.tailOutput }
  else state

def executeShellWithCapture (env : ExecutionEnv) (chunks : List Chunk) : Except ExecutionError ShellCaptureResult :=
  match env.exec with
  | .error error => .error (toExecutionError error)
  | .ok result =>
    let state := captured env chunks
    match state.file.writeChain, state.captureError with
    | .error error, _ => .error error
    | .ok (), some error => .error error
    | .ok (), none =>
      let progress := state.createProgress
      let truncated := progress.truncation.truncated
      match result with
      | .error error =>
        if error.code = "aborted" ∨ env.aborted then .ok ⟨progress, none, true, truncated, none⟩
        else if env.returnExecutionErrors then .ok ⟨progress, none, false, truncated, some error⟩
        else .error error
      | .ok exitCode => .ok ⟨progress, if env.aborted then none else some exitCode, env.aborted, truncated, none⟩

/-! ### The counters of a text -/

def Counters.of (whole : Text) : Counters :=
  ⟨utf8ByteLength whole, whole.count '\n', lastLine whole ≠ [], utf8ByteLength (lastLine whole)⟩

/-- A text has more lines or more bytes than the limits. -/
def Exceeds (whole : Text) : Prop :=
  defaultMaxBytes < utf8ByteLength whole ∨ defaultMaxLines < (splitLinesForCounting whole).length

instance (whole : Text) : Decidable (Exceeds whole) := inferInstanceAs (Decidable (_ ∨ _))

theorem Counters.totalLines_of (whole : Text) : (of whole).totalLines = (splitLinesForCounting whole).length := by
  rw [length_splitLines, totalLines, of]
  simp only [decide_eq_true_eq, ite_not]

theorem Counters.exceeded_of (whole : Text) : (of whole).exceeded = decide (Exceeds whole) := by
  rw [exceeded, totalLines_of]
  exact (Bool.decide_or _ _).symm

theorem Counters.of_add (whole text : Text) : (of whole).add text = of (whole ++ text) := by
  rw [add, length_splitOn, Nat.add_sub_cancel, of, of, utf8ByteLength_append, count_append]
  split_ifs with hmem hnil
  · rw [lastLine_append_of_mem hmem]
    rfl
  · rw [lastLine_append_of_notMem hmem, utf8ByteLength_append]
    simp [hnil]
  · rw [not_not] at hnil
    subst hnil
    simp

theorem Exceeds.append {whole : Text} (hexc : Exceeds whole) (text : Text) : Exceeds (whole ++ text) := by
  have hlines := length_splitLines_mono whole text
  rw [Exceeds, utf8ByteLength_append]
  rcases hexc with hbytes | hcount
  · left
    omega
  · right
    omega

/-! ### The tail -/

theorem decode_utf8 (text : Text) : ∃ mark, text = mark ++ decode (utf8 text) ∧ utf8ByteLength mark ≤ 3 := by
  rw [decode, decodeUtf8_utf8, Option.getD_some]
  cases text with
  | nil => exact ⟨[], rfl, Nat.zero_le _⟩
  | cons char rest =>
    dsimp only
    split_ifs with hmark
    · subst hmark
      exact ⟨['\ufeff'], rfl, by decide⟩
    · exact ⟨[], rfl, Nat.zero_le _⟩

/-- What is kept is all of the text, or the end of it with at most six bytes less than the limit. -/
theorem trim_suffix (text : Text) (maxBytes : Nat) : ∃ front, text = front ++ trimToLastUtf8Bytes text maxBytes ∧
    (front = [] ∨ maxBytes ≤ utf8ByteLength (trimToLastUtf8Bytes text maxBytes) + 6) := by
  rw [trimToLastUtf8Bytes]
  split_ifs with hfits
  · exact ⟨[], rfl, .inl rfl⟩
  obtain ⟨front, back, htext, hback, -, hcut⟩ := dropWhile_drop_utf8 text (Nat.sub_le _ maxBytes)
  obtain ⟨mark, hmark, hthree⟩ := decode_utf8 back
  rw [show (utf8 text).length = utf8ByteLength text from rfl] at hfits ⊢
  rw [hback]
  refine ⟨front ++ mark, by rw [append_assoc, ← hmark, htext], .inr ?_⟩
  have hbytes := congrArg utf8ByteLength htext
  have hrest := congrArg utf8ByteLength hmark
  rw [utf8ByteLength_append] at hbytes hrest
  omega

/-- The tail of a text, and how much of it there is at least. -/
def TailOf (whole tail : Text) : Prop :=
  ∃ front, whole = front ++ tail ∧ (front = [] ∨ maxOutputBytes ≤ utf8ByteLength tail + 6)

theorem TailOf.append {whole tail : Text} (htail : TailOf whole tail) (text : Text) :
    TailOf (whole ++ text) (trimToLastUtf8Bytes (tail ++ text) maxOutputBytes) := by
  obtain ⟨front, rfl, hfront⟩ := htail
  obtain ⟨cut, hcut, hlong⟩ := trim_suffix (tail ++ text) maxOutputBytes
  refine ⟨front ++ cut, by rw [append_assoc, append_assoc, ← hcut], ?_⟩
  rcases hlong with rfl | hlong
  · rw [nil_append] at hcut
    rw [← hcut, append_nil, utf8ByteLength_append]
    exact hfront.imp_right fun hlong => by omega
  · exact .inr hlong

theorem TailOf.whole {whole tail : Text} (htail : TailOf whole tail) (hexc : ¬ Exceeds whole) : tail = whole := by
  obtain ⟨front, rfl, rfl | hlong⟩ := htail
  · rfl
  · refine absurd (Or.inl ?_) hexc
    rw [utf8ByteLength_append]
    simp only [maxOutputBytes, defaultMaxBytes] at hlong ⊢
    omega

/-! ### The file -/

def ExecutionEnv.FilesWork (env : ExecutionEnv) : Prop :=
  (∃ path, env.createTempFile = .ok path) ∧ ∀ call, env.appendFile call = .ok ()

variable {env : ExecutionEnv} {file : FullOutput} {whole text : Text}

/-- The file has been requested, and it holds the whole text unless a write failed. -/
def Holds (env : ExecutionEnv) (whole : Text) (file : FullOutput) : Prop :=
  file.fullOutputRequested = true ∧
    ((∃ error, file.writeChain = .error error) ∧ ¬ env.FilesWork ∨
      file.writeChain = .ok () ∧ file.content = whole ∧ ∃ path, file.fullOutputPath = some path)

/-- The file is there just when the text exceeds a limit. -/
def Written (env : ExecutionEnv) (whole : Text) (file : FullOutput) : Prop :=
  if Exceeds whole then Holds env whole file
  else file.fullOutputRequested = false ∧ file.writeChain = .ok () ∧ file.content = []

theorem holds_append {path : String} (hreq : file.fullOutputRequested = true) (hchain : file.writeChain = .ok ())
    (hpath : file.fullOutputPath = some path) (text : Text) : Holds env (file.content ++ text) (file.append env text) := by
  rw [FullOutput.append]
  cases happend : env.appendFile file.appends with
  | error error =>
    refine ⟨hreq, .inl ⟨⟨_, rfl⟩, fun hwork => ?_⟩⟩
    rw [hwork.2] at happend
    cases happend
  | ok _ => exact ⟨hreq, .inr ⟨hchain, rfl, path, hpath⟩⟩

theorem Holds.appendFullOutput (hholds : Holds env whole file) (text : Text) :
    Holds env (whole ++ text) (file.appendFullOutput env none text) := by
  obtain ⟨hreq, ⟨⟨error, hchain⟩, hfail⟩ | ⟨hchain, rfl, path, hpath⟩⟩ := hholds
  · rw [FullOutput.appendFullOutput, hreq, if_neg (by decide), hchain]
    exact ⟨hreq, .inl ⟨⟨error, hchain⟩, hfail⟩⟩
  · rw [FullOutput.appendFullOutput, hreq, if_neg (by decide), hchain, hpath]
    exact holds_append hreq hchain hpath text

theorem holds_ensure (hreq : file.fullOutputRequested = false) (hchain : file.writeChain = .ok ())
    (hempty : file.content = []) (whole : Text) : Holds env whole (file.ensureFullOutputFile env none whole) := by
  obtain ⟨path, requested, chain, content, appends⟩ := file
  dsimp only at hreq hchain hempty
  subst hreq hchain hempty
  simp only [FullOutput.ensureFullOutputFile, Option.isSome_none, Bool.or_self, Bool.false_eq_true, if_false]
  cases hcreate : env.createTempFile with
  | error error =>
    refine ⟨rfl, .inl ⟨⟨_, rfl⟩, ?_⟩⟩
    rintro ⟨⟨path, hpath⟩, -⟩
    rw [hcreate] at hpath
    cases hpath
  | ok path => exact holds_append rfl rfl rfl whole

/-! ### Runs -/

/-- What is known of the state behind a text. -/
structure Follows (env : ExecutionEnv) (whole : Text) (state : Capture) : Prop where
  counters : state.counters = .of whole
  tail : TailOf whole state.tailOutput
  written : state.captureError = none → Written env whole state.file

theorem Follows.onChunk {state : Capture} (hfol : Follows env whole state) (chunk : Chunk) :
    Follows env (whole ++ chunk.sanitized) (onChunk env state chunk) := by
  have hcounters : state.counters.add chunk.sanitized = .of (whole ++ chunk.sanitized) := by
    rw [hfol.counters, Counters.of_add]
  refine ⟨hcounters, hfol.tail.append _, fun hnone => ?_⟩
  have herror : state.captureError = none := by
    rw [ShellOutput.onChunk] at hnone
    cases hlistener : chunk.onChunk with
    | error error => simp [hlistener] at hnone
    | ok _ => simpa [hlistener] using hnone
  have hwritten := hfol.written herror
  rw [ShellOutput.onChunk, herror]
  dsimp only
  rw [hcounters, Counters.exceeded_of]
  by_cases hexc : Exceeds whole
  · -- The file has been requested, and the text is appended.
    rw [Written, if_pos hexc] at hwritten
    rw [Written, if_pos (hexc.append _), hwritten.1, if_neg (by simp), if_pos rfl]
    exact hwritten.appendFullOutput chunk.sanitized
  · rw [Written, if_neg hexc] at hwritten
    rw [Written, hwritten.1, hfol.tail.whole hexc]
    by_cases hnow : Exceeds (whole ++ chunk.sanitized)
    · rw [if_pos hnow, decide_eq_true hnow, if_pos (by decide)]
      exact holds_ensure hwritten.1 hwritten.2.1 hwritten.2.2 _
    · rw [if_neg hnow, decide_eq_false hnow, if_neg (by decide), if_neg (by decide)]
      exact hwritten

theorem Follows.run (env : ExecutionEnv) (chunks : List Chunk) :
    Follows env (chunks.flatMap Chunk.sanitized) (chunks.foldl (ShellOutput.onChunk env) .start) := by
  have hfol : ∀ {whole state}, Follows env whole state →
      Follows env (whole ++ chunks.flatMap Chunk.sanitized) (chunks.foldl (ShellOutput.onChunk env) state) := by
    induction chunks with
    | nil =>
      intro whole state hfol
      rwa [flatMap_nil, append_nil]
    | cons chunk chunks ih =>
      intro whole state hfol
      rw [flatMap_cons, ← append_assoc]
      exact ih (hfol.onChunk chunk)
  have hstart : Follows env [] .start := by
    refine ⟨rfl, ⟨[], rfl, .inl rfl⟩, fun _ => ?_⟩
    rw [Written, if_neg (by decide)]
    exact ⟨rfl, rfl, rfl⟩
  exact hfol hstart

/-- The progress is that of the whole text. -/
theorem createProgress_eq {state : Capture} (hcounters : state.counters = .of whole)
    (htail : TailOf whole state.tailOutput) : state.createProgress =
      ⟨if Exceeds whole then (truncateTail whole defaultMaxLines defaultMaxBytes).content else whole,
        truncateTail whole defaultMaxLines defaultMaxBytes, state.file.fullOutputPath, utf8ByteLength (lastLine whole)⟩ := by
  rw [Capture.createProgress, hcounters, Counters.exceeded_of, Counters.totalLines_of]
  by_cases hexc : Exceeds whole
  · -- The tail is truncated too, and in the same way.
    obtain ⟨hlong, hsame⟩ : Exceeds state.tailOutput ∧ truncateTail whole defaultMaxLines defaultMaxBytes =
        { truncateTail state.tailOutput defaultMaxLines defaultMaxBytes with
          totalLines := (splitLinesForCounting whole).length, totalBytes := utf8ByteLength whole } := by
      obtain ⟨front, rfl, rfl | hlong⟩ := htail
      · refine ⟨hexc, ?_⟩
        rw [nil_append, truncateTail]
        split_ifs <;> rfl
      · have hover : defaultMaxBytes + 1 < utf8ByteLength state.tailOutput := by
          simp only [maxOutputBytes, defaultMaxBytes] at hlong ⊢
          omega
        exact ⟨.inl (Nat.lt_of_succ_lt hover), truncateTail_append hover front⟩
    obtain ⟨htruncated, reason, hreason⟩ := truncateTail_exceeded hlong.symm
    rw [decide_eq_true hexc, if_pos rfl, if_pos rfl, if_pos hexc, hsame, hreason, Option.getD_some, ← hreason,
      ← htruncated]
    rfl
  · rw [decide_eq_false hexc, if_neg Bool.false_ne_true, if_neg Bool.false_ne_true, if_neg hexc, htail.whole hexc,
      truncateTail, if_pos (by rw [Exceeds] at hexc; omega)]
    rfl

theorem captured_eq (env : ExecutionEnv) (chunks : List Chunk) :
    captured env chunks = chunks.foldl (onChunk env) .start := by
  have hfol := Follows.run env chunks
  rw [captured]
  generalize chunks.foldl (onChunk env) .start = state at hfol
  generalize chunks.flatMap Chunk.sanitized = whole at hfol
  split_ifs with hmissing
  · obtain ⟨hexceeded, hreq⟩ := Bool.and_eq_true_iff.mp hmissing
    have hexc : state.counters.exceeded = true := hexceeded
    rw [hfol.counters, Counters.exceeded_of, decide_eq_true_eq] at hexc
    by_cases herror : state.captureError = none
    · have hwritten := hfol.written herror
      rw [Written, if_pos hexc] at hwritten
      rw [hwritten.1] at hreq
      cases hreq
    · rw [FullOutput.ensureFullOutputFile, Option.isSome_iff_ne_none.mpr herror, Bool.or_true, if_pos rfl]
  · rfl

/-- Nothing fails: the command ends with a code, the file is written, and the caller's function returns. -/
structure Undisturbed (env : ExecutionEnv) (chunks : List Chunk) : Prop where
  exec : ∃ code, env.exec = .ok (.ok code)
  files : env.FilesWork
  onChunk : ∀ chunk ∈ chunks, chunk.onChunk = .ok ()

theorem captureError_eq {chunks : List Chunk} (hreturns : ∀ chunk ∈ chunks, chunk.onChunk = .ok ()) (state : Capture) :
    (chunks.foldl (onChunk env) state).captureError = state.captureError := by
  induction chunks generalizing state with
  | nil => rfl
  | cons chunk chunks ih =>
    obtain ⟨hchunk, hchunks⟩ := forall_mem_cons.mp hreturns
    rw [foldl_cons, ih hchunks, onChunk, hchunk]

theorem returned_progress {chunks : List Chunk} {result : ShellCaptureResult}
    (hresult : executeShellWithCapture env chunks = .ok result) :
    result.toShellCaptureProgress = (captured env chunks).createProgress ∧
      (captured env chunks).captureError = none ∧ (captured env chunks).file.writeChain = .ok () := by
  rw [executeShellWithCapture] at hresult
  cases hexec : env.exec with
  | error error =>
    rw [hexec] at hresult
    cases hresult
  | ok ended =>
    simp only [hexec] at hresult
    generalize captured env chunks = state at hresult ⊢
    cases hchain : state.file.writeChain with
    | error error =>
      simp only [hchain] at hresult
      cases hresult
    | ok _ =>
      cases herror : state.captureError with
      | some error =>
        simp only [hchain, herror] at hresult
        cases hresult
      | none =>
        refine ⟨?_, rfl, rfl⟩
        simp only [hchain, herror] at hresult
        cases ended with
        | ok code =>
          cases hresult
          rfl
        | error error =>
          dsimp only at hresult
          split_ifs at hresult <;> cases hresult <;> rfl

theorem returned_of_undisturbed {chunks : List Chunk} (hundisturbed : Undisturbed env chunks) :
    ∃ result, executeShellWithCapture env chunks = .ok result := by
  obtain ⟨⟨code, hexec⟩, hfiles, hreturns⟩ := hundisturbed
  have herror : (captured env chunks).captureError = none := by
    rw [captured_eq, captureError_eq hreturns]
    rfl
  have hchain : (captured env chunks).file.writeChain = .ok () := by
    have hwritten := (Follows.run env chunks).written
    rw [← captured_eq] at hwritten
    specialize hwritten herror
    rw [Written] at hwritten
    split_ifs at hwritten
    · obtain ⟨-, ⟨-, hfail⟩ | ⟨hchain, -⟩⟩ := hwritten
      · exact absurd hfiles hfail
      · exact hchain
    · exact hwritten.2.1
  refine ⟨⟨(captured env chunks).createProgress, if env.aborted then none else some code, env.aborted,
    (captured env chunks).createProgress.truncation.truncated, none⟩, ?_⟩
  simp only [executeShellWithCapture, hexec, hchain, herror]

/-- What is reported of a whole text: its truncation with its totals, and the bytes of its last line. -/
def Reports (whole : Text) (progress : ShellCaptureProgress) : Prop :=
  progress.output = (if Exceeds whole then (truncateTail whole defaultMaxLines defaultMaxBytes).content else whole) ∧
    progress.truncation = truncateTail whole defaultMaxLines defaultMaxBytes ∧
    progress.truncation.totalLines = (splitLinesForCounting whole).length ∧
    progress.truncation.totalBytes = utf8ByteLength whole ∧
    progress.lastLineBytes = utf8ByteLength (lastLine whole)

end PiRp.ShellOutput

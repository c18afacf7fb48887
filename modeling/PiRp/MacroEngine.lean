import PiRp.JsMap
import PiRp.JsOccurrences

/-! The macros of prompt presets. `expandMacros` replaces balanced `{{ }}` regions from the inside out: the content
of a region is expanded before it is read as a comment, a macro call or a variable. -/

namespace PiRp.Macros

/-! ### Variables -/

/-- The members every object inherits, by what `String` makes of them. -/
def inheritedText (name : JsStr) : Option JsStr :=
  let functions := ["constructor", "__defineGetter__", "__defineSetter__", "hasOwnProperty", "__lookupGetter__",
    "__lookupSetter__", "isPrototypeOf", "propertyIsEnumerable", "toString", "valueOf", "toLocaleString"]
  if name = js "__proto__" then some (js "[object Object]")
  else (functions.find? fun member => js member = name).map fun member =>
    js "function " ++ js (if member = "constructor" then "Object" else member) ++ js "() \x7b [native code] \x7d"

abbrev Variables := JsMap JsStr JsStr

namespace Variables

/-- `variables[name]` as a text; an own property hides an inherited one. -/
def read (vars : Variables) (name : JsStr) : Option JsStr :=
  (vars.get? name).or (inheritedText name)

/-- `variables[name] = value`; a text is no prototype. -/
def write (vars : Variables) (name value : JsStr) : Variables :=
  if name = js "__proto__" then vars else vars.set name value

end Variables

/-! ### Macros -/

/-- What a macro sees and changes: the variables and whatever a custom macro keeps elsewhere. -/
structure Memory (ω : Type) where
  vars : Variables
  hidden : ω
  deriving DecidableEq

/-- `MacroDefinition` without its texts. -/
structure Macro (ω : Type) where
  render : Memory ω → Option JsStr → JsStr × Memory ω
  isStatic : Bool

/-- The local time of a `Date`. -/
structure LocalTime where
  fullYear : Int
  month : Nat
  date : Nat
  hours : Nat
  minutes : Nat
  seconds : Nat

/-- The properties of the runtime that the built-in macros read. -/
structure RuntimeFields where
  now : LocalTime
  cwd : JsStr
  latestUserMessage : Option JsStr
  selectedTools : Option (List JsStr)

/-- `String(value).padStart(2, "0")`. -/
def padded (value : Nat) : JsStr := js (if value < 10 then "0" else "") ++ js (toString value)

def formatDate (now : LocalTime) : JsStr :=
  js (toString now.fullYear) ++ js "-" ++ padded (now.month + 1) ++ js "-" ++ padded now.date

def formatTime (now : LocalTime) : JsStr :=
  padded now.hours ++ js ":" ++ padded now.minutes ++ js ":" ++ padded now.seconds

/-- `text.includes(word)`. -/
def includes (word text : JsStr) : Bool := (JsStr.indexOf word text).isSome

/-- The parameters of a variable macro without the colon that `::` leaves. -/
def strippedParams (params : JsStr) : JsStr := if JsStr.startsWith params (js ":") then params.tail else params

/-- The key and the value of `setvar` and `addvar`. -/
def keyValue? (params : Option JsStr) : Option (JsStr × JsStr) :=
  match params with
  | none | some [] => none
  | some params =>
    let stripped := strippedParams params
    let sep := if includes (js "::") stripped then js "::" else js ":"
    (JsStr.indexOf sep stripped).map fun idx => (stripped.take idx, stripped.drop (idx + sep.length))

def trimMarker : JsStr := [0xE000] ++ js "TRIM" ++ [0xE000]

section BuiltIn

variable {ω : Type}

/-- A macro that only reads. -/
def reading (isStatic : Bool) (value : Variables → Option JsStr → JsStr) : Macro ω :=
  ⟨fun memory params => (value memory.vars params, memory), isStatic⟩

/-- A macro that renders nothing and writes a variable. -/
def writing (value : Variables → JsStr → JsStr → JsStr) : Macro ω where
  render memory params :=
    match keyValue? params with
    | none => ([], memory)
    | some (key, text) =>
      ([], { memory with vars := memory.vars.write key (value memory.vars key text) })
  isStatic := false

/-- `builtInMacros` -/
def builtInMacros (runtime : RuntimeFields) : List (JsStr × Macro ω) :=
  let tools := fun _ _ => JsStr.join (js ", ") (runtime.selectedTools.getD [])
  [(js "date", reading false fun _ _ => formatDate runtime.now),
    (js "time", reading false fun _ _ => formatTime runtime.now),
    (js "cwd", reading true fun _ _ => runtime.cwd.map fun unit => if unit = 0x5C then 0x2F else unit),
    (js "lastUserMessage", reading false fun _ _ => runtime.latestUserMessage.getD []),
    (js "tools", reading true tools),
    (js "selectedTools", reading true tools),
    (js "activeModel", reading true fun _ _ => []),
    (js "setvar", writing fun _ _ value => value),
    (js "addvar", writing fun vars key value => (vars.read key).getD [] ++ value),
    (js "getvar", reading false fun vars params =>
      match params with
      | none | some [] => []
      | some params => (vars.read (strippedParams params)).getD []),
    (js "trim", reading false fun _ _ => trimMarker),
    (js "user", reading false fun vars _ => (vars.read (js "user")).getD (js "user"))]

end BuiltIn

/-! ### The expander -/

inductive Mode where
  | all
  | static
  | dynamic

inductive UnresolvedPolicy where
  | warn
  | keep
  | error

inductive Level where
  | warning
  | error
  deriving DecidableEq

/-- `PromptPresetDiagnostic` -/
structure Diagnostic where
  level : Level
  message : JsStr
  deriving DecidableEq

/-- What an expansion reads: the runtime, the custom macros of its registry and the options. -/
structure Env (ω : Type) where
  runtime : RuntimeFields
  customMacros : JsStr → Option (Macro ω)
  mode : Mode
  unresolvedPolicy : UnresolvedPolicy

/-- What an expansion changes; the snapshot of static macros may be missing. -/
structure State (ω : Type) where
  memory : Memory ω
  snapshot : Option (JsMap JsStr JsStr)
  diagnostics : List Diagnostic
  deriving DecidableEq

variable {ω : Type}

def getMacro (env : Env ω) (name : JsStr) : Option (Macro ω) :=
  (((builtInMacros env.runtime).find? fun entry => entry.1 = name).map Prod.snd).or (env.customMacros name)

def State.report (state : State ω) (level : Level) (message : JsStr) : State ω :=
  { state with diagnostics := state.diagnostics ++ [⟨level, message⟩] }

def leftBrace : UInt16 := 0x7B

def rightBrace : UInt16 := 0x7D

/-- A region with its braces. -/
def braced (content : JsStr) : JsStr :=
  leftBrace :: leftBrace :: (content ++ [rightBrace, rightBrace])

/-- The scan for the end of a region inside `depth` others: the content and what follows the braces. -/
def scan (depth : Nat) : JsStr → Option (JsStr × JsStr)
  | [] | [_] => none
  | unit :: next :: rest =>
    if unit = leftBrace ∧ next = leftBrace then
      (scan (depth + 1) rest).map fun found => (unit :: next :: found.1, found.2)
    else if unit = rightBrace ∧ next = rightBrace then
      if depth = 0 then some ([], rest)
      else (scan (depth - 1) rest).map fun found => (unit :: next :: found.1, found.2)
    else (scan depth (next :: rest)).map fun found => (unit :: found.1, found.2)

/-- `\w` -/
def isWord (unit : UInt16) : Bool :=
  (0x30 ≤ unit && unit ≤ 0x39) || (0x41 ≤ unit && unit ≤ 0x5A) || unit = 0x5F || (0x61 ≤ unit && unit ≤ 0x7A)

/-- A match of `/^(\w[\w.]*)(?::([\s\S]*))?$/`: the name and the parameters. -/
def matchCall (content : JsStr) : Option (JsStr × Option JsStr) :=
  match content with
  | [] => none
  | first :: _ =>
    if !isWord first then none
    else
      let name := content.takeWhile fun unit => isWord unit || unit = 0x2E
      match content.drop name.length with
      | [] => some (name, none)
      | colon :: params => if colon = 0x3A then some (name, some params) else none

/-- A static macro whose parameters contain macros is left as it is. -/
def keepsNested (env : Env ω) (rawContent : JsStr) : Bool :=
  let opening := [leftBrace, leftBrace]
  includes opening rawContent &&
    (matchCall rawContent).any fun call =>
      call.2.any (includes opening) && (getMacro env call.1).any Macro.isStatic

def shouldExpand (mode : Mode) (isStatic : Bool) : Bool :=
  match mode with
  | .all => true
  | .static => isStatic
  | .dynamic => !isStatic

/-- What a call of a macro renders, from the snapshot when the macro is static. -/
def renderCall (called : Macro ω) (rawContent : JsStr) (params : Option JsStr) (state : State ω) :
    JsStr × State ω :=
  let snapshot := if called.isStatic then state.snapshot else none
  match snapshot with
  | none =>
    let rendered := called.render state.memory params
    (rendered.1, { state with memory := rendered.2 })
  | some entries =>
    match entries.get? rawContent with
    | some value => (value, state)
    | none =>
      let rendered := called.render state.memory params
      (rendered.1, { state with memory := rendered.2, snapshot := some (entries.set rawContent rendered.1) })

/-- What stands for a region whose content was expanded. -/
def resolve (env : Env ω) (rawContent expandedContent : JsStr) (state : State ω) : JsStr × State ω :=
  if JsStr.startsWith expandedContent (js "//") then ([], state)
  else match matchCall expandedContent with
    | none => (braced expandedContent, state)
    | some (name, params) =>
      match getMacro env name with
      | some called =>
        if shouldExpand env.mode called.isStatic then renderCall called rawContent params state
        else (braced expandedContent, state)
      | none =>
        match state.memory.vars.read name with
        | some value => (value, state)
        | none =>
          let message := js "Unresolved macro \"" ++ braced expandedContent ++ js "\""
          (braced expandedContent,
            match env.unresolvedPolicy with
            | .keep => state
            | .warn => state.report .warning message
            | .error => state.report .error message)

def nestedMessage (rawContent : JsStr) : JsStr :=
  js "Static macro \"" ++ braced rawContent ++ js "\" cannot contain nested macros"

/-- How a scan reads a text to the end of its region. -/
inductive Scans : Nat → JsStr → JsStr → JsStr → Prop where
  | opened {depth : Nat} {rest rawContent after : JsStr} (hscans : Scans (depth + 1) rest rawContent after) :
      Scans depth (leftBrace :: leftBrace :: rest) (leftBrace :: leftBrace :: rawContent) after
  | last (after : JsStr) : Scans 0 (rightBrace :: rightBrace :: after) [] after
  | closed {depth : Nat} {rest rawContent after : JsStr} (hscans : Scans depth rest rawContent after) :
      Scans (depth + 1) (rightBrace :: rightBrace :: rest) (rightBrace :: rightBrace :: rawContent) after
  | skipped {depth : Nat} {unit next : UInt16} {rest rawContent after : JsStr}
      (hopen : ¬ (unit = leftBrace ∧ next = leftBrace)) (hclose : ¬ (unit = rightBrace ∧ next = rightBrace))
      (hscans : Scans depth (next :: rest) rawContent after) :
      Scans depth (unit :: next :: rest) (unit :: rawContent) after

theorem Scans.of_scan {depth : Nat} {text rawContent after : JsStr}
    (hscan : scan depth text = some (rawContent, after)) : Scans depth text rawContent after := by
  induction depth, text using scan.induct generalizing rawContent with
  | case1 | case2 => exact nomatch hscan
  | case3 depth unit next rest hopen ih =>
    rw [scan, if_pos hopen] at hscan
    obtain ⟨found, hfound, heq⟩ := Option.map_eq_some_iff.mp hscan
    cases heq
    obtain ⟨rfl, rfl⟩ := hopen
    exact .opened (ih hfound)
  | case4 unit next rest hopen hclose =>
    rw [scan, if_neg hopen, if_pos hclose, if_pos rfl] at hscan
    cases hscan
    obtain ⟨rfl, rfl⟩ := hclose
    exact .last _
  | case5 depth unit next rest hopen hclose hdepth ih =>
    rw [scan, if_neg hopen, if_pos hclose, if_neg hdepth] at hscan
    obtain ⟨found, hfound, heq⟩ := Option.map_eq_some_iff.mp hscan
    cases heq
    obtain ⟨rfl, rfl⟩ := hclose
    obtain ⟨outer, rfl⟩ := Nat.exists_eq_succ_of_ne_zero hdepth
    exact .closed (ih hfound)
  | case6 depth unit next rest hopen hclose ih =>
    rw [scan, if_neg hopen, if_neg hclose] at hscan
    obtain ⟨found, hfound, heq⟩ := Option.map_eq_some_iff.mp hscan
    cases heq
    exact .skipped hopen hclose (ih hfound)

theorem eq_of_scan {depth : Nat} {text rawContent after : JsStr}
    (hscan : scan depth text = some (rawContent, after)) : text = rawContent ++ rightBrace :: rightBrace :: after := by
  replace hscan := Scans.of_scan hscan
  induction hscan with
  | last after => rfl
  | opened _ ih | closed _ ih | skipped _ _ _ ih => rw [ih]; rfl

/-- What stands behind an opening brace pair. -/
def afterOpening (text : JsStr) : Option JsStr :=
  if [leftBrace, leftBrace].isPrefixOf text then some (text.drop 2) else none

theorem eq_of_afterOpening {text rest : JsStr} (hopening : afterOpening text = some rest) :
    text = leftBrace :: leftBrace :: rest := by
  rw [afterOpening] at hopening
  split_ifs at hopening with hstar
  obtain ⟨tail, rfl⟩ := List.isPrefixOf_iff_prefix.mp hstar
  cases hopening
  rfl

set_option linter.unusedVariables false in
/-- `processText` -/
def processText (env : Env ω) (input : JsStr) (state : State ω) : JsStr × State ω :=
  match input with
  | [] => ([], state)
  | unit :: rest =>
    match hopening : afterOpening (unit :: rest) with
    | some inside =>
      match hscan : scan 0 inside with
      | some (rawContent, after) =>
        if keepsNested env rawContent then
          let next := processText env after (state.report .warning (nestedMessage rawContent))
          (braced rawContent ++ next.1, next.2)
        else
          let expanded := processText env rawContent state
          let region := resolve env rawContent expanded.1 expanded.2
          let next := processText env after region.2
          (region.1 ++ next.1, next.2)
      | none =>
        let next := processText env inside state
        (leftBrace :: leftBrace :: next.1, next.2)
    | none =>
      let next := processText env rest state
      (unit :: next.1, next.2)
  termination_by input.length
  decreasing_by
    all_goals
      first
        | have htext := congrArg List.length (eq_of_afterOpening hopening)
          have hins := congrArg List.length (eq_of_scan hscan)
          simp only [List.length_cons, List.length_append] at htext hins ⊢
          omega
        | have htext := congrArg List.length (eq_of_afterOpening hopening)
          simp only [List.length_cons] at htext ⊢
          omega
        | simp

/-! ### Trimming -/

/-- The length of a match of a marker with the white space around it. -/
def markedLength (text : JsStr) : Option Nat :=
  let spaces := text.takeWhile JsStr.isWhitespace
  let behind := text.drop spaces.length
  if trimMarker.isPrefixOf behind then
    let following := (behind.drop trimMarker.length).takeWhile JsStr.isWhitespace
    some (spaces.length + trimMarker.length + following.length)
  else none

/-- Removes the matches; `skip` units of one are still to be passed over. -/
def removeMarked : Nat → JsStr → JsStr
  | _, [] => []
  | skip + 1, _ :: rest => removeMarked skip rest
  | 0, unit :: rest =>
    match markedLength (unit :: rest) with
    | some length => removeMarked (length - 1) rest
    | none => unit :: removeMarked 0 rest

/-- `expandMacros`: the text and what was changed on the way. -/
def expandMacros (env : Env ω) (text : JsStr) (state : State ω) : JsStr × State ω :=
  let processed := processText env text state
  (removeMarked 0 processed.1, processed.2)

/-- The text and the variables an expansion leaves. -/
def outcome (env : Env ω) (text : JsStr) (state : State ω) : JsStr × Variables :=
  let expanded := expandMacros env text state
  (expanded.1, expanded.2.memory.vars)

end PiRp.Macros

import Mathlib.Data.List.Forall2
import PiRp.IndexWalk
import PiRp.LlmMessages

/-! `convertToLlm`: the messages for a provider. A custom message between a tool call and its result is held back
until a message comes that is neither. -/

namespace PiRp.Llm

open List Option

/-! ### The conversion of a message -/

inductive Participation where
  | included
  | excluded
  deriving DecidableEq

inductive LlmRole where
  | user
  | assistant

structure CustomTypePolicy where
  context : Participation
  llmRole : LlmRole
  compaction : Option Participation
  renderContent : Option (CustomMessage → Option Content)

def defaultCustomTypePolicy : CustomTypePolicy := ⟨.included, .user, some .included, none⟩

abbrev CustomTypeResolver := JsStr → Option CustomTypePolicy

def bashExecutionToText (msg : BashExecutionMessage) : JsStr :=
  js "Ran `" ++ msg.command ++ js "`\n" ++
    (if msg.output ≠ [] then js "```\n" ++ msg.output ++ js "\n```" else js "(no output)") ++
    (if msg.cancelled then js "\n\n(command cancelled)"
    else match msg.exitCode with
      | some exitCode => if exitCode ≠ 0 then js "\n\nCommand exited with code " ++ js (toString exitCode) else []
      | none => []) ++
    match msg.fullOutputPath with
    | some path =>
      if msg.truncated && path ≠ [] then js "\n\n[Output truncated. Full output: " ++ path ++ js "]" else []
    | none => []

/-- `summaryToUserMessage` -/
def summaryText : SummaryKind → JsStr → JsStr
  | .compaction, summary =>
    js "The conversation history before this point was compacted into the following summary:\n\n<summary>\n" ++
      summary ++ js "\n</summary>"
  | .branch, summary =>
    js "The following is a summary of a branch that this conversation came back from:\n\n<summary>\n" ++
      summary ++ js "</summary>"

def userText (text : JsStr) (timestamp : Nat) : Message := .user (some (.blocks [.text text none])) timestamp

/-- What a custom message becomes, unless its policy leaves it out. -/
def convertCustom (policy : CustomTypePolicy) (forSummarization : Bool) (m : CustomMessage) : Option Message :=
  if policy.context = .excluded then none
  else if forSummarization && policy.compaction = some .excluded then none
  else
    let content := match policy.renderContent with
      | some renderContent => ((renderContent m).getD m.content).toBlocks
      | none => m.content.toBlocks
    some (match policy.llmRole with
      | .user => .user (some (.blocks content)) m.timestamp
      | .assistant => .assistant ⟨some content, none, none, none, none, m.timestamp⟩)

section Conversion

variable (resolveCustomType : CustomTypeResolver) (forSummarization : Bool)

/-- The switch of the loop; none where it goes on with the next message. -/
def convert : AgentMessage → Option Message
  | .bashExecution m =>
    if m.excludeFromContext then none else some (userText (bashExecutionToText m) m.timestamp)
  | .custom m =>
    convertCustom ((resolveCustomType m.customType).getD defaultCustomTypePolicy) forSummarization m
  | .summary kind summary timestamp => some (userText (summaryText kind summary) timestamp)
  | .llm message => some message
  | .other => none

def hasToolCallBlocks (content : Option (List Block)) : Bool :=
  (content.getD []).any fun block => block.toolCall?.isSome

/-! ### The loop -/

structure Conversion where
  out : List Message
  sourceIndices : List Nat
  held : List Message
  heldIndices : List Nat
  pendingToolCall : Bool

namespace Conversion

def flush (state : Conversion) : Conversion :=
  ⟨state.out ++ state.held, state.sourceIndices ++ state.heldIndices, [], [], false⟩

def push (state : Conversion) (converted : Message) (sourceIndex : Nat) : Conversion :=
  { state with out := state.out ++ [converted], sourceIndices := state.sourceIndices ++ [sourceIndex] }

def hold (state : Conversion) (converted : Message) (sourceIndex : Nat) : Conversion :=
  { state with held := state.held ++ [converted], heldIndices := state.heldIndices ++ [sourceIndex] }

/-- Where the loop puts a converted message. -/
def place (state : Conversion) (m : AgentMessage) (converted : Message) (sourceIndex : Nat) : Conversion :=
  match m with
  | .llm (.assistant message) =>
    { state.flush.push converted sourceIndex with pendingToolCall := hasToolCallBlocks message.content }
  | .llm (.toolResult _) => state.push converted sourceIndex
  | .custom _ =>
    if state.pendingToolCall then state.hold converted sourceIndex else state.flush.push converted sourceIndex
  | _ => state.flush.push converted sourceIndex

/-- The body of the loop. -/
def step (state : Conversion) (entry : AgentMessage × Nat) : Conversion :=
  match convert resolveCustomType forSummarization entry.1 with
  | none => state
  | some converted => state.place entry.1 converted entry.2

def initial : Conversion := ⟨[], [], [], [], false⟩

/-- The loop over the messages. -/
def run (messages : List AgentMessage) : Conversion :=
  messages.zipIdx.foldl (step resolveCustomType forSummarization) initial

end Conversion

/-- The converted messages and their source indices. -/
def convertToLlm (messages : List AgentMessage) : List Message × List Nat :=
  let state := (Conversion.run resolveCustomType forSummarization messages).flush
  (state.out, state.sourceIndices)

/-! ### What is held back -/

/-- The message ends the wait for tool results. -/
def interrupts (m : AgentMessage) : Bool :=
  match m with
  | .custom _ | .llm (.toolResult _) => false
  | m => (convert resolveCustomType forSummarization m).isSome

/-- An assistant message with tool calls. -/
def asks : AgentMessage → Bool
  | .llm (.assistant message) => hasToolCallBlocks message.content
  | _ => false

/-- Tool results may still come: the last interruption is an assistant message with tool calls. -/
def awaiting (before : List AgentMessage) : Bool :=
  (before.reverse.find? (interrupts resolveCustomType forSummarization)).any asks

/-- The custom message at an index comes while tool results may come. -/
def heldBack (messages : List AgentMessage) (index : Nat) : Bool :=
  match messages[index]? with
  | some (.custom _) => awaiting resolveCustomType forSummarization (messages.take index)
  | _ => false

/-- The indices before a bound of the messages that are not left out. -/
def includedBefore (messages : List AgentMessage) (bound : Nat) : List Nat :=
  (List.range bound).filter fun index =>
    messages[index]?.any fun m => (convert resolveCustomType forSummarization m).isSome

/-- The converted message is made from the message at the index. -/
def Converts (messages : List AgentMessage) (converted : Message) (index : Nat) : Prop :=
  ∃ m, messages[index]? = some m ∧ convert resolveCustomType forSummarization m = some converted

/-- The state after the messages before a bound. -/
structure Consistent (messages : List AgentMessage) (bound : Nat) (state : Conversion) : Prop where
  pending : state.pendingToolCall = awaiting resolveCustomType forSummarization (messages.take bound)
  out : List.Forall₂ (Converts resolveCustomType forSummarization messages) state.out state.sourceIndices
  held : List.Forall₂ (Converts resolveCustomType forSummarization messages) state.held state.heldIndices
  late : ∀ index ∈ state.heldIndices, heldBack resolveCustomType forSummarization messages index = true
  steady : state.sourceIndices.filter (fun index => !heldBack resolveCustomType forSummarization messages index) =
    (includedBefore resolveCustomType forSummarization messages bound).filter
      fun index => !heldBack resolveCustomType forSummarization messages index
  delayed : state.sourceIndices.filter (heldBack resolveCustomType forSummarization messages) ++ state.heldIndices =
    (includedBefore resolveCustomType forSummarization messages bound).filter
      (heldBack resolveCustomType forSummarization messages)

end Conversion

/-! ### The invariant -/

section Invariant

variable {resolveCustomType : CustomTypeResolver} {forSummarization : Bool} {messages : List AgentMessage}
  {bound : Nat} {state : Conversion} {m : AgentMessage} {converted : Message}

theorem includedBefore_succ (hm : messages[bound]? = some m) :
    includedBefore resolveCustomType forSummarization messages (bound + 1) =
      includedBefore resolveCustomType forSummarization messages bound ++
        if (convert resolveCustomType forSummarization m).isSome then [bound] else [] := by
  rw [includedBefore, range_succ, filter_append, includedBefore]
  simp only [filter_cons, hm, any_some, filter_nil]

theorem awaiting_append_of_not (before : List AgentMessage)
    (hint : interrupts resolveCustomType forSummarization m = false) :
    awaiting resolveCustomType forSummarization (before ++ [m]) =
      awaiting resolveCustomType forSummarization before := by
  rw [awaiting, reverse_append, reverse_singleton, singleton_append,
    find?_cons_of_neg (by rw [hint]; exact Bool.false_ne_true), awaiting]

theorem awaiting_append (before : List AgentMessage) (hint : interrupts resolveCustomType forSummarization m = true) :
    awaiting resolveCustomType forSummarization (before ++ [m]) = asks m := by
  rw [awaiting, reverse_append, reverse_singleton, singleton_append, find?_cons_of_pos hint, any_some]

theorem take_succ_of_getElem? (hm : messages[bound]? = some m) :
    messages.take (bound + 1) = messages.take bound ++ [m] := by
  rw [take_add_one, hm, toList_some]

theorem run_take_succ (hm : messages[bound]? = some m) :
    Conversion.run resolveCustomType forSummarization (messages.take (bound + 1)) =
      Conversion.step resolveCustomType forSummarization
        (Conversion.run resolveCustomType forSummarization (messages.take bound)) (m, bound) := by
  have hlen : bound ≤ messages.length := (List.getElem?_eq_some_iff.mp hm).1.le
  rw [Conversion.run, take_succ_of_getElem? hm, zipIdx_append, foldl_append, Conversion.run,
    length_take_of_le hlen, Nat.zero_add]
  rfl

theorem filter_late {indices : List Nat} (hlate : ∀ index ∈ indices,
    heldBack resolveCustomType forSummarization messages index = true) :
    indices.filter (heldBack resolveCustomType forSummarization messages) = indices ∧
      indices.filter (fun index => !heldBack resolveCustomType forSummarization messages index) = [] := by
  refine ⟨filter_eq_self.mpr hlate, filter_eq_nil_iff.mpr fun index hindex => ?_⟩
  rw [hlate index hindex]
  exact Bool.false_ne_true

section

variable (hstate : Consistent resolveCustomType forSummarization messages bound state)

include hstate

variable (hm : messages[bound]? = some m)

include hm

section

variable (hcon : convert resolveCustomType forSummarization m = some converted)

include hcon

theorem Consistent.flushed
    {pending : Bool} (hpend : pending = awaiting resolveCustomType forSummarization (messages.take (bound + 1))) :
    Consistent resolveCustomType forSummarization messages (bound + 1)
      { state.flush.push converted bound with pendingToolCall := pending } where
  pending := hpend
  out := rel_append (rel_append hstate.out hstate.held)
    (List.Forall₂.cons ⟨m, hm, hcon⟩ List.Forall₂.nil)
  held := List.Forall₂.nil
  late _ hindex := absurd hindex not_mem_nil
  steady := by
    rw [includedBefore_succ hm, hcon, isSome_some, if_pos rfl, filter_append, ← hstate.steady]
    change ((state.sourceIndices ++ state.heldIndices) ++ [bound]).filter _ = _
    rw [filter_append, filter_append, (filter_late hstate.late).2, append_nil]
  delayed := by
    rw [includedBefore_succ hm, hcon, isSome_some, if_pos rfl, filter_append, ← hstate.delayed]
    change ((state.sourceIndices ++ state.heldIndices) ++ [bound]).filter _ ++ [] = _
    rw [filter_append, filter_append, (filter_late hstate.late).1, append_nil]

theorem Consistent.pushed
    (hnow : heldBack resolveCustomType forSummarization messages bound = false)
    (hint : interrupts resolveCustomType forSummarization m = false) :
    Consistent resolveCustomType forSummarization messages (bound + 1) (state.push converted bound) where
  pending := by
    rw [take_succ_of_getElem? hm, awaiting_append_of_not _ hint, ← hstate.pending]
    rfl
  out := rel_append hstate.out (List.Forall₂.cons ⟨m, hm, hcon⟩ List.Forall₂.nil)
  held := hstate.held
  late := hstate.late
  steady := by
    rw [includedBefore_succ hm, hcon, isSome_some, if_pos rfl, filter_append, ← hstate.steady]
    exact filter_append _ _
  delayed := by
    have hbound : [bound].filter (heldBack resolveCustomType forSummarization messages) = [] := by
      rw [filter_cons_of_neg (by rw [hnow]; exact Bool.false_ne_true), filter_nil]
    rw [includedBefore_succ hm, hcon, isSome_some, if_pos rfl, filter_append, ← hstate.delayed, hbound, append_nil]
    change (state.sourceIndices ++ [bound]).filter _ ++ state.heldIndices = _
    rw [filter_append, hbound, append_nil]

theorem Consistent.holds
    (hnow : heldBack resolveCustomType forSummarization messages bound = true)
    (hint : interrupts resolveCustomType forSummarization m = false) :
    Consistent resolveCustomType forSummarization messages (bound + 1) (state.hold converted bound) where
  pending := by
    rw [take_succ_of_getElem? hm, awaiting_append_of_not _ hint, ← hstate.pending]
    rfl
  out := hstate.out
  held := rel_append hstate.held (List.Forall₂.cons ⟨m, hm, hcon⟩ List.Forall₂.nil)
  late index hindex := by
    rcases mem_append.mp hindex with hindex | hindex
    · exact hstate.late index hindex
    · rwa [mem_singleton.mp hindex]
  steady := by
    have hbound : [bound].filter (fun index => !heldBack resolveCustomType forSummarization messages index) = [] :=
      (filter_late fun index hindex => by rwa [mem_singleton.mp hindex]).2
    rw [includedBefore_succ hm, hcon, isSome_some, if_pos rfl, filter_append, ← hstate.steady, hbound, append_nil]
    rfl
  delayed := by
    rw [includedBefore_succ hm, hcon, isSome_some, if_pos rfl, filter_append, ← hstate.delayed,
      filter_cons_of_pos hnow, filter_nil, append_assoc]
    rfl

end

theorem Consistent.skips (hcon : convert resolveCustomType forSummarization m = none)
    (hint : interrupts resolveCustomType forSummarization m = false) :
    Consistent resolveCustomType forSummarization messages (bound + 1) state := by
  have hinc : includedBefore resolveCustomType forSummarization messages (bound + 1) =
      includedBefore resolveCustomType forSummarization messages bound := by
    rw [includedBefore_succ hm, hcon, isSome_none, if_neg Bool.false_ne_true, append_nil]
  refine ⟨?_, hstate.out, hstate.held, hstate.late, ?_, ?_⟩
  · rw [take_succ_of_getElem? hm, awaiting_append_of_not _ hint, hstate.pending]
  · rw [hinc, hstate.steady]
  · rw [hinc, hstate.delayed]

end

/-- A message that is neither a custom one nor a tool result. -/
def isPlain : AgentMessage → Bool
  | .custom _ | .llm (.toolResult _) => false
  | _ => true

theorem interrupts_plain (hplain : isPlain m = true) :
    interrupts resolveCustomType forSummarization m = (convert resolveCustomType forSummarization m).isSome := by
  cases m with
  | llm message => cases message <;> first | rfl | exact nomatch hplain
  | custom message => exact nomatch hplain
  | bashExecution message => rfl
  | summary kind summary timestamp => rfl
  | other => rfl

theorem place_plain (hplain : isPlain m = true) :
    state.place m converted bound = { state.flush.push converted bound with pendingToolCall := asks m } := by
  cases m with
  | llm message => cases message <;> first | rfl | exact nomatch hplain
  | custom message => exact nomatch hplain
  | bashExecution message => rfl
  | summary kind summary timestamp => rfl
  | other => rfl

theorem Consistent.step (hstate : Consistent resolveCustomType forSummarization messages bound state)
    (hm : messages[bound]? = some m) : Consistent resolveCustomType forSummarization messages (bound + 1)
      (Conversion.step resolveCustomType forSummarization state (m, bound)) := by
  rw [Conversion.step]
  dsimp only
  cases hplain : isPlain m with
  | true =>
    have hint := @interrupts_plain resolveCustomType forSummarization m hplain
    cases hcon : convert resolveCustomType forSummarization m with
    | none => exact hstate.skips hm hcon (by rw [hint, hcon]; rfl)
    | some converted =>
      dsimp only
      rw [place_plain hplain]
      refine hstate.flushed hm hcon ?_
      rw [take_succ_of_getElem? hm, awaiting_append _ (by rw [hint, hcon]; rfl)]
  | false =>
    cases m with
    | llm message =>
      cases message with
      | toolResult message =>
        exact hstate.pushed hm rfl (by rw [heldBack, hm]) rfl
      | _ => exact nomatch hplain
    | custom message =>
      cases hcon : convert resolveCustomType forSummarization (.custom message) with
      | none => exact hstate.skips hm hcon rfl
      | some converted =>
        have hheld : heldBack resolveCustomType forSummarization messages bound = state.pendingToolCall := by
          rw [heldBack, hm, hstate.pending]
        change Consistent _ _ _ _ (if state.pendingToolCall then _ else _)
        cases hpend : state.pendingToolCall with
        | true => exact hstate.holds hm hcon (hheld.trans hpend) rfl
        | false =>
          refine hstate.flushed hm hcon ?_
          rw [take_succ_of_getElem? hm, awaiting_append_of_not _ rfl, ← hstate.pending, hpend]
          rfl
    | _ => exact nomatch hplain

theorem Consistent.run (resolveCustomType : CustomTypeResolver) (forSummarization : Bool)
    (messages : List AgentMessage) {bound : Nat} (hbound : bound ≤ messages.length) :
    Consistent resolveCustomType forSummarization messages bound
      (Conversion.run resolveCustomType forSummarization (messages.take bound)) := by
  induction bound with
  | zero => exact ⟨rfl, List.Forall₂.nil, List.Forall₂.nil, fun _ hindex => absurd hindex not_mem_nil, rfl, rfl⟩
  | succ bound ih =>
    have hm : messages[bound]? = some messages[bound] := getElem?_eq_getElem hbound
    rw [run_take_succ hm]
    exact (ih (Nat.le_of_succ_le hbound)).step hm

end Invariant

/-! ### Tool results next to their calls -/

def isCustom : AgentMessage → Bool
  | .custom _ => true
  | _ => false

/-- The tool call a message is the result of. -/
def resultId? : AgentMessage → Option JsStr
  | .llm (.toolResult message) => some message.toolCallId
  | _ => none

/-- An assistant message with the call of an id. -/
def carries (id : JsStr) : AgentMessage → Bool
  | .llm (.assistant message) => (toolCalls message.content).any fun call => call.id = id
  | _ => false

/-- The last assistant message before a tool result with its call. -/
def owner (messages : List AgentMessage) (index : Nat) : Option Nat :=
  (messages[index]?.bind resultId?).bind fun id =>
    (List.range' 0 index).reverse.find? fun earlier => messages[earlier]?.any (carries id)

/-- The tool results of the assistant message at an index, before a bound. -/
def resultsBefore (messages : List AgentMessage) (index bound : Nat) : List Nat :=
  (List.range bound).filter fun later => owner messages later = some index

/-- A custom message or a tool result of the assistant message at an index. -/
def staysWith (messages : List AgentMessage) (index between : Nat) : Bool :=
  messages[between]?.any isCustom || owner messages between = some index

/-- Between an assistant message and its tool results there are only custom messages and other results of it. -/
def OnlyCustomBetween (messages : List AgentMessage) : Prop :=
  ∀ later < messages.length, ∀ index < later, owner messages later = some index →
    ∀ between < later, index < between → staysWith messages index between = true

instance (messages : List AgentMessage) : Decidable (OnlyCustomBetween messages) := by
  unfold OnlyCustomBetween
  infer_instance

section Adjacent

variable {resolveCustomType : CustomTypeResolver} {forSummarization : Bool} {messages : List AgentMessage}
  {index bound : Nat} {m : AgentMessage}

theorem owner_eq_some {later : Nat} (howner : owner messages later = some index) :
    index < later ∧ ∃ message, messages[later]? = some (.llm (.toolResult message)) := by
  obtain ⟨id, hid, hfind⟩ := bind_eq_some_iff.mp howner
  obtain ⟨m, hm, hres⟩ := bind_eq_some_iff.mp hid
  obtain ⟨-, hlt, -, -⟩ := IndexWalk.find?_range_reverse.mp hfind
  refine ⟨by omega, ?_⟩
  cases m with
  | llm message =>
    cases message with
    | toolResult message => exact ⟨message, hm⟩
    | _ => exact nomatch hres
  | _ => exact nomatch hres

theorem resultsBefore_succ (messages : List AgentMessage) (index bound : Nat) :
    resultsBefore messages index (bound + 1) =
      resultsBefore messages index bound ++ if owner messages bound = some index then [bound] else [] := by
  rw [resultsBefore, range_succ, filter_append, resultsBefore]
  simp only [filter_cons, decide_eq_true_eq, filter_nil]

theorem resultsBefore_self (messages : List AgentMessage) (index : Nat) :
    resultsBefore messages index (index + 1) = [] := by
  refine filter_eq_nil_iff.mpr fun later hlater howner => ?_
  have hlt := (owner_eq_some (of_decide_eq_true howner)).1
  rw [mem_range] at hlater
  omega

theorem prefix_step (state : Conversion) (entry : AgentMessage × Nat) :
    state.sourceIndices <+: (Conversion.step resolveCustomType forSummarization state entry).sourceIndices := by
  have hflush : state.sourceIndices <+: state.flush.sourceIndices ++ [entry.2] := by
    rw [Conversion.flush, append_assoc]
    exact prefix_append _ _
  obtain ⟨m, bound⟩ := entry
  rw [Conversion.step]
  dsimp only at hflush ⊢
  split
  · exact prefix_rfl
  · cases hplain : isPlain m with
    | true =>
      rw [place_plain hplain]
      exact hflush
    | false =>
      cases m with
      | llm message =>
        cases message with
        | toolResult message => exact prefix_append _ _
        | _ => exact nomatch hplain
      | custom message =>
        rw [Conversion.place]
        split_ifs
        · exact prefix_rfl
        · exact hflush
      | _ => exact nomatch hplain

theorem step_custom {state : Conversion} (message : CustomMessage) (bound : Nat)
    (hpend : state.pendingToolCall = true) :
    (Conversion.step resolveCustomType forSummarization state (.custom message, bound)).sourceIndices =
        state.sourceIndices ∧
      (Conversion.step resolveCustomType forSummarization state (.custom message, bound)).pendingToolCall = true := by
  rw [Conversion.step]
  dsimp only
  split
  · exact ⟨rfl, hpend⟩
  · rw [Conversion.place, if_pos hpend]
    exact ⟨rfl, hpend⟩

/-- The tool results come right behind their assistant message, at least as long as only custom messages and
results come. -/
theorem run_adjacent (resolveCustomType : CustomTypeResolver) (forSummarization : Bool)
    (hm : messages[index]? = some m) (hasks : asks m = true)
    (hbet : OnlyCustomBetween messages) (hlt : index < bound) (hbound : bound ≤ messages.length) :
    let state := Conversion.run resolveCustomType forSummarization (messages.take bound)
    ∃ before, before ++ index :: resultsBefore messages index bound <+: state.sourceIndices ∧
      ((∀ between, index < between → between < bound → staysWith messages index between = true) →
        before ++ index :: resultsBefore messages index bound = state.sourceIndices ∧
          state.pendingToolCall = true) := by
  induction bound with
  | zero => exact absurd hlt (Nat.not_lt_zero _)
  | succ bound ih =>
    have hnext : messages[bound]? = some messages[bound] := getElem?_eq_getElem hbound
    rw [run_take_succ hnext]
    rcases Nat.lt_succ_iff_lt_or_eq.mp hlt with hear | rfl
    · obtain ⟨before, hpref, hexact⟩ := ih hear (Nat.le_of_succ_le hbound)
      refine ⟨before, ?_⟩
      rw [resultsBefore_succ]
      split_ifs with howner
      · -- a result of the message: all that came since stays with it, so that nothing was pushed behind it
        have hstay := hbet bound hbound index hear howner
        obtain ⟨heq, hpend⟩ := hexact fun between hafter hbef => hstay between hbef hafter
        obtain ⟨-, message, hres⟩ := owner_eq_some howner
        have hpus : before ++ index :: (resultsBefore messages index bound ++ [bound]) =
            (Conversion.run resolveCustomType forSummarization (messages.take bound)).sourceIndices ++ [bound] := by
          rw [← heq, append_assoc, cons_append]
        rw [Option.some.inj (hnext.symm.trans hres), hpus]
        exact ⟨prefix_rfl, fun _ => ⟨rfl, hpend⟩⟩
      · rw [append_nil]
        refine ⟨hpref.trans (prefix_step _ _), fun hstay => ?_⟩
        obtain ⟨heq, hpend⟩ := hexact fun between hafter hbef =>
          hstay between hafter (Nat.lt_succ_of_lt hbef)
        have hcus := hstay bound hear (Nat.lt_succ_self _)
        rw [staysWith, decide_eq_false howner, Bool.or_false, hnext, any_some] at hcus
        rw [heq]
        cases hkind : messages[bound] with
        | custom message =>
          obtain ⟨hsame, hstill⟩ := @step_custom resolveCustomType forSummarization _ message bound hpend
          exact ⟨hsame.symm, hstill⟩
        | _ => rw [hkind] at hcus; exact nomatch hcus
    · obtain rfl := Option.some.inj (hnext.symm.trans hm)
      rw [resultsBefore_self]
      cases hkind : messages[index] with
      | llm message =>
        cases message with
        | assistant message =>
          rw [hkind] at hasks
          exact ⟨_, prefix_rfl, fun _ => ⟨rfl, hasks⟩⟩
        | _ => rw [hkind] at hasks; exact nomatch hasks
      | _ => rw [hkind] at hasks; exact nomatch hasks

/-- The order the conversion keeps: tool results behind their assistant message, and both the messages held back
and the others in their own order. -/
structure KeepsOrder (resolveCustomType : CustomTypeResolver) (forSummarization : Bool)
    (messages : List AgentMessage) (sourceIndices : List Nat) : Prop where
  /-- Every message that is not left out, exactly once. -/
  once : sourceIndices.Perm (includedBefore resolveCustomType forSummarization messages messages.length)
  steady : sourceIndices.filter (fun index => !heldBack resolveCustomType forSummarization messages index) =
    (includedBefore resolveCustomType forSummarization messages messages.length).filter
      fun index => !heldBack resolveCustomType forSummarization messages index
  delayed : sourceIndices.filter (heldBack resolveCustomType forSummarization messages) =
    (includedBefore resolveCustomType forSummarization messages messages.length).filter
      (heldBack resolveCustomType forSummarization messages)
  adjacent : ∀ index m, messages[index]? = some m → asks m = true →
    index :: resultsBefore messages index messages.length <:+: sourceIndices

theorem perm_of_filters {α : Type*} {first second : List α} {select : α → Bool}
    (hsel : first.filter select = second.filter select)
    (hoth : first.filter (fun item => !select item) = second.filter fun item => !select item) : first.Perm second :=
  calc first.Perm (first.filter select ++ first.filter fun item => !select item) :=
        (filter_append_perm select first).symm
    _ = second.filter select ++ second.filter fun item => !select item := by rw [hsel, hoth]
    List.Perm _ second := filter_append_perm select second

/-- **Custom messages never separate a tool call from its results**: where nothing else comes between them, the
conversion puts the results right behind the call, and it keeps the order of the messages held back and of the
others; every index names the message its converted message is made from. -/
theorem convertToLlm_order (resolveCustomType : CustomTypeResolver) (forSummarization : Bool)
    (messages : List AgentMessage) (hbet : OnlyCustomBetween messages) :
    List.Forall₂ (Converts resolveCustomType forSummarization messages)
        (convertToLlm resolveCustomType forSummarization messages).1
        (convertToLlm resolveCustomType forSummarization messages).2 ∧
      KeepsOrder resolveCustomType forSummarization messages
        (convertToLlm resolveCustomType forSummarization messages).2 := by
  have hstate := Consistent.run resolveCustomType forSummarization messages le_rfl
  have hadj : ∀ index m, messages[index]? = some m → asks m = true →
      index :: resultsBefore messages index messages.length <:+:
        (convertToLlm resolveCustomType forSummarization messages).2 := by
    intro index m hm hasks
    obtain ⟨before, hpref, -⟩ := run_adjacent resolveCustomType forSummarization hm hasks hbet
      (List.getElem?_eq_some_iff.mp hm).1 le_rfl
    rw [take_length] at hpref
    obtain ⟨after, heq⟩ := hpref.trans (prefix_append _ (Conversion.run _ _ messages).heldIndices)
    exact ⟨before, after, heq⟩
  rw [take_length] at hstate
  obtain ⟨hheld, hoth⟩ := filter_late hstate.late
  have hsteady : (convertToLlm resolveCustomType forSummarization messages).2.filter
      (fun index => !heldBack resolveCustomType forSummarization messages index) =
        (includedBefore resolveCustomType forSummarization messages messages.length).filter
          fun index => !heldBack resolveCustomType forSummarization messages index := by
    rw [convertToLlm, Conversion.flush, filter_append, hoth, append_nil, hstate.steady]
  have hdel : (convertToLlm resolveCustomType forSummarization messages).2.filter
      (heldBack resolveCustomType forSummarization messages) =
        (includedBefore resolveCustomType forSummarization messages messages.length).filter
          (heldBack resolveCustomType forSummarization messages) := by
    rw [convertToLlm, Conversion.flush, filter_append, hheld, hstate.delayed]
  exact ⟨rel_append hstate.out hstate.held, perm_of_filters hdel hsteady, hsteady, hdel, hadj⟩

/-- Narration between two calls and their results. -/
def narrated : List AgentMessage :=
  let call := fun id => Block.toolCall ⟨id, js "read", .null, none⟩
  let result := fun id => AgentMessage.llm (.toolResult ⟨id, js "read", some [], false, 0⟩)
  let narration := AgentMessage.custom ⟨js "narration", .string (js "Meanwhile"), true, none, 0⟩
  [.llm (.user (some (.string (js "Read both"))) 0),
    .llm (.assistant ⟨some [call (js "a"), call (js "b")], none, none, none, some .toolUse, 0⟩), narration,
    result (js "b"), narration, result (js "a"), .llm (.user none 0)]

theorem convertToLlm_order_sample :
    KeepsOrder (fun _ => none) false narrated (convertToLlm (fun _ => none) false narrated).2 :=
  (convertToLlm_order (fun _ => none) false narrated (by decide +kernel)).2

end Adjacent

end PiRp.Llm

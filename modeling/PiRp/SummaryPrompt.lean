import PiRp.JsReplace

/-! The prompts of the three summarization requests: a template, chosen among the built-in one and its
override, in which the conversation and the previous summary are written with the string method `replace`. -/

namespace PiRp

open List JsStr

namespace SummaryPrompt

def conversationPlaceholder : JsStr := js "\x7bconversation\x7d"

def previousSummaryPlaceholder : JsStr := js "\x7bprevious_summary\x7d"

def summarizationSystemPrompt : JsStr :=
  js "You are a context summarization assistant. Your task is to read a conversation between a user and " ++
    js "an AI assistant, then produce a structured summary following the exact format specified.\n\n" ++
    js "Do NOT continue the conversation. Do NOT respond to any questions in the conversation. ONLY output " ++
    js "the structured summary."

def summarizationPrompt : JsStr :=
  js "<conversation>\n" ++ conversationPlaceholder ++ js "\n</conversation>\n\n" ++
    js "The conversation above needs to be summarized. Create a structured context checkpoint summary that " ++
    js "another LLM will use to continue the work.\n\nUse this EXACT format:\n\n## Goal\n" ++
    js "[What is the user trying to accomplish? Can be multiple items if the session covers different tasks.]\n" ++
    js "\n## Constraints & Preferences\n- [Any constraints, preferences, or requirements mentioned by user]\n" ++
    js "- [Or \"(none)\" if none were mentioned]\n\n## Progress\n### Done\n- [x] [Completed tasks/changes]\n\n" ++
    js "### In Progress\n- [ ] [Current work]\n\n### Blocked\n- [Issues preventing progress, if any]\n\n" ++
    js "## Key Decisions\n- **[Decision]**: [Brief rationale]\n\n## Next Steps\n" ++
    js "1. [Ordered list of what should happen next]\n\n## Critical Context\n" ++
    js "- [Any data, examples, or references needed to continue]\n- [Or \"(none)\" if not applicable]\n\n" ++
    js "Keep each section concise. Preserve exact file paths, function names, and error messages."

def updateSummarizationPrompt : JsStr :=
  js "<conversation>\n" ++ conversationPlaceholder ++ js "\n</conversation>\n\n<previous-summary>\n" ++
    previousSummaryPlaceholder ++ js "\n" ++
    js "</previous-summary>\n\n" ++
    js "The messages above are NEW conversation messages to incorporate into the existing summary provided " ++
    js "in <previous-summary> tags.\nUpdate the existing structured summary with new information. RULES:\n" ++
    js "- PRESERVE all existing information from the previous summary\n" ++
    js "- ADD new progress, decisions, and context from the new messages\n" ++
    js "- UPDATE the Progress section: move items from \"In Progress\" to \"Done\" when completed\n" ++
    js "- UPDATE \"Next Steps\" based on what was accomplished\n" ++
    js "- PRESERVE exact file paths, function names, and error messages\n" ++
    js "- If something is no longer relevant, you may remove it\n\nUse this EXACT format:\n\n## Goal\n" ++
    js "[Preserve existing goals, add new ones if the task expanded]\n\n## Constraints & Preferences\n" ++
    js "- [Preserve existing, add new ones discovered]\n\n## Progress\n### Done\n" ++
    js "- [x] [Include previously done items AND newly completed items]\n\n### In Progress\n" ++
    js "- [ ] [Current work - update based on progress]\n\n### Blocked\n" ++
    js "- [Current blockers - remove if resolved]\n\n## Key Decisions\n" ++
    js "- **[Decision]**: [Brief rationale] (preserve all previous, add new)\n\n## Next Steps\n" ++
    js "1. [Update based on current state]\n\n## Critical Context\n" ++
    js "- [Preserve important context, add new if needed]\n\n" ++
    js "Keep each section concise. Preserve exact file paths, function names, and error messages."

def turnPrefixSummarizationPrompt : JsStr :=
  js "<conversation>\n" ++ conversationPlaceholder ++ js "\n</conversation>\n\n" ++
    js "This is the PREFIX of a turn that was too large to keep. The SUFFIX (recent work) is retained.\n\n" ++
    js "Summarize the prefix to provide context for the retained suffix:\n\n## Original Request\n" ++
    js "[What did the user ask for in this turn?]\n\n## Early Progress\n" ++
    js "- [Key decisions and work done in the prefix]\n\n## Context for Suffix\n" ++
    js "- [Information needed to understand the retained recent work]\n\n" ++
    js "Be concise. Focus on what's needed to understand the kept suffix."

def branchSummaryPrompt : JsStr :=
  js "<conversation>\n" ++ conversationPlaceholder ++ js "\n</conversation>\n\n" ++
    js "Create a structured summary of this conversation branch for context when returning later.\n\n" ++
    js "Use this EXACT format:\n\n## Goal\n[What was the user trying to accomplish in this branch?]\n\n" ++
    js "## Constraints & Preferences\n- [Any constraints, preferences, or requirements mentioned]\n" ++
    js "- [Or \"(none)\" if none were mentioned]\n\n## Progress\n### Done\n- [x] [Completed tasks/changes]\n\n" ++
    js "### In Progress\n- [ ] [Work that was started but not finished]\n\n### Blocked\n" ++
    js "- [Issues preventing progress, if any]\n\n## Key Decisions\n- **[Decision]**: [Brief rationale]\n\n" ++
    js "## Next Steps\n1. [What should happen next to continue this work]\n\n" ++
    js "Keep each section concise. Preserve exact file paths, function names, and error messages."

/-- The prompt texts that a preset may replace. -/
structure CompactionPromptOverrides where
  systemPrompt : Option JsStr
  initialPrompt : Option JsStr
  updatePrompt : Option JsStr
  turnPrefixPrompt : Option JsStr
  branchSummaryPrompt : Option JsStr

/-- What is sent to the model: the system prompt and the text of the only user message. -/
structure SummarizationContext where
  systemPrompt : JsStr
  promptText : JsStr

/-- An optional text as a condition: the empty one counts as absent. -/
def truthy (text : Option JsStr) : Option JsStr := text.filter (· ≠ [])

/-- The template with the custom instructions after it, if there are any. -/
def withFocus (customInstructions : Option JsStr) (basePrompt : JsStr) : JsStr :=
  match truthy customInstructions with
  | some customInstructions => basePrompt ++ js "\n\nAdditional focus: " ++ customInstructions
  | none => basePrompt

/-- The `basePrompt` of `generateSummaryWithUsage`. -/
def summaryTemplate (overrides : Option CompactionPromptOverrides)
    (customInstructions previousSummary : Option JsStr) : JsStr :=
  withFocus customInstructions <|
    match truthy previousSummary with
    | some _ => (overrides.bind (·.updatePrompt)).getD updateSummarizationPrompt
    | none => (overrides.bind (·.initialPrompt)).getD summarizationPrompt

/-- The request of `generateSummaryWithUsage` for a serialized conversation. -/
def generateSummaryWithUsage (overrides : Option CompactionPromptOverrides)
    (customInstructions previousSummary : Option JsStr) (conversationText : JsStr) : SummarizationContext :=
  let promptText := replaceAll conversationPlaceholder conversationText
    (summaryTemplate overrides customInstructions previousSummary)
  { systemPrompt := (overrides.bind (·.systemPrompt)).getD summarizationSystemPrompt
    promptText :=
      match truthy previousSummary with
      | some previousSummary => replaceAll previousSummaryPlaceholder previousSummary promptText
      | none => replaceAll previousSummaryPlaceholder [] promptText }

def turnPrefixTemplate (overrides : Option CompactionPromptOverrides) : JsStr :=
  (overrides.bind (·.turnPrefixPrompt)).getD turnPrefixSummarizationPrompt

/-- The request of `generateTurnPrefixSummary`. -/
def generateTurnPrefixSummary (overrides : Option CompactionPromptOverrides) (conversationText : JsStr) :
    SummarizationContext :=
  { systemPrompt := (overrides.bind (·.systemPrompt)).getD summarizationSystemPrompt
    promptText := replaceAll conversationPlaceholder conversationText (turnPrefixTemplate overrides) }

/-- The `instructions` of `generateBranchSummary`: custom instructions may take the template's place. -/
def branchTemplate (promptOverride customInstructions : Option JsStr) (replaceInstructions : Bool) : JsStr :=
  match replaceInstructions, truthy customInstructions with
  | true, some customInstructions => customInstructions
  | _, _ => withFocus customInstructions (promptOverride.getD branchSummaryPrompt)

/-- The request of `generateBranchSummary`. -/
def generateBranchSummary (promptOverride customInstructions : Option JsStr) (replaceInstructions : Bool)
    (conversationText : JsStr) : SummarizationContext :=
  { systemPrompt := summarizationSystemPrompt
    promptText := replaceAll conversationPlaceholder conversationText
      (branchTemplate promptOverride customInstructions replaceInstructions) }

theorem conversationPlaceholder_ne_nil : conversationPlaceholder ≠ [] := by decide +kernel

theorem previousSummaryPlaceholder_ne_nil : previousSummaryPlaceholder ≠ [] := by decide +kernel

theorem placeholders_clear : isClear previousSummaryPlaceholder conversationPlaceholder = true ∧
      isClear conversationPlaceholder previousSummaryPlaceholder = true ∧
      isClear conversationPlaceholder conversationPlaceholder.tail = true ∧
      isClear previousSummaryPlaceholder previousSummaryPlaceholder.tail = true := by
  decide +kernel

theorem dollar_notMem_placeholders : dollar ∉ conversationPlaceholder ∧ dollar ∉ previousSummaryPlaceholder := by
  decide +kernel

theorem dollar_notMem_js {chars : List Char} (hchars : dollar ∉ utf16 chars) : dollar ∉ js (String.ofList chars) := by
  rwa [js, String.toList_ofList]

theorem dollar_notMem_templates : dollar ∉ summarizationPrompt ∧ dollar ∉ updateSummarizationPrompt ∧
    dollar ∉ turnPrefixSummarizationPrompt ∧ dollar ∉ branchSummaryPrompt := by
  delta summarizationPrompt updateSummarizationPrompt turnPrefixSummarizationPrompt branchSummaryPrompt
  simp only [mem_append, not_or, dollar_notMem_placeholders, not_false_eq_true, and_true]
  and_intros <;> exact dollar_notMem_js (by decide +kernel)

/-- Where the conversation is written, no `$` sequence of it is expanded. -/
def KeepsConversation (template conversationText : JsStr) : Prop :=
  isPlain conversationText = true ∨ occurrences conversationPlaceholder template = 0

/-- The conversation is kept, writing it makes no place for the previous summary that the template does not
have, and where the previous summary is written, no `$` sequence of it is expanded. -/
def KeepsBoth (template conversationText previousSummary : JsStr) : Prop :=
  KeepsConversation template conversationText ∧
    occurrences previousSummaryPlaceholder
        (substitute [(conversationPlaceholder, conversationText)] template) =
      occurrences previousSummaryPlaceholder template ∧
    (isPlain previousSummary = true ∨ occurrences previousSummaryPlaceholder template = 0)

/-- The summary prompt is its template with both texts written literally. -/
def SummaryVerbatim (overrides : Option CompactionPromptOverrides)
    (customInstructions previousSummary : Option JsStr) (conversationText : JsStr) : Prop :=
  (generateSummaryWithUsage overrides customInstructions previousSummary conversationText).promptText =
    substitute [(conversationPlaceholder, conversationText), (previousSummaryPlaceholder, previousSummary.getD [])]
      (summaryTemplate overrides customInstructions previousSummary)

/-- The turn-prefix prompt is its template with the conversation written literally. -/
def TurnPrefixVerbatim (overrides : Option CompactionPromptOverrides) (conversationText : JsStr) : Prop :=
  (generateTurnPrefixSummary overrides conversationText).promptText =
    substitute [(conversationPlaceholder, conversationText)] (turnPrefixTemplate overrides)

/-- The branch prompt is its template with the conversation written literally. -/
def BranchVerbatim (promptOverride customInstructions : Option JsStr) (replaceInstructions : Bool)
    (conversationText : JsStr) : Prop :=
  (generateBranchSummary promptOverride customInstructions replaceInstructions conversationText).promptText =
    substitute [(conversationPlaceholder, conversationText)]
      (branchTemplate promptOverride customInstructions replaceInstructions)

theorem generateSummaryWithUsage_promptText (overrides : Option CompactionPromptOverrides)
    (customInstructions previousSummary : Option JsStr) (conversationText : JsStr) :
    (generateSummaryWithUsage overrides customInstructions previousSummary conversationText).promptText =
      replaceAll previousSummaryPlaceholder (previousSummary.getD [])
        (replaceAll conversationPlaceholder conversationText
          (summaryTemplate overrides customInstructions previousSummary)) := by
  rw [generateSummaryWithUsage]
  rcases previousSummary with _ | previousSummary
  · rfl
  · by_cases hempty : previousSummary = []
    · simp [truthy, Option.filter, hempty]
    · simp [truthy, Option.filter, hempty]

theorem isPlain_of_notMem {text : JsStr} (hdol : dollar ∉ text) : isPlain text = true := by
  induction text using isPlain.induct with
  | case1 => rfl
  | case2 unit => rfl
  | case3 unit next rest ih =>
    have hunit : (unit == dollar) = false := by
      rw [beq_eq_false_iff_ne]
      exact fun heq => hdol (heq ▸ mem_cons_self)
    rw [isPlain, hunit, Bool.false_and, Bool.not_false, Bool.true_and]
    exact ih fun hmem => hdol (mem_cons_of_mem _ hmem)

theorem replaceAll_eq_substitute {pattern replacement text : JsStr}
    (hkeeps : isPlain replacement = true ∨ occurrences pattern text = 0) :
    replaceAll pattern replacement text = substitute [(pattern, replacement)] text := by
  rcases hkeeps with hplain | habs
  · exact replaceAll_plain hplain pattern text
  · exact replaceGo_absent _ 0 [] habs

theorem count_replaceAll_lt {pattern replacement text : JsStr} (hne : pattern ≠ []) (hpat : dollar ∉ pattern)
    (htext : dollar ∉ text) (hplain : isPlain replacement = false) (hocc : occurrences pattern text ≠ 0) :
    (replaceAll pattern replacement text).count dollar < (substitute [(pattern, replacement)] text).count dollar := by
  refine Nat.lt_of_lt_of_le (Nat.lt_add_of_pos_right ?_) (count_replaceGo _
    (fun _ _ hbef hafter => (count_getSubstitution hpat hbef hafter replacement).2 hplain) not_mem_nil htext 0 hne)
  exact Nat.lt_min.mpr ⟨Nat.one_pos, Nat.pos_of_ne_zero hocc⟩

theorem replaceAll_eq_substitute_iff {pattern replacement text : JsStr} (hne : pattern ≠ [])
    (hpat : dollar ∉ pattern) (htext : dollar ∉ text) :
    replaceAll pattern replacement text = substitute [(pattern, replacement)] text ↔
      isPlain replacement = true ∨ occurrences pattern text = 0 := by
  refine ⟨fun heq => ?_, replaceAll_eq_substitute⟩
  by_contra hkeeps
  rw [not_or, Bool.not_eq_true] at hkeeps
  have hless := count_replaceAll_lt hne hpat htext hkeeps.1 hkeeps.2
  rw [heq] at hless
  exact Nat.lt_irrefl _ hless

section Summary

variable {overrides : Option CompactionPromptOverrides} {customInstructions previousSummary : Option JsStr}
  {conversationText : JsStr}

theorem summaryVerbatim_of_keepsBoth
    (hkeeps : KeepsBoth (summaryTemplate overrides customInstructions previousSummary) conversationText
      (previousSummary.getD [])) : SummaryVerbatim overrides customInstructions previousSummary conversationText := by
  obtain ⟨hcon, hcount, hsum⟩ := hkeeps
  obtain ⟨hinFirst, hinSecond, _, hself⟩ := placeholders_clear
  rw [SummaryVerbatim, generateSummaryWithUsage_promptText, replaceAll_eq_substitute hcon,
    replaceAll_eq_substitute (by rwa [hcount])]
  exact substitute_twice conversationPlaceholder_ne_nil previousSummaryPlaceholder_ne_nil hinFirst hinSecond
    hself hcount

/-- With no `$` in the template and the previous summary, a lost `$` is one the conversation lost, and the
length tells how often the second pass matched. -/
theorem keepsBoth_of_summaryVerbatim (htem : dollar ∉ summaryTemplate overrides customInstructions previousSummary)
    (hsum : dollar ∉ previousSummary.getD [])
    (hlen : (previousSummary.getD []).length ≠ previousSummaryPlaceholder.length)
    (hver : SummaryVerbatim overrides customInstructions previousSummary conversationText) :
    KeepsBoth (summaryTemplate overrides customInstructions previousSummary) conversationText
      (previousSummary.getD []) := by
  obtain ⟨hinFirst, hinSecond, hselfFirst, hself⟩ := placeholders_clear
  obtain ⟨hfirst, hsnd⟩ := dollar_notMem_placeholders
  have hplain := isPlain_of_notMem hsum
  rw [SummaryVerbatim, generateSummaryWithUsage_promptText, replaceAll_plain hplain] at hver
  generalize summaryTemplate overrides customInstructions previousSummary = template at htem hver ⊢
  generalize previousSummary.getD [] = summary at hsum hlen hver hplain ⊢
  have hcon : KeepsConversation template conversationText := by
    rw [KeepsConversation, ← replaceAll_eq_substitute_iff conversationPlaceholder_ne_nil hfirst htem]
    by_contra hchanged
    rw [replaceAll_eq_substitute_iff conversationPlaceholder_ne_nil hfirst htem, not_or, Bool.not_eq_true] at hchanged
    have hless := count_replaceAll_lt conversationPlaceholder_ne_nil hfirst htem hchanged.1 hchanged.2
    have hone := weight_substitute previousSummaryPlaceholder_ne_nil hself (List.count dollar)
      count_nil (fun _ _ => count_append) summary
      (replaceAll conversationPlaceholder conversationText template)
    have hboth := weight_substitute_both conversationPlaceholder_ne_nil previousSummaryPlaceholder_ne_nil
      hinFirst hinSecond hself (List.count dollar) count_nil (fun _ _ => count_append)
      conversationText summary template
    rw [count_eq_zero_of_not_mem hsnd, count_eq_zero_of_not_mem hsum, hver] at hone
    rw [count_eq_zero_of_not_mem hsnd, count_eq_zero_of_not_mem hsum] at hboth
    omega
  rw [replaceAll_eq_substitute hcon] at hver
  have hone := weight_substitute previousSummaryPlaceholder_ne_nil hself List.length length_nil
    (fun _ _ => length_append) summary
    (substitute [(conversationPlaceholder, conversationText)] template)
  have hboth := weight_substitute_both conversationPlaceholder_ne_nil previousSummaryPlaceholder_ne_nil
    hinFirst hinSecond hself List.length length_nil (fun _ _ => length_append)
    conversationText summary template
  rw [hver] at hone
  refine ⟨hcon, ?_, Or.inl hplain⟩
  have hless := occurrences_le_substitute conversationPlaceholder_ne_nil previousSummaryPlaceholder_ne_nil
    hinFirst hinSecond hself conversationText template
  generalize occurrences previousSummaryPlaceholder
    (substitute [(conversationPlaceholder, conversationText)] template) = twice at hone hless ⊢
  obtain ⟨more, rfl⟩ := Nat.exists_eq_add_of_le hless
  have hmore : more * previousSummaryPlaceholder.length = more * summary.length := by
    rw [Nat.add_mul, Nat.add_mul] at hone
    omega
  rcases Nat.eq_zero_or_pos more with rfl | hpos
  · rfl
  · exact absurd (Nat.eq_of_mul_eq_mul_left hpos hmore).symm hlen

theorem keepsBoth_of_summaryVerbatim_of_count
    (htem : dollar ∉ summaryTemplate overrides customInstructions previousSummary) (hcon : dollar ∉ conversationText)
    (hcount : occurrences previousSummaryPlaceholder (substitute [(conversationPlaceholder, conversationText)]
        (summaryTemplate overrides customInstructions previousSummary)) =
      occurrences previousSummaryPlaceholder (summaryTemplate overrides customInstructions previousSummary))
    (hver : SummaryVerbatim overrides customInstructions previousSummary conversationText) :
    KeepsBoth (summaryTemplate overrides customInstructions previousSummary) conversationText
      (previousSummary.getD []) := by
  obtain ⟨hinFirst, hinSecond, hselfFirst, hself⟩ := placeholders_clear
  obtain ⟨hfirst, hsnd⟩ := dollar_notMem_placeholders
  have hplain := isPlain_of_notMem hcon
  rw [SummaryVerbatim, generateSummaryWithUsage_promptText, replaceAll_plain hplain,
    ← substitute_twice conversationPlaceholder_ne_nil previousSummaryPlaceholder_ne_nil hinFirst hinSecond hself
      hcount] at hver
  have hfree : dollar ∉ substitute [(conversationPlaceholder, conversationText)]
      (summaryTemplate overrides customInstructions previousSummary) := by
    have hone := weight_substitute conversationPlaceholder_ne_nil hselfFirst (List.count dollar)
      count_nil (fun _ _ => count_append) conversationText
      (summaryTemplate overrides customInstructions previousSummary)
    rw [count_eq_zero_of_not_mem hfirst, count_eq_zero_of_not_mem hcon, count_eq_zero_of_not_mem htem] at hone
    exact List.count_eq_zero.mp (by omega)
  rw [replaceAll_eq_substitute_iff previousSummaryPlaceholder_ne_nil hsnd hfree, hcount] at hver
  exact ⟨Or.inl hplain, hcount, hver⟩

end Summary

/-- The three prompts carry the conversation and the previous summary verbatim whenever no `$` sequence of
them is expanded and the conversation brings no placeholder for the summary. For templates without a `$`, such
as the built-in ones, nothing else does: for the two prompts with one placeholder always, for the summary
prompt when the previous summary has no `$` and is not as long as its placeholder, or when the conversation
has no `$` and brings no placeholder. -/
theorem prompts_verbatim_iff (overrides : Option CompactionPromptOverrides)
    (customInstructions previousSummary promptOverride : Option JsStr) (replaceInstructions : Bool)
    (conversationText : JsStr) :
    ((KeepsBoth (summaryTemplate overrides customInstructions previousSummary) conversationText
          (previousSummary.getD []) → SummaryVerbatim overrides customInstructions previousSummary conversationText) ∧
      (dollar ∉ summaryTemplate overrides customInstructions previousSummary → (dollar ∉ previousSummary.getD [] ∧
            (previousSummary.getD []).length ≠ previousSummaryPlaceholder.length ∨ dollar ∉ conversationText ∧
            occurrences previousSummaryPlaceholder (substitute [(conversationPlaceholder, conversationText)]
                (summaryTemplate overrides customInstructions previousSummary)) =
              occurrences previousSummaryPlaceholder (summaryTemplate overrides customInstructions previousSummary)) →
        SummaryVerbatim overrides customInstructions previousSummary conversationText →
        KeepsBoth (summaryTemplate overrides customInstructions previousSummary) conversationText
          (previousSummary.getD []))) ∧ ((KeepsConversation (turnPrefixTemplate overrides) conversationText →
        TurnPrefixVerbatim overrides conversationText) ∧
      (dollar ∉ turnPrefixTemplate overrides → TurnPrefixVerbatim overrides conversationText →
        KeepsConversation (turnPrefixTemplate overrides) conversationText)) ∧
    ((KeepsConversation (branchTemplate promptOverride customInstructions replaceInstructions) conversationText →
        BranchVerbatim promptOverride customInstructions replaceInstructions conversationText) ∧
      (dollar ∉ branchTemplate promptOverride customInstructions replaceInstructions →
        BranchVerbatim promptOverride customInstructions replaceInstructions conversationText →
        KeepsConversation (branchTemplate promptOverride customInstructions replaceInstructions)
          conversationText)) := by
  refine ⟨⟨summaryVerbatim_of_keepsBoth, fun htem htexts hver => ?_⟩,
    ⟨replaceAll_eq_substitute, fun htem hver => ?_⟩,
    ⟨replaceAll_eq_substitute, fun htem hver => ?_⟩⟩
  · rcases htexts with ⟨hsum, hlen⟩ | ⟨hcon, hcount⟩
    · exact keepsBoth_of_summaryVerbatim htem hsum hlen hver
    · exact keepsBoth_of_summaryVerbatim_of_count htem hcon hcount hver
  · exact (replaceAll_eq_substitute_iff conversationPlaceholder_ne_nil dollar_notMem_placeholders.1
      htem).mp hver
  · exact (replaceAll_eq_substitute_iff conversationPlaceholder_ne_nil dollar_notMem_placeholders.1
      htem).mp hver

theorem conversation_occurs : occurrences conversationPlaceholder summarizationPrompt ≠ 0 ∧
    occurrences conversationPlaceholder updateSummarizationPrompt ≠ 0 ∧
    occurrences conversationPlaceholder turnPrefixSummarizationPrompt ≠ 0 ∧
    occurrences conversationPlaceholder branchSummaryPrompt ≠ 0 := by
  have hone (front back : JsStr) :
      occurrences conversationPlaceholder (front ++ (conversationPlaceholder ++ back)) ≠ 0 := by
    have hmore := occurrences_le_append conversationPlaceholder front (conversationPlaceholder ++ back)
    rw [occurrences_self conversationPlaceholder_ne_nil placeholders_clear.2.2.1] at hmore
    omega
  delta summarizationPrompt updateSummarizationPrompt turnPrefixSummarizationPrompt branchSummaryPrompt
  simp only [append_assoc]
  exact ⟨hone _ _, hone _ _, hone _ _, hone _ _⟩

/-- A conversation in which a command was shown with `$$`, and one in which the placeholder was written out. -/
theorem prompts_changed_sample : ¬SummaryVerbatim none none none (js "kill $$") ∧
      ¬SummaryVerbatim none none (some (js "## Goal")) (js "fill in \x7bprevious_summary\x7d") ∧
      ¬TurnPrefixVerbatim none (js "kill $$") ∧ ¬BranchVerbatim none none false (js "kill $$") := by
  have hplain : isPlain (js "kill $$") = false := by decide +kernel
  obtain ⟨hinit, hupd, hturn, hbran⟩ := conversation_occurs
  obtain ⟨hinitialFree, hupdateFree, hturnFree, hbranchFree⟩ := dollar_notMem_templates
  obtain ⟨hinFirst, hinSecond, _, hself⟩ := placeholders_clear
  have hbreaks {template : JsStr} (htem : occurrences conversationPlaceholder template ≠ 0) :
      ¬KeepsConversation template (js "kill $$") := fun hkeeps => by
    rcases hkeeps with hkeeps | hkeeps
    · exact absurd (hplain.symm.trans hkeeps) (by decide)
    · exact htem hkeeps
  have hinitialTemplate : summaryTemplate none none none = summarizationPrompt := by
    simp only [summaryTemplate, withFocus, truthy, Option.filter_none, Option.bind_none, Option.getD_none]
  have hupdateTemplate : summaryTemplate none none (some (js "## Goal")) = updateSummarizationPrompt := by
    have hgoal : truthy (some (js "## Goal")) = some (js "## Goal") := by decide +kernel
    rw [summaryTemplate, hgoal]
    simp only [withFocus, truthy, Option.filter_none, Option.bind_none, Option.getD_none]
  have hturnTemplate : turnPrefixTemplate none = turnPrefixSummarizationPrompt := by
    simp only [turnPrefixTemplate, Option.bind_none, Option.getD_none]
  have hbranchTemplate : branchTemplate none none false = branchSummaryPrompt := by
    simp only [branchTemplate, withFocus, truthy, Option.filter_none, Option.getD_none]
  rw [← hinitialTemplate] at hinit hinitialFree
  rw [← hupdateTemplate] at hupd hupdateFree
  rw [← hturnTemplate] at hturn hturnFree
  rw [← hbranchTemplate] at hbran hbranchFree
  refine ⟨fun hver => ?_, fun hver => ?_, fun hver => ?_, fun hver => ?_⟩
  · exact hbreaks hinit (keepsBoth_of_summaryVerbatim hinitialFree not_mem_nil (by decide +kernel)
      hver).1
  · -- The second pass finds the placeholder that the conversation brought.
    have hkeeps := keepsBoth_of_summaryVerbatim hupdateFree (by decide +kernel) (by decide +kernel) hver
    have hbrin : occurrences previousSummaryPlaceholder (js "fill in \x7bprevious_summary\x7d") ≠ 0 := by
      decide +kernel
    exact absurd hkeeps.2.1 (Nat.ne_of_gt (occurrences_lt_substitute conversationPlaceholder_ne_nil
      previousSummaryPlaceholder_ne_nil hinFirst hinSecond hself hbrin hupd))
  · exact hbreaks hturn ((replaceAll_eq_substitute_iff conversationPlaceholder_ne_nil
      dollar_notMem_placeholders.1 hturnFree).mp hver)
  · exact hbreaks hbran ((replaceAll_eq_substitute_iff conversationPlaceholder_ne_nil
      dollar_notMem_placeholders.1 hbranchFree).mp hver)

end SummaryPrompt

end PiRp

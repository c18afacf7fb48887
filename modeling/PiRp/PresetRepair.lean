import Mathlib.Tactic
import PiRp.PresetHistory

/-! What the repair of tool pairs does to the objects of the caller. It assigns to the content of an assistant
message that holds a call without a result behind it and something else; every other filter of the history
copies what it changes. -/

namespace PiRp.Preset

open List Function

/-! ### Calls without a result -/

/-- The id a tool result is for. -/
def resultId? : Message → Option JsStr
  | .content (.toolResult id _) _ _ => some id
  | _ => none

/-- A call with the id that no result follows. -/
def Dangling (messages : List Message) (id : JsStr) : Prop :=
  ∃ before message after, messages = before ++ message :: after ∧ id ∈ callIds message ∧
    ∀ later ∈ after, resultId? later ≠ some id

theorem dangling_cons {message : Message} {rest : List Message} {id : JsStr} : Dangling (message :: rest) id ↔
      (id ∈ callIds message ∧ ∀ later ∈ rest, resultId? later ≠ some id) ∨ Dangling rest id := by
  constructor
  · rintro ⟨before, found, after, heq, hid, hafter⟩
    cases before with
    | nil =>
      obtain ⟨rfl, rfl⟩ := List.cons.inj heq
      exact .inl ⟨hid, hafter⟩
    | cons first before =>
      obtain ⟨rfl, rfl⟩ := List.cons.inj heq
      exact .inr ⟨before, found, after, rfl, hid, hafter⟩
  · rintro (⟨hid, hafter⟩ | ⟨before, found, after, rfl, hid, hafter⟩)
    · exact ⟨[], message, rest, rfl, hid, hafter⟩
    · exact ⟨message :: before, found, after, rfl, hid, hafter⟩

theorem not_dangling_nil {id : JsStr} : ¬ Dangling [] id := by
  rintro ⟨before, message, after, heq, -⟩
  exact append_ne_nil_of_right_ne_nil before (cons_ne_nil message after) heq.symm

theorem dangling_map {α : Type*} {first second : α → Message}
    (hcalls : ∀ item, callIds (first item) = callIds (second item))
    (hresul : ∀ item, resultId? (first item) = resultId? (second item)) (items : List α) (id : JsStr) :
    Dangling (items.map first) id ↔ Dangling (items.map second) id := by
  induction items with
  | nil => exact Iff.rfl
  | cons item items ih =>
    rw [map_cons, map_cons, dangling_cons, dangling_cons, ih, hcalls]
    simp only [forall_mem_map, hresul]

theorem callIds_ne_nil {message : Message} : [] ∉ callIds message := by
  rw [callIds]
  split_ifs
  · exact not_mem_nil
  · intro hmem
    obtain ⟨part, -, heq⟩ := mem_filterMap.mp hmem
    cases part with
    | toolCall id name rest =>
      dsimp only at heq
      split_ifs at heq with hid
      exact hid (Option.some.inj heq)
    | text => exact nomatch heq
    | thinking => exact nomatch heq
    | image => exact nomatch heq

section Pairs

variable {κ : Type*} {store : κ → Message}

variable {toolCallIds : List JsStr}

variable {message : Message}

theorem callIds_of_result {result : JsStr} (hres : resultId? message = some result) : callIds message = [] := by
  cases message with
  | bashExecution => exact nomatch hres
  | summary => exact nomatch hres
  | content speaker content fields =>
    cases speaker with
    | toolResult => exact if_pos nofun
    | system => exact nomatch hres
    | user => exact nomatch hres
    | assistant => exact nomatch hres
    | custom => exact nomatch hres

/-- How the first loop goes over some messages: the ids of the calls without a result yet, before and behind it, and
what it keeps. -/
inductive Pairs {α : Type*} (read : α → Message) : List JsStr → List α → List JsStr → List α → Prop where
  | nil (ids : List JsStr) : Pairs read ids [] ids []
  | other {ids opened : List JsStr} {items kept : List α} {item : α} (hres : resultId? (read item) = none)
      (hpairs : Pairs read (ids ++ callIds (read item)) items opened kept) :
      Pairs read ids (item :: items) opened (item :: kept)
  | answer {ids opened : List JsStr} {items kept : List α} {item : α} {id : JsStr}
      (hres : resultId? (read item) = some id) (hne : id ≠ []) (hid : id ∈ ids)
      (hpairs : Pairs read (ids.filter (· ≠ id)) items opened kept) :
      Pairs read ids (item :: items) opened (item :: kept)
  | orphan {ids opened : List JsStr} {items kept : List α} {item : α} {id : JsStr}
      (hres : resultId? (read item) = some id) (hid : id ∈ ids → id = []) (hpairs : Pairs read ids items opened kept) :
      Pairs read ids (item :: items) opened kept

theorem pairs_pairTools (store : κ → Message) (toolCallIds : List JsStr) (messages : List (Handle κ)) :
    Pairs (Handle.read store) toolCallIds messages (pairTools store toolCallIds messages).1
      (pairTools store toolCallIds messages).2 := by
  induction messages generalizing toolCallIds with
  | nil => exact .nil _
  | cons msg rest ih =>
    rw [pairTools]
    cases hread : msg.read store with
    | bashExecution | summary => exact .other (by rw [hread]; rfl) (by rw [hread]; exact ih _)
    | content speaker content fields =>
      cases speaker with
      | toolResult id name =>
        have hres : resultId? (msg.read store) = some id := by rw [hread]; rfl
        dsimp only
        split_ifs with hfound
        · exact .answer hres hfound.1 hfound.2 (ih _)
        · exact .orphan hres (fun hid => Classical.byContradiction fun hne => hfound ⟨hne, hid⟩) (ih _)
      | system | user | assistant | custom => exact .other (by rw [hread]; rfl) (by rw [hread]; exact ih _)

section Loop

variable {α : Type*} {read : α → Message} {ids opened : List JsStr} {items kept : List α}

theorem Pairs.mem_opened (hpairs : Pairs read ids items opened kept) (hids : [] ∉ ids) (id : JsStr) :
    id ∈ opened ↔ (id ∈ ids ∧ ∀ later ∈ items.map read, resultId? later ≠ some id) ∨ Dangling (items.map read) id := by
  induction hpairs with
  | nil ids =>
    simp only [map_nil, not_dangling_nil, or_false]
    exact ⟨fun hmem => ⟨hmem, fun _ hlater => absurd hlater not_mem_nil⟩, And.left⟩
  | other hres _ ih =>
    rw [ih (by rw [mem_append, not_or]; exact ⟨hids, callIds_ne_nil⟩), mem_append, map_cons, dangling_cons,
      forall_mem_cons]
    simp only [hres, ne_eq, reduceCtorEq, not_false_eq_true, true_and, or_and_right, or_assoc]
  | @answer ids _ _ _ _ result hres _ _ _ ih =>
    rw [ih fun hmem => hids (mem_filter.mp hmem).1, mem_filter, decide_eq_true_eq, and_assoc, map_cons, dangling_cons,
      forall_mem_cons, callIds_of_result hres, hres, ne_comm]
    simp only [not_mem_nil, false_and, false_or, ne_eq, Option.some.injEq]
  | @orphan ids _ _ _ _ result hres hid _ ih =>
    -- A result that is not waited for is for none of the ids.
    have hother : id ∈ ids → result ≠ id := by
      rintro hmem rfl
      exact hids (hid hmem ▸ hmem)
    rw [ih hids, map_cons, dangling_cons, forall_mem_cons, callIds_of_result hres, hres]
    simp only [not_mem_nil, false_and, false_or, ne_eq, Option.some.injEq]
    exact or_congr_left (and_congr_right fun hmem => (and_iff_right (hother hmem)).symm)

theorem Pairs.mem_kept (hpairs : Pairs read ids items opened kept) {item : α} (hres : resultId? (read item) = none) :
    item ∈ kept ↔ item ∈ items := by
  induction hpairs with
  | nil => exact Iff.rfl
  | other _ _ ih => rw [mem_cons, mem_cons, ih]
  | answer _ _ _ _ ih => rw [mem_cons, mem_cons, ih]
  | @orphan _ _ _ _ first _ hfirst _ _ ih =>
    have hne : item ≠ first := by
      rintro rfl
      exact nomatch hres.symm.trans hfirst
    rw [mem_cons, or_iff_right hne, ih]

end Loop

/-! ### The assignment -/

/-- An assistant message of which some blocks are removed and some are left. -/
def Mixes (removed : JsStr → Prop) (message : Message) : Prop :=
  message.role = .assistant ∧ ∃ content, message.blocks? = some content ∧
    (∃ id name rest, .toolCall id name rest ∈ content ∧ removed id) ∧
    ∃ block ∈ content, ∀ id name rest, block = .toolCall id name rest → ¬ removed id

/-- What the second loop assigns for the message of a key. -/
def assigned (toolCallIds : List JsStr) (message : Message) : Option Message :=
  if message.role ≠ .assistant then none
  else
    match message.blocks? with
    | none => none
    | some content =>
      if (keptBlocks toolCallIds content).length = content.length ∨ keptBlocks toolCallIds content = [] then none
      else some (message.withBlocks (keptBlocks toolCallIds content))

theorem mem_keptBlocks {content : List Block} {block : Block} : block ∈ keptBlocks toolCallIds content ↔
      block ∈ content ∧ ∀ id name rest, block = .toolCall id name rest → id ∉ toolCallIds := by
  rw [keptBlocks, mem_filter]
  refine and_congr_right fun _ => ?_
  cases block with
  | toolCall id name rest =>
    simp only [Bool.not_eq_true', contains_eq_mem, decide_eq_false_iff_not]
    constructor
    · rintro hid _ _ _ heq
      obtain ⟨rfl, -, -⟩ := Block.toolCall.inj heq
      exact hid
    · exact fun hall => hall id name rest rfl
  | text => exact iff_of_true rfl nofun
  | thinking => exact iff_of_true rfl nofun
  | image => exact iff_of_true rfl nofun

theorem keptBlocks_length {content : List Block} : (keptBlocks toolCallIds content).length ≠ content.length ↔
      ∃ id name rest, .toolCall id name rest ∈ content ∧ id ∈ toolCallIds := by
  have hall : (keptBlocks toolCallIds content).length = content.length ↔
      ∀ block ∈ content, block ∈ keptBlocks toolCallIds content := by
    rw [keptBlocks, length_filter_eq_length_iff]
    simp only [mem_filter]
    exact forall₂_congr fun block hmem => (and_iff_right hmem).symm
  rw [ne_eq, hall]
  simp only [mem_keptBlocks, not_forall, not_and, exists_prop]
  constructor
  · rintro ⟨block, hmem, hblock⟩
    obtain ⟨id, name, rest, rfl, hid⟩ := hblock hmem
    exact ⟨id, name, rest, hmem, not_not.mp hid⟩
  · rintro ⟨id, name, rest, hmem, hid⟩
    exact ⟨_, hmem, fun _ => ⟨id, name, rest, rfl, not_not.mpr hid⟩⟩

theorem assigned_isSome : (assigned toolCallIds message).isSome = true ↔ Mixes (· ∈ toolCallIds) message := by
  rw [assigned, Mixes]
  by_cases hrole : message.role = .assistant
  · rw [if_neg (not_not.mpr hrole)]
    cases hbloc : message.blocks? with
    | none => simp
    | some content =>
      have hkept : keptBlocks toolCallIds content ≠ [] ↔
          ∃ block ∈ content, ∀ id name rest, block = .toolCall id name rest → id ∉ toolCallIds := by
        constructor
        · intro hne
          obtain ⟨block, hblock⟩ := exists_mem_of_ne_nil _ hne
          exact ⟨block, mem_keptBlocks.mp hblock⟩
        · rintro ⟨block, hblock⟩
          exact ne_nil_of_mem (mem_keptBlocks.mpr hblock)
      simp only [hrole, true_and, Option.some.injEq, exists_eq_left', ← keptBlocks_length, ← hkept]
      split_ifs with hsame
      · simp only [Option.isSome_none, Bool.false_eq_true, false_iff, not_and, not_not]
        exact fun hne => hsame.resolve_left hne
      · simpa [not_or] using hsame
  · rw [if_pos hrole]
    simp [hrole]

variable [DecidableEq κ]

/-- The objects after the second loop passed a message. -/
def assign (toolCallIds : List JsStr) (store : κ → Message) : Handle κ → κ → Message
  | .shared key => (assigned toolCallIds (store key)).elim store (Function.update store key)
  | .copy _ => store

theorem removeCalls_cons (toolCallIds : List JsStr) (store : κ → Message) (msg : Handle κ)
    (rest : List (Handle κ)) : (removeCalls toolCallIds store (msg :: rest)).1 =
      (removeCalls toolCallIds (assign toolCallIds store msg) rest).1 := by
  have hass : assigned toolCallIds (msg.read store) = none → assign toolCallIds store msg = store := by
    intro hnone
    cases msg with
    | copy => rfl
    | shared key => exact congrArg (fun written => Option.elim written store (Function.update store key)) hnone
  rw [removeCalls]
  dsimp only
  by_cases hrole : (msg.read store).role = .assistant
  · rw [if_neg (not_not.mpr hrole)]
    cases hbloc : (msg.read store).blocks? with
    | none =>
      rw [hass (by rw [assigned, if_neg (not_not.mpr hrole), hbloc])]
    | some content =>
      dsimp only
      split_ifs with hsame hnil
      · rw [hass (by rw [assigned, if_neg (not_not.mpr hrole), hbloc]; exact if_pos (.inl hsame))]
      · rw [hass (by rw [assigned, if_neg (not_not.mpr hrole), hbloc]; exact if_pos (.inr hnil))]
      · have hsome : assigned toolCallIds (msg.read store) =
            some ((msg.read store).withBlocks (keptBlocks toolCallIds content)) := by
          rw [assigned, if_neg (not_not.mpr hrole), hbloc]
          exact if_neg (not_or.mpr ⟨hsame, hnil⟩)
        cases msg with
        | copy => rfl
        | shared key =>
          rw [assign, show assigned toolCallIds (store key) = _ from hsome]
          rfl
  · rw [if_pos hrole, hass (by rw [assigned, if_pos hrole])]

/-- The number of blocks of a message. -/
def blockCount (message : Message) : Nat := (message.blocks?.getD []).length

theorem blockCount_assigned {written : Message}
    (hass : assigned toolCallIds message = some written) : blockCount written < blockCount message := by
  rw [assigned] at hass
  split_ifs at hass with hrole
  cases message with
  | bashExecution => exact nomatch hass
  | summary => exact nomatch hass
  | content speaker content fields =>
    cases content with
    | string => exact nomatch hass
    | array content =>
      dsimp only [Message.blocks?] at hass
      split_ifs at hass with hsame
      obtain rfl := Option.some.inj hass
      rw [not_or] at hsame
      exact Nat.lt_of_le_of_ne (length_filter_le _ _) hsame.1

theorem blockCount_assign (toolCallIds : List JsStr) (store : κ → Message) (msg : Handle κ) (key : κ) :
    blockCount (assign toolCallIds store msg key) ≤ blockCount (store key) := by
  cases msg with
  | copy => exact Nat.le_refl _
  | shared other =>
    rw [assign]
    cases hass : assigned toolCallIds (store other) with
    | none => exact Nat.le_refl _
    | some written =>
      rw [Option.elim_some, update_apply]
      split_ifs with hkey
      · exact Nat.le_of_lt (hkey ▸ blockCount_assigned hass)
      · exact Nat.le_refl _

theorem blockCount_removeCalls (toolCallIds : List JsStr) (store : κ → Message) (messages : List (Handle κ))
    (key : κ) : blockCount ((removeCalls toolCallIds store messages).1 key) ≤ blockCount (store key) := by
  induction messages generalizing store with
  | nil => exact Nat.le_refl _
  | cons msg rest ih =>
    rw [removeCalls_cons]
    exact (ih _).trans (blockCount_assign toolCallIds store msg key)

theorem removeCalls_store (toolCallIds : List JsStr) (store : κ → Message) (messages : List (Handle κ)) :
    (removeCalls toolCallIds store messages).1 = store ↔
      ∀ key, .shared key ∈ messages → ¬ Mixes (· ∈ toolCallIds) (store key) := by
  constructor
  · intro hsame key hmem hmixes
    have hlt : blockCount ((removeCalls toolCallIds store messages).1 key) < blockCount (store key) := by
      clear hsame
      induction messages generalizing store with
      | nil => exact absurd hmem not_mem_nil
      | cons msg rest ih =>
        rw [removeCalls_cons]
        obtain ⟨written, hwrt⟩ := Option.isSome_iff_exists.mp (assigned_isSome.mpr hmixes)
        by_cases hkey : msg = .shared key
        · have hassign : assign toolCallIds store msg key = written := by
            rw [hkey, assign, hwrt, Option.elim_some, update_self]
          refine (blockCount_removeCalls toolCallIds _ rest key).trans_lt ?_
          rw [hassign]
          exact blockCount_assigned hwrt
        · -- Until the message is reached its object stays as it is.
          have hother : assign toolCallIds store msg key = store key := by
            cases msg with
            | copy => rfl
            | shared other =>
              rw [assign]
              cases assigned toolCallIds (store other) with
              | none => rfl
              | some value =>
                rw [Option.elim_some, update_of_ne]
                rintro rfl
                exact hkey rfl
          rw [← hother] at hmixes ⊢
          exact ih _ ((mem_cons.mp hmem).resolve_left fun heq => hkey heq.symm) hmixes
    rw [hsame] at hlt
    exact Nat.lt_irrefl _ hlt
  · intro hnone
    induction messages with
    | nil => rfl
    | cons msg rest ih =>
      have hassign : assign toolCallIds store msg = store := by
        cases msg with
        | copy => rfl
        | shared key =>
          have hmixes := hnone key mem_cons_self
          rw [← assigned_isSome, Bool.not_eq_true, Option.isSome_eq_false_iff, Option.isNone_iff_eq_none] at hmixes
          rw [assign, hmixes]
          rfl
      rw [removeCalls_cons, hassign]
      exact ih fun key hmem => hnone key (mem_cons_of_mem _ hmem)

/-- **The repair leaves the objects as they are** exactly when none of the assistant messages it is given mixes
a call without a result with something else. -/
theorem repairToolPairs_store (store : κ → Message) (messages : List (Handle κ)) :
    (repairToolPairs store messages).1 = store ↔ ∀ key, .shared key ∈ messages →
      ¬ Mixes (Dangling (messages.map (Handle.read store))) (store key) := by
  have hids : ∀ id, id ∈ (pairTools store [] messages).1 ↔ Dangling (messages.map (Handle.read store)) id := by
    intro id
    rw [(pairs_pairTools store [] messages).mem_opened not_mem_nil]
    simp only [not_mem_nil, false_and, false_or]
  have hmixes : (Mixes (· ∈ (pairTools store [] messages).1)) =
      Mixes (Dangling (messages.map (Handle.read store))) :=
    congrArg Mixes (funext fun id => propext (hids id))
  have hkept : ∀ key, Mixes (Dangling (messages.map (Handle.read store))) (store key) →
      (.shared key ∈ (pairTools store [] messages).2 ↔ .shared key ∈ messages) := by
    intro key hkey
    refine (pairs_pairTools store [] messages).mem_kept ?_
    have hrole := hkey.1
    rw [Handle.read]
    cases hread : store key with
    | bashExecution => rfl
    | summary => rfl
    | content speaker content fields =>
      rw [hread] at hrole
      cases speaker with
      | toolResult => exact nomatch hrole
      | system => rfl
      | user => rfl
      | assistant => rfl
      | custom => rfl
  rw [repairToolPairs]
  dsimp only
  split_ifs with hsome
  · rw [removeCalls_store, hmixes]
    constructor
    · exact fun hnone key hmem hkey => hnone key ((hkept key hkey).mpr hmem) hkey
    · exact fun hnone key hmem hkey => hnone key ((hkept key hkey).mp hmem) hkey
  · refine iff_of_true rfl fun key _ hkey => ?_
    obtain ⟨-, content, -, ⟨id, -, -, -, hid⟩, -⟩ := hkey
    rw [← hids, not_not.mp hsome] at hid
    exact not_mem_nil hid

end Pairs

/-! ### The selection

Stripping the thinking changes no role, no text, no call and no result, so the limits select the same messages
with it and without it. -/

section Selection

variable {α β : Type*} (convert : α → β) (role : β → Role) (text : β → JsStr)

theorem takeRecentFrom_map (maxChars : JsNumber) (chars : Option Nat) (messages : List α) :
    takeRecentFrom text maxChars chars (messages.map convert) =
      (takeRecentFrom (text ∘ convert) maxChars chars messages).map convert := by
  induction messages generalizing chars with
  | nil => cases chars <;> rfl
  | cons msg rest ih =>
    cases chars with
    | none => rw [map_cons, takeRecentFrom, takeRecentFrom, ih, map_cons, comp_apply]
    | some chars =>
      rw [map_cons, takeRecentFrom, takeRecentFrom, ih, comp_apply]
      split_ifs <;> rfl

theorem takeRecentMessagesWithinChars_map (messages : List α) (maxChars : JsNumber) :
    takeRecentMessagesWithinChars text (messages.map convert) maxChars =
      (takeRecentMessagesWithinChars (text ∘ convert) messages maxChars).map convert := by
  rw [takeRecentMessagesWithinChars, takeRecentMessagesWithinChars, ← map_reverse, takeRecentFrom_map, map_reverse]

theorem sliceLast_map (value : JsNumber) (messages : List α) :
    value.sliceLast (messages.map convert) = (value.sliceLast messages).map convert := by
  have hfin : ∀ whole : Int,
      (if 0 < whole then (messages.map convert).drop ((messages.map convert).length - whole.toNat)
        else (messages.map convert).drop (-whole).toNat) =
      (if 0 < whole then messages.drop (messages.length - whole.toNat)
        else messages.drop (-whole).toNat).map convert := by
    intro whole
    rw [length_map]
    split_ifs
    · rw [map_drop]
    · rw [map_drop]
  cases value with
  | infinite negative => cases negative <;> rfl
  | int value => exact hfin value
  | negZero => exact hfin 0
  | nan => exact hfin 0
  | fraction bits => exact hfin (JsNumber.trunc (.fraction bits))

theorem findLastUserMessageIndex_map (messages : List α) :
    findLastUserMessageIndex role (messages.map convert) = findLastUserMessageIndex (role ∘ convert) messages := by
  rw [findLastUserMessageIndex, findLastUserMessageIndex, ← map_reverse, findIdx?_map, length_map]
  rfl

theorem limitHistory_map (options : HistoryOptions) (messages : List α) :
    limitHistory role text options (messages.map convert) =
      ((limitHistory (role ∘ convert) (text ∘ convert) options messages).1.map convert,
        (limitHistory (role ∘ convert) (text ∘ convert) options messages).2) := by
  have hmsgs : ∀ messages : List α, limitMessages options (messages.map convert) =
      ((limitMessages options messages).1.map convert, (limitMessages options messages).2) := by
    intro messages
    rw [limitMessages, limitMessages]
    cases options.maxMessages with
    | none => rfl
    | some maxMessages =>
      dsimp only
      rw [length_map, sliceLast_map]
      split_ifs <;> rfl
  have hchars : ∀ messages : List α, limitChars text options (messages.map convert) =
      ((limitChars (text ∘ convert) options messages).1.map convert,
        (limitChars (text ∘ convert) options messages).2) := by
    intro messages
    rw [limitChars, limitChars]
    cases options.maxChars with
    | none => rfl
    | some maxChars =>
      dsimp only
      rw [isEmpty_map, takeRecentMessagesWithinChars_map]
      split_ifs <;> rfl
  have huser : ∀ messages : List α, omitUser role options (messages.map convert) =
      ((omitUser (role ∘ convert) options messages).1.map convert,
        (omitUser (role ∘ convert) options messages).2) := by
    intro messages
    rw [omitUser, omitUser, findLastUserMessageIndex_map]
    split_ifs
    · cases findLastUserMessageIndex (role ∘ convert) messages with
      | none => rfl
      | some lastUserIdx =>
        dsimp only
        rw [map_append, map_take, map_drop]
    · rfl
  simp only [limitHistory, hmsgs, hchars, huser]

end Selection

section Stripping

variable {κ : Type*} [DecidableEq κ] (store : κ → Message) (options : HistoryOptions) (messages : List κ)
  (currentTraceStartIndex : Option Nat)

/-- Whether the thinking of a message is to be stripped. -/
def stripsThinking (key : κ) : Bool :=
  match options.stripAssistantThinking with
  | none => false
  | some .all => true
  | some .previousTraces => !inCurrentTrace messages currentTraceStartIndex (.shared key)

/-- What a message is passed on as. -/
def passedOn (key : κ) : Handle κ :=
  if stripsThinking options messages currentTraceStartIndex key then stripThinkingFromMessage store (.shared key)
  else .shared key

theorem stripThinking_shared (keys : List κ) :
    stripThinking store options messages currentTraceStartIndex (keys.map .shared) =
      keys.map (passedOn store options messages currentTraceStartIndex) := by
  rw [stripThinking]
  cases hstrip : options.stripAssistantThinking with
  | none =>
    refine map_congr_left fun key _ => ?_
    rw [passedOn, stripsThinking, hstrip]
    rfl
  | some stripping =>
    cases stripping with
    | all =>
      rw [map_map]
      refine map_congr_left fun key _ => ?_
      rw [passedOn, stripsThinking, hstrip]
      rfl
    | previousTraces =>
      dsimp only
      rw [stripThinkingFromPreviousTraces, map_map]
      refine map_congr_left fun key _ => ?_
      rw [passedOn, stripsThinking, hstrip, comp_apply]
      cases inCurrentTrace messages currentTraceStartIndex (.shared key) <;> rfl

theorem withoutThinking_keeps {message copy : Message} (hcopy : withoutThinking message = some copy) :
    copy.role = message.role ∧ contentToText copy = contentToText message ∧ callIds copy = callIds message ∧
      resultId? copy = resultId? message := by
  rw [withoutThinking] at hcopy
  split_ifs at hcopy
  cases message with
  | bashExecution => exact nomatch hcopy
  | summary => exact nomatch hcopy
  | content speaker content fields =>
    cases content with
    | string => exact nomatch hcopy
    | array content =>
      dsimp only [Message.blocks?] at hcopy
      split_ifs at hcopy
      obtain rfl := Option.some.inj hcopy
      refine ⟨rfl, ?_, ?_, by cases speaker <;> rfl⟩
      · rw [Message.withBlocks, contentToText, contentToText, blocksText, blocksText, filterMap_filter]
        refine congrArg (JsStr.join (js "\n")) (filterMap_congr fun block _ => ?_)
        cases block <;> rfl
      · rw [Message.withBlocks, callIds, callIds]
        refine if_congr Iff.rfl rfl ?_
        rw [Message.blocks?, Message.blocks?, Option.getD_some, Option.getD_some, filterMap_filter]
        refine filterMap_congr fun block _ => ?_
        cases block <;> rfl

theorem passedOn_keeps (key : κ) :
    let passed := (passedOn store options messages currentTraceStartIndex key).read store
    passed.role = (store key).role ∧ contentToText passed = contentToText (store key) ∧
      callIds passed = callIds (store key) ∧ resultId? passed = resultId? (store key) := by
  intro passed
  simp only [passed, passedOn]
  split_ifs
  · rw [stripThinkingFromMessage, Handle.read]
    cases hcopy : withoutThinking (store key) with
    | none => exact ⟨rfl, rfl, rfl, rfl⟩
    | some copy => exact withoutThinking_keeps hcopy
  · exact ⟨rfl, rfl, rfl, rfl⟩

theorem passedOn_shared {key other : κ} :
    passedOn store options messages currentTraceStartIndex key = .shared other ↔ key = other ∧
      (stripsThinking options messages currentTraceStartIndex key = true → withoutThinking (store key) = none) := by
  rw [passedOn]
  split_ifs with hstr
  · rw [stripThinkingFromMessage, Handle.read]
    cases hcopy : withoutThinking (store key) with
    | none => simp
    | some copy => simp [hstr]
  · simp [hstr]

/-- The messages the filters and limits of the options leave. -/
def retained : List κ × Bool :=
  limitHistory (fun key => (store key).role) (fun key => contentToText (store key)) options
    (filterMessages store options messages)

/-- Whether the tool pairs are repaired. -/
def repairs : Bool := (filtersRoles options || (retained store options messages).2) && !options.dropTools

/-- The tool pairs are repaired, and of the messages left an assistant message that was not copied holds a call
without a result behind it and something else. -/
def Spoils : Prop :=
  repairs store options messages = true ∧ ∃ key ∈ (retained store options messages).1,
    (stripsThinking options messages currentTraceStartIndex key = true → withoutThinking (store key) = none) ∧
      Mixes (Dangling ((retained store options messages).1.map store)) (store key)

/-- **The selection leaves the objects as they are** unless the options spoil one. -/
theorem selectHistory_store : (selectHistory store options messages currentTraceStartIndex).1 = store ↔
    ¬ Spoils store options messages currentTraceStartIndex := by
  have hlim : limitHistory (fun msg : Handle κ => (msg.read store).role)
      (fun msg => contentToText (msg.read store)) options
        (stripThinking store options messages currentTraceStartIndex
          ((filterMessages store options messages).map Handle.shared)) =
      ((retained store options messages).1.map (passedOn store options messages currentTraceStartIndex),
        (retained store options messages).2) := by
    rw [stripThinking_shared, limitHistory_map]
    have hrole : ((fun msg : Handle κ => (msg.read store).role) ∘
        passedOn store options messages currentTraceStartIndex) = fun key => (store key).role :=
      funext fun key => (passedOn_keeps store options messages currentTraceStartIndex key).1
    have htext : ((fun msg : Handle κ => contentToText (msg.read store)) ∘
        passedOn store options messages currentTraceStartIndex) = fun key => contentToText (store key) :=
      funext fun key => (passedOn_keeps store options messages currentTraceStartIndex key).2.1
    rw [hrole, htext]
    rfl
  rw [selectHistory, Spoils, repairs]
  dsimp only
  cases options.dropTools with
  | true =>
    simp only [Bool.not_true, Bool.and_false, Bool.false_eq_true, if_false, false_and, not_false_eq_true]
  | false =>
    simp only [Bool.false_eq_true, if_false, hlim, Bool.not_false, Bool.and_true]
    split_ifs with hrep
    · rw [repairToolPairs_store, map_map]
      have hdan : Dangling ((retained store options messages).1.map
          (Handle.read store ∘ passedOn store options messages currentTraceStartIndex)) =
            Dangling ((retained store options messages).1.map store) := by
        funext id
        refine propext (dangling_map ?_ ?_ _ id)
        · exact fun key => (passedOn_keeps store options messages currentTraceStartIndex key).2.2.1
        · exact fun key => (passedOn_keeps store options messages currentTraceStartIndex key).2.2.2
      rw [hdan]
      simp only [hrep, true_and, not_exists, not_and, mem_map, passedOn_shared]
      constructor
      · exact fun hnone key hmem hcop => hnone key ⟨key, hmem, rfl, hcop⟩
      · rintro hnone key ⟨_, hmem, rfl, hcop⟩
        exact hnone _ hmem hcop
    · exact iff_of_true rfl fun hspoils => hrep hspoils.1

end Stripping

end PiRp.Preset

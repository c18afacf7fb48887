import PiRp.PresetRepair

/-! What the repair of tool pairs leaves. One set of open ids decides for all calls, so a call that is repeated
without a result takes the answered ones with it, and their result stays alone. -/

namespace PiRp.Preset

open List

variable {message rest : Message} {id : JsStr} {toolCallIds : List JsStr}

/-- The message holds a call with the id. -/
def HoldsCall (message : Message) (id : JsStr) : Prop :=
  message.role = .assistant ∧ ∃ content, message.blocks? = some content ∧ ∃ name rest, .toolCall id name rest ∈ content

theorem mem_callIds : id ∈ callIds message ↔ id ≠ [] ∧ HoldsCall message id := by
  rw [callIds, HoldsCall]
  by_cases hrole : message.role = .assistant
  · rw [if_neg (not_not.mpr hrole), mem_filterMap, and_iff_right hrole]
    constructor
    · rintro ⟨part, hpart, heq⟩
      cases hblocks : message.blocks? with
      | none =>
        rw [hblocks] at hpart
        exact absurd hpart not_mem_nil
      | some content =>
        rw [hblocks] at hpart
        cases part with
        | toolCall call name fields =>
          dsimp only at heq
          split_ifs at heq with hne
          cases heq
          exact ⟨hne, content, rfl, name, fields, hpart⟩
        | text | thinking | image => cases heq
    · rintro ⟨hne, content, hblocks, name, fields, hpart⟩
      refine ⟨.toolCall id name fields, ?_, if_pos hne⟩
      rwa [hblocks]
  · rw [if_pos hrole]
    exact iff_of_false not_mem_nil fun hcall => hrole hcall.2.1

/-! ### The second loop -/

/-- What the second loop leaves of a message. -/
def left (toolCallIds : List JsStr) (message : Message) : Option Message :=
  if message.role ≠ .assistant then some message
  else
    match message.blocks? with
    | none => some message
    | some content =>
      if (keptBlocks toolCallIds content).length = content.length then some message
      else if keptBlocks toolCallIds content = [] then none
      else some (message.withBlocks (keptBlocks toolCallIds content))

theorem left_of_role (hrole : message.role ≠ .assistant) : left toolCallIds message = some message := if_pos hrole

theorem role_of_result (hresult : resultId? message = some id) : message.role ≠ .assistant := by
  intro hrole
  cases message with
  | bashExecution | summary => cases hresult
  | content speaker content fields =>
    cases speaker with
    | toolResult => cases hrole
    | system | user | assistant | custom => cases hresult

theorem keptBlocks_keptBlocks (toolCallIds : List JsStr) (content : List Block) :
    keptBlocks toolCallIds (keptBlocks toolCallIds content) = keptBlocks toolCallIds content := by
  rw [keptBlocks, keptBlocks, filter_filter]
  simp only [Bool.and_self]

section

variable (hleft : left toolCallIds message = some rest)

include hleft

/-- What is left keeps everything but the calls. -/
theorem left_eq_some : rest = message ∧ (∀ id ∈ toolCallIds, ¬ HoldsCall message id) ∨
    message.role = .assistant ∧ rest.role = .assistant ∧ ∃ content, message.blocks? = some content ∧
      rest = message.withBlocks (keptBlocks toolCallIds content) ∧
      rest.blocks? = some (keptBlocks toolCallIds content) := by
  rw [left] at hleft
  by_cases hrole : message.role = .assistant
  · rw [if_neg (not_not.mpr hrole)] at hleft
    cases hblocks : message.blocks? with
    | none =>
      rw [hblocks] at hleft
      cases hleft
      refine .inl ⟨rfl, ?_⟩
      rintro id - ⟨-, content, hcontent, -⟩
      rw [hblocks] at hcontent
      cases hcontent
    | some content =>
      simp only [hblocks] at hleft
      split_ifs at hleft with hsame hnil
      · cases hleft
        refine .inl ⟨rfl, ?_⟩
        rintro id hid ⟨-, content', hcontent, name, fields, hcall⟩
        cases hblocks.symm.trans hcontent
        exact keptBlocks_length.mpr ⟨id, name, fields, hcall, hid⟩ hsame
      · cases hleft
        right
        cases message with
        | bashExecution | summary => cases hblocks
        | content speaker blocks fields => exact ⟨hrole, hrole, content, rfl, rfl, rfl⟩
  · rw [if_pos hrole] at hleft
    cases hleft
    exact .inl ⟨rfl, fun id _ hcall => hrole hcall.1⟩

theorem holdsCall_left : HoldsCall rest id ↔ HoldsCall message id ∧ id ∉ toolCallIds := by
  obtain ⟨rfl, hnone⟩ | ⟨hrole, hrole', content, hcontent, -, hkept⟩ := left_eq_some hleft
  · exact ⟨fun hcall => ⟨hcall, fun hid => hnone id hid hcall⟩, And.left⟩
  · simp only [HoldsCall, hrole, hrole', hcontent, hkept, true_and, Option.some.injEq, exists_eq_left',
      mem_keptBlocks, ← exists_and_right]
    refine exists_congr fun name => exists_congr fun fields => and_congr_right fun _ => ?_
    constructor
    · exact fun hid => hid id name fields rfl
    · rintro hid _ _ _ ⟨rfl, -, -⟩
      exact hid

omit hleft in
theorem left_of_holdsCall (hcall : HoldsCall message id) (hid : id ∉ toolCallIds) :
    ∃ rest, left toolCallIds message = some rest := by
  obtain ⟨hrole, content, hcontent, name, fields, hmem⟩ := hcall
  have hkept : keptBlocks toolCallIds content ≠ [] := by
    refine ne_nil_of_mem (mem_keptBlocks.mpr ⟨hmem, ?_⟩)
    rintro _ _ _ ⟨rfl, -, -⟩
    exact hid
  rw [left, if_neg (not_not.mpr hrole), hcontent]
  dsimp only
  split_ifs <;> exact ⟨_, rfl⟩

theorem resultId_left : resultId? rest = resultId? message := by
  obtain ⟨rfl, -⟩ | ⟨hrole, hrole', -⟩ := left_eq_some hleft
  · rfl
  · have hnone {message : Message} (hrole : message.role = .assistant) : resultId? message = none := by
      cases hresult : resultId? message with
      | none => rfl
      | some id => exact absurd hrole (role_of_result hresult)
    rw [hnone hrole, hnone hrole']

end

variable {κ : Type*} {store : κ → Message}

section Objects

variable [DecidableEq κ]

theorem removeCalls_of_unassigned {key : κ} (hnone : assigned toolCallIds (store key) = none)
    (messages : List (Handle κ)) : (removeCalls toolCallIds store messages).1 key = store key := by
  induction messages generalizing store with
  | nil => rfl
  | cons msg messages ih =>
    have hsame : assign toolCallIds store msg key = store key := by
      cases msg with
      | copy => rfl
      | shared other =>
        rw [assign]
        cases hother : assigned toolCallIds (store other) with
        | none => rfl
        | some written =>
          refine Function.update_of_ne ?_ written store
          rintro rfl
          rw [hnone] at hother
          cases hother
    rw [removeCalls_cons, ih (by rwa [hsame]), hsame]

/-- A message that has been written is not written again. -/
theorem left_withBlocks (toolCallIds : List JsStr) {content : List Block} (hrole : message.role = .assistant)
    (hblocks : message.blocks? = some content) :
    left toolCallIds (message.withBlocks (keptBlocks toolCallIds content)) =
        some (message.withBlocks (keptBlocks toolCallIds content)) ∧
      assigned toolCallIds (message.withBlocks (keptBlocks toolCallIds content)) = none := by
  cases message with
  | bashExecution | summary => cases hblocks
  | content speaker blocks fields =>
    have hagain := keptBlocks_keptBlocks toolCallIds content
    have hrole' : (Message.content speaker (.array (keptBlocks toolCallIds content)) fields).role = .assistant := hrole
    rw [Message.withBlocks, left, assigned, if_neg (not_not.mpr hrole'), if_neg (not_not.mpr hrole')]
    dsimp only [Message.blocks?]
    rw [hagain, if_pos rfl, if_pos (.inl rfl)]
    exact ⟨rfl, rfl⟩

/-- The messages that are left, as they are behind the loop. -/
theorem removeCalls_read (messages : List (Handle κ)) :
    (removeCalls toolCallIds store messages).2.map (Handle.read (removeCalls toolCallIds store messages).1) =
      (messages.map (Handle.read store)).filterMap (left toolCallIds) := by
  induction messages generalizing store with
  | nil => rfl
  | cons msg messages ih =>
    have hkeep : assigned toolCallIds (msg.read store) = none →
        msg.read (removeCalls toolCallIds store messages).1 = msg.read store := by
      intro hnone
      cases msg with
      | copy => rfl
      | shared key => exact removeCalls_of_unassigned (show assigned toolCallIds (store key) = none from hnone) messages
    rw [map_cons, filterMap_cons, removeCalls, left]
    dsimp only
    by_cases hrole : (msg.read store).role = .assistant
    · rw [if_neg (not_not.mpr hrole), if_neg (not_not.mpr hrole)]
      cases hblocks : (msg.read store).blocks? with
      | none =>
        dsimp only
        rw [map_cons, ih, hkeep (by rw [assigned, if_neg (not_not.mpr hrole), hblocks])]
      | some content =>
        obtain ⟨hleft, hunassigned⟩ := left_withBlocks toolCallIds hrole hblocks
        dsimp only
        split_ifs with hsame hnil
        · dsimp only
          rw [map_cons, ih, hkeep (by
            rw [assigned, if_neg (not_not.mpr hrole), hblocks]
            exact if_pos (.inl hsame))]
        · exact ih
        · have hwritten : left toolCallIds (msg.read store) =
              some ((msg.read store).withBlocks (keptBlocks toolCallIds content)) := by
            rw [left, if_neg (not_not.mpr hrole), hblocks]
            exact (if_neg hsame).trans (if_neg hnil)
          cases msg with
          | copy message =>
            dsimp only [Handle.write]
            rw [map_cons, ih]
            rfl
          | shared key =>
            dsimp only [Handle.write, Handle.read] at hleft hunassigned hwritten ⊢
            rw [map_cons, ih, Handle.read, removeCalls_of_unassigned (by rwa [Function.update_self]),
              Function.update_self, filterMap_map, filterMap_map]
            refine congrArg _ (filterMap_congr fun other _ => ?_)
            -- The other messages are read from the same objects, or from the one that was written.
            cases other with
            | copy => rfl
            | shared other =>
              dsimp only [Function.comp, Handle.read]
              by_cases hkey : other = key
              · rw [hkey, Function.update_self, hleft, hwritten]
              · rw [Function.update_of_ne hkey]
    · rw [if_pos hrole, if_pos hrole]
      dsimp only
      rw [map_cons, ih, hkeep (by rw [assigned, if_pos hrole])]

end Objects

/-! ### The first loop -/

section Loop

variable {α : Type*} {read : α → Message} {ids opened : List JsStr} {items kept : List α}

section

variable (hpairs : Pairs read ids items opened kept)

include hpairs

theorem Pairs.sublist : kept <+ items := by
  induction hpairs with
  | nil => exact .refl _
  | other _ _ ih => exact ih.cons_cons _
  | answer _ _ _ _ ih => exact ih.cons_cons _
  | orphan _ _ _ ih => exact ih.cons _

/-- A result is kept for a call before it. -/
theorem Pairs.call_of_result {before after : List α} {item : α}
    (hkept : kept = before ++ item :: after) (hresult : resultId? (read item) = some id) :
    id ≠ [] ∧ (id ∈ ids ∨ ∃ earlier ∈ before, id ∈ callIds (read earlier)) := by
  induction hpairs generalizing before with
  | nil => exact absurd hkept.symm (append_ne_nil_of_right_ne_nil _ (cons_ne_nil _ _))
  | other hres _ ih =>
    cases before with
    | nil =>
      cases hkept
      cases hresult.symm.trans hres
    | cons first before =>
      obtain ⟨rfl, hrest⟩ := List.cons.inj hkept
      obtain ⟨hne, hwaited⟩ := ih hrest
      rw [mem_append, or_assoc] at hwaited
      simpa [hne] using hwaited
  | answer hres hne hid _ ih =>
    cases before with
    | nil =>
      cases hkept
      cases hresult.symm.trans hres
      exact ⟨hne, .inl hid⟩
    | cons first before =>
      obtain ⟨rfl, hrest⟩ := List.cons.inj hkept
      obtain ⟨hne, hwaited⟩ := ih hrest
      refine ⟨hne, hwaited.imp (fun hmem => (mem_filter.mp hmem).1) ?_⟩
      rintro ⟨earlier, hmem, hcall⟩
      exact ⟨earlier, mem_cons_of_mem _ hmem, hcall⟩
  | orphan _ _ _ ih => exact ih hkept

theorem Pairs.result_of_waited (hid : id ∈ ids) : id ∈ opened ∨ ∃ later ∈ kept, resultId? (read later) = some id := by
  induction hpairs with
  | nil => exact .inl hid
  | other _ _ ih =>
    exact (ih (mem_append_left _ hid)).imp_right fun hlater => hlater.imp fun _ => And.imp_left (mem_cons_of_mem _)
  | @answer _ _ _ _ _ result hres _ _ _ ih =>
    by_cases hsame : id = result
    · exact .inr ⟨_, mem_cons_self, hsame ▸ hres⟩
    · exact (ih (mem_filter.mpr ⟨hid, decide_eq_true hsame⟩)).imp_right fun hlater =>
        hlater.imp fun _ => And.imp_left (mem_cons_of_mem _)
  | orphan _ _ _ ih => exact ih hid

/-- A call is waited for to the end, or it has a result behind it. -/
theorem Pairs.result_of_call {before after : List α} {item : α}
    (hkept : kept = before ++ item :: after) (hcall : id ∈ callIds (read item)) :
    id ∈ opened ∨ ∃ later ∈ after, resultId? (read later) = some id := by
  induction hpairs generalizing before with
  | nil => exact absurd hkept.symm (append_ne_nil_of_right_ne_nil _ (cons_ne_nil _ _))
  | other _ hpairs ih =>
    cases before with
    | nil =>
      cases hkept
      exact hpairs.result_of_waited (mem_append_right _ hcall)
    | cons first before => exact ih (List.cons.inj hkept).2
  | answer hres _ _ _ ih =>
    cases before with
    | nil =>
      cases hkept
      rw [callIds_of_result hres] at hcall
      exact absurd hcall not_mem_nil
    | cons first before => exact ih (List.cons.inj hkept).2
  | orphan _ _ _ ih => exact ih hkept

theorem Pairs.kept_of_waited (hid : id ∈ ids) (hne : id ≠ [])
    (hlater : ∃ later ∈ items, resultId? (read later) = some id) :
    ∃ later ∈ kept, resultId? (read later) = some id := by
  induction hpairs with
  | nil =>
    obtain ⟨later, hmem, -⟩ := hlater
    exact absurd hmem not_mem_nil
  | other hres _ ih =>
    rw [exists_mem_cons_iff, hres, or_iff_right nofun] at hlater
    exact (exists_mem_cons_iff _ _ _).mpr (.inr (ih (mem_append_left _ hid) hlater))
  | @answer _ _ _ _ _ result hres _ _ _ ih =>
    rw [exists_mem_cons_iff] at hlater ⊢
    by_cases hsame : id = result
    · exact .inl (hsame ▸ hres)
    · refine hlater.imp_right (ih (mem_filter.mpr ⟨hid, decide_eq_true hsame⟩))
  | orphan hres hnot _ ih =>
    obtain hfirst | hrest := (exists_mem_cons_iff _ _ _).mp hlater
    · cases hres.symm.trans hfirst
      exact absurd (hnot hid) hne
    · exact ih hid hrest

end

/-- A call with the id, and a result for it behind the call. -/
def Answered (messages : List Message) (id : JsStr) : Prop :=
  ∃ call result, [call, result] <+ messages ∧ id ∈ callIds call ∧ resultId? result = some id

theorem Pairs.kept_of_answered (hpairs : Pairs read ids items opened kept) (hans : Answered (items.map read) id) :
    ∃ later ∈ kept, resultId? (read later) = some id := by
  obtain ⟨call, result, hsub, hcall, hresult⟩ := hans
  induction hpairs with
  | nil => cases hsub
  | @other _ _ items _ _ _ hpairs ih =>
    rw [exists_mem_cons_iff]
    cases hsub with
    | cons _ hsub => exact .inr (ih hsub)
    | cons_cons _ hsub =>
      obtain ⟨later, hmem, rfl⟩ := mem_map.mp (singleton_sublist.mp hsub)
      exact .inr (hpairs.kept_of_waited (mem_append_right _ hcall) (mem_callIds.mp hcall).1 ⟨later, hmem, hresult⟩)
  | answer hres _ _ _ ih =>
    rw [exists_mem_cons_iff]
    cases hsub with
    | cons _ hsub => exact .inr (ih hsub)
    | cons_cons _ hsub => exact absurd hcall (callIds_of_result hres ▸ not_mem_nil)
  | orphan hres _ _ ih =>
    cases hsub with
    | cons _ hsub => exact ih hsub
    | cons_cons _ hsub => exact absurd hcall (callIds_of_result hres ▸ not_mem_nil)

end Loop

/-! ### The repair -/

/-- A message that is neither an assistant's nor a result. -/
def isOther (message : Message) : Bool := (resultId? message).isNone && message.role ≠ .assistant

/-- The results and the calls of the messages are paired, and the other messages are those of the input. -/
structure Paired (messages result : List Message) : Prop where
  results : ∀ before message after id, result = before ++ message :: after → resultId? message = some id →
    ∃ earlier ∈ before, HoldsCall earlier id
  calls : ∀ before message after id, result = before ++ message :: after → HoldsCall message id →
    ∃ later ∈ after, resultId? later = some id
  others : result.filter isOther = messages.filter isOther

/-- The messages of the repair, as they are behind it. -/
def repaired [DecidableEq κ] (store : κ → Message) (messages : List (Handle κ)) : List Message :=
  (repairToolPairs store messages).2.map (Handle.read (repairToolPairs store messages).1)

theorem left_nil (message : Message) : left [] message = some message := by
  have hall (content : List Block) : keptBlocks [] content = content := by
    rw [keptBlocks, filter_eq_self]
    intro part _
    cases part <;> rfl
  rw [left]
  cases message.blocks? <;> simp [hall]

theorem repaired_eq [DecidableEq κ] (messages : List (Handle κ)) : repaired store messages =
    (pairTools store [] messages).2.filterMap (left (pairTools store [] messages).1 ∘ Handle.read store) := by
  rw [repaired, repairToolPairs]
  dsimp only
  rw [← filterMap_map]
  split_ifs with hopen
  · exact removeCalls_read _
  · rw [not_not.mp hopen, funext left_nil, filterMap_some]

theorem split_filterMap {α β : Type*} {f : α → Option β} {items : List α} {before after : List β} {result : β}
    (hsplit : items.filterMap f = before ++ result :: after) : ∃ front item back, items = front ++ item :: back ∧
      f item = some result ∧ front.filterMap f = before ∧ back.filterMap f = after := by
  obtain ⟨first, last, rfl, rfl, hlast⟩ := filterMap_eq_append_iff.mp hsplit
  obtain ⟨gone, item, back, rfl, hgone, hitem, rfl⟩ := filterMap_eq_cons_iff.mp hlast
  refine ⟨first ++ gone, item, back, (append_assoc ..).symm, hitem, ?_, rfl⟩
  rw [filterMap_append, filterMap_eq_nil_iff.mpr hgone, append_nil]

theorem filter_left (messages : List Message) :
    (messages.filterMap (left toolCallIds)).filter isOther = messages.filter isOther := by
  have hnot {message : Message} (hrole : message.role = .assistant) : ¬ isOther message = true := by
    simp [isOther, hrole]
  induction messages with
  | nil => rfl
  | cons message messages ih =>
    by_cases hrole : message.role = .assistant
    · rw [filter_cons_of_neg (hnot hrole), filterMap_cons]
      cases hleft : left toolCallIds message with
      | none => exact ih
      | some rest =>
        have hrest : rest.role = .assistant := by
          obtain ⟨rfl, -⟩ | ⟨-, hrest, -⟩ := left_eq_some hleft
          · exact hrole
          · exact hrest
        rw [filter_cons_of_neg (hnot hrest), ih]
    · rw [filterMap_cons, left_of_role hrole, filter_cons, filter_cons, ih]

theorem Pairs.filter_kept {α : Type*} {read : α → Message} {ids opened : List JsStr} {items kept : List α}
    (hpairs : Pairs read ids items opened kept) : (kept.map read).filter isOther = (items.map read).filter isOther := by
  induction hpairs with
  | nil => rfl
  | other _ _ ih | answer _ _ _ _ ih => rw [map_cons, map_cons, filter_cons, filter_cons, ih]
  | orphan hres _ _ ih => rw [map_cons, filter_cons_of_neg (by simp [isOther, hres]), ih]

/-- **The repair pairs the calls and the results** exactly when every call has an id, and no id that was answered is
called again without a result. -/
theorem repairToolPairs_paired_iff [DecidableEq κ] (store : κ → Message) (messages : List (Handle κ)) :
    Paired (messages.map (Handle.read store)) (repaired store messages) ↔
      (∀ message ∈ messages.map (Handle.read store), ¬ HoldsCall message []) ∧
        ∀ id, Dangling (messages.map (Handle.read store)) id → ¬ Answered (messages.map (Handle.read store)) id := by
  have hpairs := pairs_pairTools store [] messages
  have hopened := hpairs.mem_opened not_mem_nil
  simp only [not_mem_nil, false_and, false_or] at hopened
  rw [repaired_eq]
  generalize (pairTools store [] messages).1 = opened at hpairs hopened ⊢
  generalize (pairTools store [] messages).2 = kept at hpairs ⊢
  have hnil : [] ∉ opened := by
    rw [hopened]
    rintro ⟨_, message, _, -, hcall, -⟩
    exact callIds_ne_nil hcall
  constructor
  · intro hpaired
    rw [forall_mem_map]
    constructor
    · intro item hitem hcall
      have hkept : item ∈ kept := by
        refine (hpairs.mem_kept ?_).mpr hitem
        cases hresult : resultId? (item.read store) with
        | none => rfl
        | some id => exact absurd hcall.1 (role_of_result hresult)
      obtain ⟨front, back, rfl⟩ := append_of_mem hkept
      obtain ⟨rest, hleft⟩ := left_of_holdsCall hcall hnil
      have hleft : (left opened ∘ Handle.read store) item = some rest := hleft
      obtain ⟨later, hlater, hresult⟩ := hpaired.calls (front.filterMap _) rest (back.filterMap _) []
        (by rw [filterMap_append, filterMap_cons_some hleft]) ((holdsCall_left hleft).mpr ⟨hcall, hnil⟩)
      obtain ⟨result, hmem, hleft'⟩ := mem_filterMap.mp hlater
      obtain ⟨start, finish, rfl⟩ := append_of_mem hmem
      rw [resultId_left hleft'] at hresult
      exact (hpairs.call_of_result (append_assoc front (item :: start) _).symm hresult).1 rfl
    · intro id hdangling hans
      obtain ⟨item, hkept, hresult⟩ := hpairs.kept_of_answered hans
      obtain ⟨front, back, rfl⟩ := append_of_mem hkept
      have hleft : (left opened ∘ Handle.read store) item = some (item.read store) :=
        left_of_role (role_of_result hresult)
      obtain ⟨earlier, hearlier, hcall⟩ := hpaired.results (front.filterMap _) _ (back.filterMap _) id
        (by rw [filterMap_append, filterMap_cons_some hleft]) hresult
      obtain ⟨first, -, hleft'⟩ := mem_filterMap.mp hearlier
      exact ((holdsCall_left hleft').mp hcall).2 ((hopened id).mpr hdangling)
  · rintro ⟨hids, hans⟩
    refine ⟨?_, ?_, by rw [← filterMap_map, filter_left, hpairs.filter_kept]⟩
    · intro before message after id hsplit hresult
      obtain ⟨front, item, back, hitem, hleft, rfl, -⟩ := split_filterMap hsplit
      rw [resultId_left hleft] at hresult
      obtain ⟨-, hmem | ⟨earlier, hearlier, hcall⟩⟩ := hpairs.call_of_result hitem hresult
      · exact absurd hmem not_mem_nil
      have hclosed : id ∉ opened := by
        rw [hopened]
        refine fun hdangling => hans id hdangling ⟨earlier.read store, item.read store, ?_, hcall, hresult⟩
        refine .trans (.map _ (show [earlier, item] <+ _ from ?_)) (hpairs.sublist.map _)
        rw [hitem]
        exact (singleton_sublist.mpr hearlier).append (singleton_sublist.mpr mem_cons_self)
      obtain ⟨rest, hrest⟩ := left_of_holdsCall (mem_callIds.mp hcall).2 hclosed
      exact ⟨rest, mem_filterMap.mpr ⟨earlier, hearlier, hrest⟩,
        (holdsCall_left hrest).mpr ⟨(mem_callIds.mp hcall).2, hclosed⟩⟩
    · intro before message after id hsplit hcall
      obtain ⟨front, item, back, hitem, hleft, -, rfl⟩ := split_filterMap hsplit
      obtain ⟨hcall, hclosed⟩ := (holdsCall_left hleft).mp hcall
      have hne : id ≠ [] := by
        rintro rfl
        exact hids _ (mem_map_of_mem (hpairs.sublist.subset (by simp [hitem]))) hcall
      obtain hmem | ⟨later, hlater, hresult⟩ := hpairs.result_of_call hitem (mem_callIds.mpr ⟨hne, hcall⟩)
      · exact absurd hmem hclosed
      · exact ⟨_, mem_filterMap.mpr ⟨later, hlater, left_of_role (role_of_result hresult)⟩, hresult⟩

/-- A call with its result, and the call again. -/
def repeatedCall : List (Handle Empty) :=
  let call := .copy (.content .assistant (.array [.toolCall [0x61] [0x62] []]) [])
  [call, .copy (.content (.toolResult [0x61] [0x62]) (.string []) []), call]

theorem repeatedCall_unpaired : ¬ Paired (repeatedCall.map (Handle.read nofun)) (repaired nofun repeatedCall) := by
  intro hpaired
  have hrepaired : repaired nofun repeatedCall = [.content (.toolResult [0x61] [0x62]) (.string []) []] := rfl
  obtain ⟨earlier, hmem, -⟩ := hpaired.results [] _ [] _ hrepaired rfl
  exact not_mem_nil hmem

end PiRp.Preset

import PiRp.Joining
import PiRp.PresetMessages

/-! `squashMessages` merges adjacent messages of one role. It carries all texts and blocks of the messages but
those without a content: the output of a bash execution is lost. What it returns before `volatileFrom` depends
on the messages before the tracked index alone. -/

namespace PiRp.Preset

open List Option Joining

/-! ### The loop -/

/-- Whether the message has a `content` that is not falsy. -/
def hasContent : Message → Bool
  | .content _ (.string text) _ => text ≠ []
  | .content _ (.array _) _ => true
  | _ => false

/-- One round of the loop that joins texts which came to stand side by side. -/
def pushBlock (content : List Block) (block : Block) : List Block :=
  match content.getLast?, block with
  | some (.text previous _), .text text _ => content.dropLast ++ [.text (previous ++ js "\n\n" ++ text) none]
  | _, _ => content ++ [block]

/-- The content of two merged messages, none when one of them has no text. -/
def mergeBlocks (lastArr msgArr : List Block) : Option (List Block) :=
  let lastText := blocksText lastArr
  let msgText := blocksText msgArr
  if lastText ≠ [] ∧ msgText ≠ [] then
    if lastArr.all Block.isText && msgArr.all Block.isText then some [.text (lastText ++ js "\n\n" ++ msgText) none]
    else some ((lastArr ++ msgArr).foldl pushBlock [])
  else none

/-- The merged message. -/
def mergeMessages (last msg : Message) : Option Message :=
  if last.role ≠ .toolResult ∧ msg.role ≠ .toolResult ∧ last.role = msg.role then
    match last.blocks?, msg.blocks? with
    | some lastArr, some msgArr => (mergeBlocks lastArr msgArr).map last.withBlocks
    | _, _ => none
  else none

/-- The variables of the loop. -/
structure Squash where
  squashed : List Message
  last : Option Message
  volatileFrom : Option Nat

namespace Squash

variable (trackedFrom : Option Nat)

/-- Remembers where the first message at or behind the tracked index went. -/
def track (idx : Nat) (state : Squash) : Squash :=
  if state.volatileFrom = none ∧ trackedFrom.any (· ≤ idx) then
    { state with volatileFrom := some state.squashed.length }
  else state

/-- Keeps the pending message and makes another one pending. -/
def push (state : Squash) (msg : Message) : Squash :=
  { state with squashed := state.squashed ++ state.last.toList, last := some msg }

def round (idx : Nat) (state : Squash) (msg : Message) : Squash :=
  if isSummaryMessage msg then (state.push msg).track trackedFrom idx
  else if !hasContent msg then state
  else
    match state.last.bind (mergeMessages · msg) with
    | some merged => { state with last := some merged }.track trackedFrom idx
    | none => (state.push msg).track trackedFrom idx

def loop : Nat → Squash → List Message → Squash
  | _, state, [] => state
  | idx, state, msg :: rest => loop (idx + 1) (round trackedFrom idx state msg) rest

/-- The messages so far. -/
def messages (state : Squash) : List Message := state.squashed ++ state.last.toList

def empty : Squash := ⟨[], none, none⟩

end Squash

/-- The messages and `volatileFrom`. -/
def squashMessages (messages : List Message) (trackedFrom : Option Nat) : List Message × Option Nat :=
  let state := Squash.loop trackedFrom 0 .empty messages
  (state.messages, state.volatileFrom)

/-! ### What a message carries -/

/-- The line breaks that may stand between joined texts. -/
def separators : List JsStr := [js "\n", js "\n\n"]

def piece (role : Role) : Block → Piece Role Block UInt16
  | .text text _ => .text role text
  | block => .block role block

/-- The texts and the other blocks of a message, in order. -/
def pieces : Message → List (Piece Role Block UInt16)
  | .content speaker (.string text) _ => [.text speaker.role text]
  | .content speaker (.array blocks) _ => blocks.map (piece speaker.role)
  | .bashExecution output _ => [.text .bashExecution output]
  | .summary kind summary _ => [.text kind.role summary]

theorem newline_mem : js "\n" ∈ separators := mem_cons_self

theorem blank_line_mem : js "\n\n" ∈ separators := mem_cons_of_mem _ mem_cons_self

theorem carries_join (role : Role) {texts : List JsStr} (hne : texts ≠ []) :
    Carries separators (texts.map (.text role))
      [(.text role (JsStr.join (js "\n") texts) : Piece Role Block UInt16)] := by
  induction texts with
  | nil => exact absurd rfl hne
  | cons text rest ih =>
    by_cases hrest : rest = []
    · subst hrest
      rw [show JsStr.join (js "\n") [text] = text from append_nil text]
      exact .refl _
    · rw [JsStr.join_cons _ _ hrest]
      exact ((ih hrest).append_left [.text role text]).trans (.join role text _ newline_mem)

theorem map_piece_of_texts (role : Role) {blocks : List Block} (htexts : blocks.all Block.isText = true) :
    blocks.map (piece role) = (blocks.filterMap Block.text?).map (.text role) := by
  induction blocks with
  | nil => rfl
  | cons block rest ih =>
    rw [all_cons, Bool.and_eq_true] at htexts
    cases block with
    | text text signature => rw [map_cons, ih htexts.2]; rfl
    | thinking => exact nomatch htexts.1
    | image => exact nomatch htexts.1
    | toolCall => exact nomatch htexts.1

theorem carries_blocksText (role : Role) {blocks : List Block} (htexts : blocks.all Block.isText = true)
    (hne : blocksText blocks ≠ []) :
    Carries separators (blocks.map (piece role)) [.text role (blocksText blocks)] := by
  rw [map_piece_of_texts role htexts]
  refine carries_join role fun hnil => hne ?_
  rw [blocksText, hnil]
  rfl

theorem carries_pushBlock (role : Role) (content : List Block) (block : Block) :
    Carries separators ((content ++ [block]).map (piece role)) ((pushBlock content block).map (piece role)) := by
  unfold pushBlock
  split
  · rename_i previous signature text other hlast
    obtain ⟨front, rfl⟩ := getLast?_eq_some_iff.mp hlast
    rw [dropLast_concat, append_assoc]
    simp only [map_append]
    exact (Joining.Carries.join role previous text blank_line_mem).append_left (front.map (piece role))
  · exact .refl _

theorem carries_pushBlocks (role : Role) (content blocks : List Block) :
    Carries separators ((content ++ blocks).map (piece role))
      ((blocks.foldl pushBlock content).map (piece role)) := by
  induction blocks generalizing content with
  | nil =>
    rw [append_nil]
    exact .refl _
  | cons block rest ih =>
    rw [foldl_cons]
    refine .trans ?_ (ih (pushBlock content block))
    have hblock := (carries_pushBlock role content block).append_right (rest.map (piece role))
    rwa [← map_append, ← map_append, append_assoc, singleton_append] at hblock

theorem carries_mergeBlocks (role : Role) {lastArr msgArr merged : List Block}
    (hmerge : mergeBlocks lastArr msgArr = some merged) :
    Carries separators ((lastArr ++ msgArr).map (piece role)) (merged.map (piece role)) := by
  simp only [mergeBlocks] at hmerge
  split_ifs at hmerge with htexts hall
  · obtain rfl := Option.some.inj hmerge
    rw [Bool.and_eq_true] at hall
    rw [map_append]
    refine ((carries_blocksText role hall.1 htexts.1).append_right _).trans ?_
    exact ((carries_blocksText role hall.2 htexts.2).append_left [_]).trans (.join role _ _ blank_line_mem)
  · obtain rfl := Option.some.inj hmerge
    exact carries_pushBlocks role [] (lastArr ++ msgArr)

theorem withBlocks_role (message : Message) (blocks : List Block) :
    (message.withBlocks blocks).role = message.role := by
  cases message <;> rfl

theorem mergeMessages_role {last msg merged : Message} (hmerge : mergeMessages last msg = some merged) :
    merged.role = last.role := by
  rw [mergeMessages] at hmerge
  split_ifs at hmerge
  cases hlast : last.blocks? with
  | none => rw [hlast] at hmerge; exact nomatch hmerge
  | some lastArr =>
    cases hmsg : msg.blocks? with
    | none => rw [hlast, hmsg] at hmerge; exact nomatch hmerge
    | some msgArr =>
      rw [hlast, hmsg] at hmerge
      obtain ⟨blocks, -, rfl⟩ := map_eq_some_iff.mp hmerge
      exact withBlocks_role last blocks

theorem pieces_role {message : Message} {role : Role} {text : JsStr} (hpiece : .text role text ∈ pieces message) :
    message.role = role := by
  cases message with
  | bashExecution output fields => exact (Joining.Piece.text.inj (mem_singleton.mp hpiece)).1.symm
  | summary kind summary fields => exact (Joining.Piece.text.inj (mem_singleton.mp hpiece)).1.symm
  | content speaker content fields =>
    cases content with
    | string => exact (Joining.Piece.text.inj (mem_singleton.mp hpiece)).1.symm
    | array blocks =>
      obtain ⟨block, -, heq⟩ := mem_map.mp hpiece
      cases block with
      | text => exact (Joining.Piece.text.inj heq).1
      | thinking => exact nomatch heq
      | image => exact nomatch heq
      | toolCall => exact nomatch heq

theorem mergeMessages_cases {last msg merged : Message} (hmerge : mergeMessages last msg = some merged) :
    isToolResultMessage last = false ∧ isToolResultMessage msg = false ∧ isToolResultMessage merged = false ∧
      Carries separators (pieces last ++ pieces msg) (pieces merged) := by
  rw [mergeMessages] at hmerge
  split_ifs at hmerge with hroles
  obtain ⟨hlast, hmsg, hsame⟩ := hroles
  cases last with
  | bashExecution => exact nomatch hmerge
  | summary => exact nomatch hmerge
  | content speaker content fields =>
    cases content with
    | string => exact nomatch hmerge
    | array lastArr =>
      cases msg with
      | bashExecution => exact nomatch hmerge
      | summary => exact nomatch hmerge
      | content other content others =>
        cases content with
        | string => exact nomatch hmerge
        | array msgArr =>
          obtain ⟨blocks, hbloc, rfl⟩ := map_eq_some_iff.mp hmerge
          refine ⟨decide_eq_false hlast, decide_eq_false hmsg, ?_, ?_⟩
          · rw [isToolResultMessage, withBlocks_role]
            exact decide_eq_false hlast
          · have hrole : speaker.role = other.role := hsame
            rw [pieces, pieces, ← hrole, ← map_append]
            exact carries_mergeBlocks speaker.role hbloc

/-! ### One round -/

namespace Squash

variable {trackedFrom : Option Nat} {idx : Nat} {state : Squash} {msg : Message}

@[simp] theorem track_messages (state : Squash) : (state.track trackedFrom idx).messages = state.messages := by
  rw [track]
  split_ifs <;> rfl

@[simp] theorem track_squashed (state : Squash) : (state.track trackedFrom idx).squashed = state.squashed := by
  rw [track]
  split_ifs <;> rfl

theorem push_messages (state : Squash) (msg : Message) : (state.push msg).messages = state.messages ++ [msg] := rfl

theorem round_cases (trackedFrom : Option Nat) (idx : Nat) (state : Squash) (msg : Message) :
    (isSummaryMessage msg = false ∧ hasContent msg = false ∧ round trackedFrom idx state msg = state) ∨
    ((isSummaryMessage msg = true ∨ hasContent msg = true) ∧
      round trackedFrom idx state msg = (state.push msg).track trackedFrom idx) ∨
    ∃ last merged, state.last = some last ∧ mergeMessages last msg = some merged ∧
      round trackedFrom idx state msg = { state with last := some merged }.track trackedFrom idx := by
  rw [round]
  cases hsum : isSummaryMessage msg with
  | true => exact .inr (.inl ⟨.inl rfl, if_pos rfl⟩)
  | false =>
    cases hcont : hasContent msg with
    | false => exact .inl ⟨rfl, rfl, rfl⟩
    | true =>
      refine .inr ?_
      cases hlast : state.last with
      | none => exact .inl ⟨.inr rfl, rfl⟩
      | some last =>
        cases hmerge : mergeMessages last msg with
        | none => exact .inl ⟨.inr rfl, by simp [hmerge]⟩
        | some merged => exact .inr ⟨last, merged, rfl, hmerge, by simp [hmerge]⟩

theorem loop_append (state : Squash) (first second : List Message) : loop trackedFrom idx state (first ++ second) =
      loop trackedFrom (idx + first.length) (loop trackedFrom idx state first) second := by
  induction first generalizing idx state with
  | nil => rfl
  | cons msg rest ih =>
    rw [cons_append, loop, loop, ih, length_cons, Nat.add_right_comm, Nat.add_assoc]

end Squash

/-- A bash execution with an output. -/
def hasOutput : Message → Bool
  | .bashExecution output _ => output ≠ []
  | _ => false

namespace Squash

variable {trackedFrom : Option Nat} {idx : Nat} {state : Squash} {msg : Message}

theorem round_carries (hout : hasOutput msg = false) :
    Carries separators (state.messages.flatMap pieces ++ pieces msg)
      ((round trackedFrom idx state msg).messages.flatMap pieces) := by
  rcases round_cases trackedFrom idx state msg with ⟨hsum, hcont, hround⟩ | ⟨-, hround⟩ |
    ⟨last, merged, hlast, hmerge, hround⟩
  · have hblank : Carries separators (pieces msg) [] := by
      cases msg with
      | summary => exact nomatch hsum
      | bashExecution output fields =>
        have houtp : output = [] := by simpa [hasOutput] using hout
        rw [pieces, houtp]
        exact .blank _
      | content speaker content fields =>
        cases content with
        | array => exact nomatch hcont
        | string text =>
          have htext : text = [] := by simpa [hasContent] using hcont
          rw [pieces, htext]
          exact .blank _
    have happ := hblank.append_left (state.messages.flatMap pieces)
    rw [append_nil] at happ
    rw [hround]
    exact happ
  · rw [hround, track_messages, push_messages, flatMap_append, flatMap_singleton]
    exact .refl _
  · rw [hround, track_messages, messages, messages, hlast, toList_some, toList_some,
      flatMap_append, flatMap_append, flatMap_singleton, flatMap_singleton, append_assoc]
    exact (mergeMessages_cases hmerge).2.2.2.append_left _

variable {rest : List Message}

theorem loop_carries (hout : ∀ msg ∈ rest, hasOutput msg = false) :
    Carries separators (state.messages.flatMap pieces ++ rest.flatMap pieces)
      ((loop trackedFrom idx state rest).messages.flatMap pieces) := by
  induction rest generalizing idx state with
  | nil =>
    rw [flatMap_nil, append_nil]
    exact .refl _
  | cons msg rest ih =>
    obtain ⟨hmsg, hrest⟩ := forall_mem_cons.mp hout
    rw [flatMap_cons, ← append_assoc]
    exact ((round_carries hmsg).append_right _).trans (ih hrest)

theorem round_results : (round trackedFrom idx state msg).messages.filter isToolResultMessage =
    state.messages.filter isToolResultMessage ++ [msg].filter fun msg => isToolResultMessage msg && hasContent msg := by
  rcases round_cases trackedFrom idx state msg with ⟨-, hcont, hround⟩ | ⟨hkept, hround⟩ |
    ⟨last, merged, hlast, hmerge, hround⟩
  · rw [hround, filter_singleton, hcont, Bool.and_false, cond_false, append_nil]
  · rw [hround, track_messages, push_messages, filter_append, filter_singleton, filter_singleton]
    rcases hkept with hsum | hcont
    · have hres : isToolResultMessage msg = false := by
        cases msg with
        | summary kind => cases kind <;> rfl
        | content => exact nomatch hsum
        | bashExecution => exact nomatch hsum
      rw [hres, Bool.false_and]
    · rw [hcont, Bool.and_true]
  · obtain ⟨hres, hmsg, hmer, -⟩ := mergeMessages_cases hmerge
    rw [hround, track_messages, messages, messages, hlast, toList_some, toList_some, filter_append,
      filter_append, filter_singleton, filter_singleton, filter_singleton]
    simp only [hres, hmsg, hmer, Bool.false_and, cond_false, append_nil]

theorem loop_results (rest : List Message) : (loop trackedFrom idx state rest).messages.filter isToolResultMessage =
    state.messages.filter isToolResultMessage ++ rest.filter fun msg => isToolResultMessage msg && hasContent msg := by
  induction rest generalizing idx state with
  | nil => exact (append_nil _).symm
  | cons msg rest ih =>
    rw [loop, ih, round_results, append_assoc, ← filter_append, singleton_append]

theorem round_outputs (hstate : ∀ msg ∈ state.messages, msg.role ≠ .bashExecution) :
    ∀ kept ∈ (round trackedFrom idx state msg).messages, kept.role ≠ .bashExecution := by
  rcases round_cases trackedFrom idx state msg with ⟨-, -, hround⟩ | ⟨hkept, hround⟩ |
    ⟨last, merged, hlast, hmerge, hround⟩
  · rwa [hround]
  · rw [hround, track_messages, push_messages]
    intro kept hmem
    rcases mem_append.mp hmem with hmem | hmem
    · exact hstate kept hmem
    · obtain rfl := mem_singleton.mp hmem
      cases kept with
      | bashExecution => simp [isSummaryMessage, hasContent] at hkept
      | summary kind => cases kind <;> exact nofun
      | content speaker => cases speaker <;> exact nofun
  · rw [hround, track_messages, messages]
    intro kept hmem
    rcases mem_append.mp hmem with hmem | hmem
    · exact hstate kept (mem_append_left _ hmem)
    · obtain rfl := mem_singleton.mp hmem
      have hpend : last.role ≠ .bashExecution :=
        hstate last (mem_append_right _ (by rw [hlast]; exact mem_singleton_self _))
      rwa [mergeMessages_role hmerge]

theorem loop_outputs (hstate : ∀ msg ∈ state.messages, msg.role ≠ .bashExecution) :
    ∀ kept ∈ (loop trackedFrom idx state rest).messages, kept.role ≠ .bashExecution := by
  induction rest generalizing idx state with
  | nil => exact hstate
  | cons msg rest ih => exact ih (round_outputs hstate)

/-! ### The tracked index -/

variable {tracked : Nat}

theorem loop_untracked (hstate : state.volatileFrom = none)
    (hbef : idx + rest.length ≤ tracked) : (loop (some tracked) idx state rest).volatileFrom = none := by
  induction rest generalizing idx state with
  | nil => exact hstate
  | cons msg rest ih =>
    rw [length_cons] at hbef
    have htrack : ∀ state : Squash, state.track (some tracked) idx = state := by
      intro state
      rw [track, if_neg]
      rintro ⟨-, htrac⟩
      have hle : tracked ≤ idx := by simpa using htrac
      omega
    refine ih ?_ (by omega)
    rcases round_cases (some tracked) idx state msg with ⟨-, -, hround⟩ | ⟨-, hround⟩ | ⟨_, merged, -, -, hround⟩
    · rw [hround, hstate]
    · rw [hround, htrack]
      exact hstate
    · rw [hround, htrack]
      exact hstate

/-- Where something is remembered, what stands before it is what stood there at the tracked index. -/
def Settled (start state : Squash) : Prop :=
  (state.volatileFrom = none ∧ state.messages = start.messages ∧ state.squashed = start.squashed) ∨
    ∃ volatileFrom, state.volatileFrom = some volatileFrom ∧ volatileFrom ≤ state.squashed.length ∧
      state.squashed.take volatileFrom = start.messages.take volatileFrom

variable {start : Squash}

theorem round_settled (htrac : tracked ≤ idx) (hsett : Settled start state) :
    Settled start (round (some tracked) idx state msg) := by
  have htrack : ∀ state : Squash, state.volatileFrom = none →
      state.track (some tracked) idx = { state with volatileFrom := some state.squashed.length } := by
    intro state hnone
    rw [track, if_pos ⟨hnone, by simpa using htrac⟩]
  have hkeep : ∀ state : Squash, state.volatileFrom ≠ none → state.track (some tracked) idx = state := by
    intro state hsome
    rw [track, if_neg fun htrack => hsome htrack.1]
  rcases hsett with ⟨hnone, hmsgs, hsquas⟩ | ⟨volatileFrom, hsome, hle, htake⟩
  · rcases round_cases (some tracked) idx state msg with ⟨-, -, hround⟩ | ⟨-, hround⟩ | ⟨_, merged, -, -, hround⟩
    · rw [hround]
      exact .inl ⟨hnone, hmsgs, hsquas⟩
    · refine .inr ⟨state.messages.length, ?_, ?_, ?_⟩
      · rw [hround, htrack (state.push msg) hnone]
        rfl
      · rw [hround, track_squashed]
        exact Nat.le_refl _
      · rw [hround, track_squashed, hmsgs.symm]
        rfl
    · refine .inr ⟨state.squashed.length, ?_, ?_, ?_⟩
      · rw [hround, htrack { state with last := some merged } hnone]
      · rw [hround, track_squashed]
      · rw [hround, track_squashed, hsquas, messages, take_left]
        exact take_length
  · have hpush : volatileFrom ≤ state.messages.length ∧ state.messages.take volatileFrom =
        start.messages.take volatileFrom := by
      rw [messages, length_append, take_append_of_le_length hle]
      exact ⟨Nat.le_add_right_of_le hle, htake⟩
    refine .inr ⟨volatileFrom, ?_⟩
    rcases round_cases (some tracked) idx state msg with ⟨-, -, hround⟩ | ⟨-, hround⟩ | ⟨_, merged, -, -, hround⟩
    · rw [hround]
      exact ⟨hsome, hle, htake⟩
    · rw [hround, hkeep _ (by rw [push, hsome]; exact nofun)]
      exact ⟨hsome, hpush⟩
    · rw [hround, hkeep _ (by rw [hsome]; exact nofun)]
      exact ⟨hsome, hle, htake⟩

theorem loop_settled (htrac : tracked ≤ idx)
    (hsett : Settled start state) : Settled start (loop (some tracked) idx state rest) := by
  induction rest generalizing idx state with
  | nil => exact hsett
  | cons msg rest ih => exact ih (Nat.le_succ_of_le htrac) (round_settled htrac hsett)

theorem Settled.agree (hsett : Settled start state) {position : Nat}
    (hpos : ∀ volatileFrom, state.volatileFrom = some volatileFrom → position < volatileFrom) :
    state.messages[position]? = start.messages[position]? := by
  rcases hsett with ⟨-, hmsgs, -⟩ | ⟨volatileFrom, hsome, hle, htake⟩
  · rw [hmsgs]
  · have hlt := hpos volatileFrom hsome
    rw [messages, getElem?_append_left (Nat.lt_of_lt_of_le hlt hle), ← getElem?_take_of_lt hlt, htake,
      getElem?_take_of_lt hlt]

end Squash

/-! ### What is carried and what is stable -/

theorem squash_settled (messages : List Message) (tracked : Nat) :
    Squash.Settled (Squash.loop (some tracked) 0 .empty (messages.take tracked))
      (Squash.loop (some tracked) 0 .empty messages) := by
  have hsplit : Squash.loop (some tracked) 0 .empty messages =
      Squash.loop (some tracked) (messages.take tracked).length
        (Squash.loop (some tracked) 0 .empty (messages.take tracked)) (messages.drop tracked) := by
    rw [← Nat.zero_add (messages.take tracked).length, ← Squash.loop_append, take_append_drop]
  have hunt : (Squash.loop (some tracked) 0 .empty (messages.take tracked)).volatileFrom = none := by
    refine Squash.loop_untracked rfl ?_
    rw [Nat.zero_add]
    exact length_take_le _ _
  have hstart : Squash.Settled (Squash.loop (some tracked) 0 .empty (messages.take tracked))
      (Squash.loop (some tracked) 0 .empty (messages.take tracked)) := .inl ⟨hunt, rfl, rfl⟩
  rw [hsplit]
  rcases Nat.lt_or_ge messages.length tracked with hshort | hlong
  · rw [drop_eq_nil_of_le (Nat.le_of_lt hshort)]
    exact hstart
  · refine Squash.loop_settled ?_ hstart
    rw [length_take_of_le hlong]

/-- A position before `volatileFrom`, or any one when nothing was tracked. -/
def Stable (result : List Message × Option Nat) (position : Nat) : Prop :=
  ∀ volatileFrom, result.2 = some volatileFrom → position < volatileFrom

/-- What the squashed messages have of a list: its texts and blocks in order and under their roles, its tool
results one by one, and at the stable positions what any other list with the same messages before the tracked
index has there. -/
structure Faithful (messages : List Message) (trackedFrom : Option Nat) : Prop where
  carries : Carries separators (messages.flatMap pieces)
    ((squashMessages messages trackedFrom).1.flatMap pieces)
  toolResults : (squashMessages messages trackedFrom).1.filter isToolResultMessage =
    messages.filter fun msg => isToolResultMessage msg && hasContent msg
  stable : ∀ tracked, trackedFrom = some tracked → ∀ other : List Message,
    other.take tracked = messages.take tracked → ∀ position,
      Stable (squashMessages messages trackedFrom) position → Stable (squashMessages other trackedFrom) position →
        (squashMessages other trackedFrom).1[position]? = (squashMessages messages trackedFrom).1[position]?

theorem outputs_lost {messages : List Message} {msg : Message} (hmsg : msg ∈ messages)
    (houtp : hasOutput msg = true) (trackedFrom : Option Nat) : ¬ Carries separators (messages.flatMap pieces)
      ((squashMessages messages trackedFrom).1.flatMap pieces) := by
  intro hcar
  cases msg with
  | content => exact nomatch houtp
  | summary => exact nomatch houtp
  | bashExecution output fields =>
    have hne : output ≠ [] := of_decide_eq_true houtp
    have hmem : .text .bashExecution output ∈ messages.flatMap pieces :=
      mem_flatMap.mpr ⟨_, hmsg, mem_singleton_self _⟩
    obtain ⟨kept, -, hkept⟩ := hcar.text_kept hne hmem
    obtain ⟨found, hfound, hpiece⟩ := mem_flatMap.mp hkept
    exact Squash.loop_outputs (fun _ hmem => absurd hmem not_mem_nil) found hfound (pieces_role hpiece)

/-- **Squashing is faithful exactly to the lists without the output of a bash execution.** -/
theorem squash_faithful_iff (messages : List Message) (trackedFrom : Option Nat) :
    Faithful messages trackedFrom ↔ ∀ msg ∈ messages, hasOutput msg = false := by
  constructor
  · intro hfait msg hmsg
    rw [← Bool.not_eq_true]
    intro houtp
    exact outputs_lost hmsg houtp trackedFrom hfait.carries
  · intro houtputs
    have hcar : Carries separators (Squash.empty.messages.flatMap pieces ++ messages.flatMap pieces)
        ((squashMessages messages trackedFrom).1.flatMap pieces) := Squash.loop_carries houtputs
    refine ⟨hcar, Squash.loop_results messages, ?_⟩
    rintro tracked rfl other hshare position hstab hother
    have hmsgs := (squash_settled messages tracked).agree hstab
    have hoth := (squash_settled other tracked).agree hother
    rw [hshare] at hoth
    exact hoth.trans hmsgs.symm

/-- The output of a command a user ran. -/
theorem bash_output_lost : ¬ Faithful [.bashExecution (js "src") []] none := fun hfait =>
  outputs_lost (mem_singleton_self _) rfl none hfait.carries

end PiRp.Preset

import PiRp.JsMap
import PiRp.JsSplit
import PiRp.JsonDecimal

/-! The transcript of a session as a participant sees it, `packages/session-protocol/src/transcript.ts`:
a snapshot, with the progress since then laid over it. A participant who joins later starts from a
snapshot whose transcript is the one another participant sees. From then on both see the same, as long as
no item comes before a queued one and every streamed tool call goes on from its input. -/

namespace PiRp.Transcript

open List JsonText JsMap

/-! ### Items and snapshots -/

inductive AssistantContent where
  | text (text : JsStr)
  | thinking (thinking : JsStr) (redacted : Option Bool)
  | toolCall (toolCallId toolName : JsStr) (input : Json)

/-- A user item; nothing reads its content and its time. -/
structure UserTranscriptItem where
  id : JsStr
  content : Json
  timestamp : Int

/-- An item. The properties of an item that nothing reads are its `rest`. -/
inductive TranscriptItem where
  | user (item : UserTranscriptItem)
  | custom (id : JsStr) (rest : Json)
  | assistant (id : JsStr) (content : List AssistantContent) (rest : Json)
  | tool (id : JsStr) (rest : Json)

def TranscriptItem.id : TranscriptItem → JsStr
  | .user item => item.id
  | .custom id _ => id
  | .assistant id _ _ => id
  | .tool id _ => id

structure SessionSnapshot where
  id : JsStr
  revision : Nat
  transcript : List TranscriptItem
  queuedSteer : List UserTranscriptItem
  rest : Json

inductive DeltaKind where
  | text
  | thinking
  | toolCall

inductive TranscriptProgress where
  | itemStarted (item : TranscriptItem)
  | assistantDelta (messageId : JsStr) (contentIndex : Nat) (kind : DeltaKind) (delta : JsStr)
  | itemUpdated (item : TranscriptItem)
  | itemFinished (item : TranscriptItem)

structure TranscriptState where
  snapshot : SessionSnapshot
  progressItems : JsMap JsStr TranscriptItem
  progressOrder : List JsStr
  toolCallBuffers : JsMap JsStr JsStr

def createTranscriptState (snapshot : SessionSnapshot) : TranscriptState where
  snapshot
  progressItems := .empty
  progressOrder := []
  toolCallBuffers := .empty

def applyTranscriptSnapshot (state : TranscriptState) (snapshot : SessionSnapshot) : TranscriptState :=
  if state.snapshot.id = snapshot.id ∧ snapshot.revision < state.snapshot.revision then state
  else createTranscriptState snapshot

/-! ### Progress -/

mutual

/-- A parsed text is a JSON value unless one of its numbers is too large. -/
def isJsonValue : Json → Bool
  | .number value => value.isFinite
  | .array items => allJsonValues items
  | .object props => allJsonProps props
  | _ => true

def allJsonValues : List Json → Bool
  | [] => true
  | item :: items => isJsonValue item && allJsonValues items

def allJsonProps : List (JsStr × Json) → Bool
  | [] => true
  | (_, value) :: props => isJsonValue value && allJsonProps props

end

section Progress

variable [NumberText]

def parsePartialToolInput (value : JsStr) : Json :=
  match parse value with
  | some parsed => if isJsonValue parsed then parsed else .string value
  | none => .string value

def setProgressItem (state : TranscriptState) (item : TranscriptItem) : TranscriptState :=
  { state with
    progressItems := state.progressItems.set item.id item
    progressOrder :=
      if state.progressItems.has item.id then state.progressOrder else state.progressOrder ++ [item.id] }

def bufferKey (messageId : JsStr) (contentIndex : Nat) : JsStr :=
  messageId ++ js ":" ++ decimal contentIndex

/-- The text an input that is still a text goes on from. -/
def inputText : Json → JsStr
  | .string text => text
  | _ => []

/-- The item a delta is about. -/
def progressTarget (state : TranscriptState) (messageId : JsStr) : Option TranscriptItem :=
  (state.progressItems.get? messageId).or
    (state.snapshot.transcript.find? fun item => item.id = messageId)

/-- The text of a tool call with the delta. -/
def extendBuffer (state : TranscriptState) (key : JsStr) (input : Json) (delta : JsStr) : JsStr :=
  (state.toolCallBuffers.get? key).getD (inputText input) ++ delta

def applyDelta (state : TranscriptState) (messageId : JsStr) (contentIndex : Nat) (kind : DeltaKind)
    (delta : JsStr) : TranscriptState :=
  match progressTarget state messageId with
  | some (.assistant id content rest) =>
    match kind, content[contentIndex]? with
    | .text, some (.text text) =>
      setProgressItem state (.assistant id (content.set contentIndex (.text (text ++ delta))) rest)
    | .thinking, some (.thinking thinking redacted) =>
      setProgressItem state
        (.assistant id (content.set contentIndex (.thinking (thinking ++ delta) redacted)) rest)
    | .toolCall, some (.toolCall toolCallId toolName input) =>
      let key := bufferKey messageId contentIndex
      let buffer := extendBuffer state key input delta
      setProgressItem { state with toolCallBuffers := state.toolCallBuffers.set key buffer }
        (.assistant id
          (content.set contentIndex (.toolCall toolCallId toolName (parsePartialToolInput buffer))) rest)
    | _, _ => state
  | _ => state

/-- The buffers of an item that is finished go. -/
def dropBuffers (state : TranscriptState) (id : JsStr) : TranscriptState :=
  { state with
    toolCallBuffers := state.toolCallBuffers.filter fun key _ => !JsStr.startsWith key (id ++ js ":") }

def applyTranscriptProgress (state : TranscriptState) : TranscriptProgress → TranscriptState
  | .itemStarted item | .itemUpdated item => setProgressItem state item
  | .itemFinished item => setProgressItem (dropBuffers state item.id) item
  | .assistantDelta messageId contentIndex kind delta =>
    applyDelta state messageId contentIndex kind delta

def applyAll (state : TranscriptState) (progress : List TranscriptProgress) : TranscriptState :=
  progress.foldl applyTranscriptProgress state

end Progress

/-! ### The shown transcript -/

/-- Items to show, with the set of their ids. -/
structure Shown where
  items : List TranscriptItem
  ids : List JsStr

def Shown.push (shown : Shown) (id : JsStr) (item : TranscriptItem) : Shown :=
  ⟨shown.items ++ [item], shown.ids ++ [id]⟩

/-- The items of the snapshot, each in its newest state. -/
def showSnapshot (state : TranscriptState) : Shown :=
  let transcript := state.snapshot.transcript.map fun item =>
    (state.progressItems.get? item.id).getD item
  ⟨transcript, transcript.map TranscriptItem.id⟩

def showProgress (state : TranscriptState) (shown : Shown) (id : JsStr) : Shown :=
  if id ∈ shown.ids then shown
  else
    match state.progressItems.get? id with
    | some item => shown.push id item
    | none => shown

def showQueued (shown : Shown) (item : UserTranscriptItem) : Shown :=
  if item.id ∈ shown.ids then shown else shown.push item.id (.user item)

/-- The items apart from the queued ones. -/
def showStarted (state : TranscriptState) : Shown :=
  state.progressOrder.foldl (showProgress state) (showSnapshot state)

def selectTranscript (state : TranscriptState) : List TranscriptItem :=
  (state.snapshot.queuedSteer.foldl showQueued (showStarted state)).items

/-! ### The transcript as a list with replacement -/

/-- An item takes the place of the one with its id or comes last. -/
def replaceItem (item other : TranscriptItem) : TranscriptItem := if other.id = item.id then item else other

def putItem (items : List TranscriptItem) (item : TranscriptItem) : List TranscriptItem :=
  if item.id ∈ items.map TranscriptItem.id then items.map (replaceItem item) else items ++ [item]

variable {state : TranscriptState} {items : List TranscriptItem} {item : TranscriptItem} {shown : Shown}

theorem id_replaceItem (item other : TranscriptItem) : (replaceItem item other).id = other.id := by
  unfold replaceItem
  split_ifs with hsame
  · exact hsame.symm
  · rfl

theorem replaceItem_of_ne {other : TranscriptItem} (hother : other.id ≠ item.id) :
    replaceItem item other = other := if_neg hother

theorem map_replaceItem (hnew : item.id ∉ items.map TranscriptItem.id) : items.map (replaceItem item) = items := by
  refine (map_congr_left fun other hother => ?_).trans (map_id items)
  exact replaceItem_of_ne fun hsame => hnew (hsame ▸ mem_map_of_mem hother)

theorem ids_map_replaceItem (item : TranscriptItem) (items : List TranscriptItem) :
    (items.map (replaceItem item)).map TranscriptItem.id = items.map TranscriptItem.id := by
  rw [map_map]
  exact map_congr_left fun other _ => id_replaceItem item other

/-! ### States that progress leads to -/

/-- The order is the one of the map, and an item is kept under its id. -/
structure Sound (state : TranscriptState) : Prop where
  order : state.progressOrder = state.progressItems.keys
  own : ∀ id item, state.progressItems.get? id = some item → item.id = id

theorem sound_create (snapshot : SessionSnapshot) : Sound (createTranscriptState snapshot) :=
  ⟨rfl, nofun⟩

section

variable (hsound : Sound state)

include hsound

theorem Sound.set (item : TranscriptItem) : Sound (setProgressItem state item) where
  order := by
    show (if state.progressItems.has item.id then _ else _) =
      (setEntries state.progressItems.entries item.id item).map Prod.fst
    rw [setEntries_keys, hsound.order]
    by_cases hhas : state.progressItems.has item.id = true
    · have hkey : item.id ∈ state.progressItems.entries.map Prod.fst := JsMap.has_iff.mp hhas
      rw [if_pos hhas, if_pos hkey]
      rfl
    · have hkey : item.id ∉ state.progressItems.entries.map Prod.fst := mt JsMap.has_iff.mpr hhas
      rw [if_neg hhas, if_neg hkey]
      rfl
  own id other hother := by
    have hget := get?_set state.progressItems item.id item id
    rw [show (state.progressItems.set item.id item).get? id = some other from hother] at hget
    split_ifs at hget with hid
    · rw [Option.some.inj hget, hid]
    · exact hsound.own id other hget.symm

theorem Sound.buffers (toolCallBuffers : JsMap JsStr JsStr) :
    Sound { state with toolCallBuffers } :=
  { hsound with }

theorem Sound.nodup : state.progressOrder.Nodup := by
  rw [hsound.order]
  exact state.progressItems.nodup

theorem Sound.mem_order {id : JsStr} :
    id ∈ state.progressOrder ↔ ∃ item, state.progressItems.get? id = some item := by
  rw [hsound.order, ← has_iff, has, Option.isSome_iff_exists]

end

def snapshotIds (state : TranscriptState) : List JsStr := state.snapshot.transcript.map TranscriptItem.id

/-- The newest state of an item of the snapshot. -/
def currentItem (state : TranscriptState) (item : TranscriptItem) : TranscriptItem :=
  (state.progressItems.get? item.id).getD item

/-- The items that came after the snapshot. -/
def laterIds (state : TranscriptState) : List JsStr :=
  state.progressOrder.filter fun id => id ∉ snapshotIds state

def startedItems (state : TranscriptState) : List TranscriptItem :=
  state.snapshot.transcript.map (currentItem state) ++ (laterIds state).filterMap state.progressItems.get?

theorem Sound.id_currentItem (hsound : Sound state) (item : TranscriptItem) :
    (currentItem state item).id = item.id := by
  unfold currentItem
  cases hget : state.progressItems.get? item.id with
  | none => rfl
  | some current => exact hsound.own _ _ hget

theorem Sound.ids_current (hsound : Sound state) :
    (state.snapshot.transcript.map (currentItem state)).map TranscriptItem.id = snapshotIds state := by
  rw [map_map]
  exact map_congr_left fun item _ => hsound.id_currentItem item

theorem foldl_showProgress {order : List JsStr} (hnodup : order.Nodup)
    (hpres : ∀ id ∈ order, ∃ item, state.progressItems.get? id = some item) (shown : Shown) :
    order.foldl (showProgress state) shown =
      ⟨shown.items ++ (order.filter fun id => id ∉ shown.ids).filterMap state.progressItems.get?,
        shown.ids ++ order.filter fun id => id ∉ shown.ids⟩ := by
  induction order generalizing shown with
  | nil => simp
  | cons id order ih =>
    obtain ⟨hid, hnodup⟩ := nodup_cons.mp hnodup
    obtain ⟨hfirst, hpres⟩ := forall_mem_cons.mp hpres
    obtain ⟨item, hitem⟩ := hfirst
    rw [foldl_cons]
    by_cases hshown : id ∈ shown.ids
    · have hstep : showProgress state shown id = shown := if_pos hshown
      rw [hstep, ih hnodup hpres, filter_cons_of_neg (by simpa using hshown)]
    · have hstep : showProgress state shown id = shown.push id item := by
        rw [showProgress, if_neg hshown, hitem]
      have hrest : order.filter (fun other => decide (other ∉ (shown.push id item).ids)) =
          order.filter fun other => decide (other ∉ shown.ids) := by
        refine filter_congr fun other hother => ?_
        have hne : other ≠ id := fun hsame => hid (hsame ▸ hother)
        simp [Shown.push, hne]
      rw [hstep, ih hnodup hpres, hrest, filter_cons_of_pos (by simpa using hshown),
        filterMap_cons_some hitem]
      simp only [Shown.push, append_assoc, singleton_append]

variable {ids : List JsStr}

section

variable (hsound : Sound state)

include hsound

theorem ids_filterMap (hpres : ∀ id ∈ ids, ∃ item, state.progressItems.get? id = some item) :
    (ids.filterMap state.progressItems.get?).map TranscriptItem.id = ids := by
  induction ids with
  | nil => rfl
  | cons id ids ih =>
    obtain ⟨⟨item, hitem⟩, hpres⟩ := forall_mem_cons.mp hpres
    rw [filterMap_cons_some hitem, map_cons, ih hpres, hsound.own id item hitem]

theorem Sound.ids_started : (startedItems state).map TranscriptItem.id = snapshotIds state ++ laterIds state := by
  rw [startedItems, map_append, hsound.ids_current]
  refine congrArg _ (ids_filterMap hsound fun id hid => ?_)
  exact hsound.mem_order.mp (mem_of_mem_filter hid)

theorem Sound.showStarted_eq :
    showStarted state = ⟨startedItems state, (startedItems state).map TranscriptItem.id⟩ := by
  have hids : (showSnapshot state).ids = snapshotIds state := hsound.ids_current
  rw [showStarted, foldl_showProgress hsound.nodup (fun id hid => hsound.mem_order.mp hid), hids,
    hsound.ids_started]
  rfl

theorem Sound.mem_started {id : JsStr} :
    id ∈ (startedItems state).map TranscriptItem.id ↔ id ∈ snapshotIds state ∨ id ∈ state.progressOrder := by
  rw [hsound.ids_started, mem_append, laterIds, mem_filter, decide_eq_true_eq]
  tauto

theorem Sound.started_set (item : TranscriptItem) :
    startedItems (setProgressItem state item) = putItem (startedItems state) item := by
  have hget : ∀ id, (setProgressItem state item).progressItems.get? id =
      if id = item.id then some item else state.progressItems.get? id :=
    get?_set state.progressItems item.id item
  have hcur : state.snapshot.transcript.map (currentItem (setProgressItem state item)) =
      (state.snapshot.transcript.map (currentItem state)).map (replaceItem item) := by
    rw [map_map]
    refine map_congr_left fun other _ => ?_
    rw [Function.comp_apply, replaceItem, hsound.id_currentItem, currentItem, hget]
    split_ifs
    · rfl
    · rfl
  have hlater : ∀ ids : List JsStr, (∀ id ∈ ids, ∃ other, state.progressItems.get? id = some other) →
      ids.filterMap (setProgressItem state item).progressItems.get? =
        (ids.filterMap state.progressItems.get?).map (replaceItem item) := by
    intro ids hpres
    rw [map_filterMap]
    refine filterMap_congr fun id hid => ?_
    obtain ⟨other, hother⟩ := hpres id hid
    rw [hget, hother, Option.map_some, replaceItem, hsound.own id other hother]
    split_ifs
    · rfl
    · rfl
  have hold : ∀ id ∈ laterIds state, ∃ other, state.progressItems.get? id = some other := fun id hid =>
    hsound.mem_order.mp (mem_of_mem_filter hid)
  have hrep : laterIds (setProgressItem state item) = laterIds state →
      startedItems (setProgressItem state item) = (startedItems state).map (replaceItem item) := by
    intro hsame
    rw [startedItems, hsame, hlater _ hold, startedItems, map_append, ← hcur]
    rfl
  rw [putItem]
  by_cases hhas : state.progressItems.has item.id = true
  · have horder : (setProgressItem state item).progressOrder = state.progressOrder := if_pos hhas
    have hmem : item.id ∈ state.progressOrder := by
      rw [hsound.order]
      exact JsMap.has_iff.mp hhas
    rw [if_pos (hsound.mem_started.mpr (.inr hmem)), hrep]
    rw [laterIds, horder]
    rfl
  · have horder : (setProgressItem state item).progressOrder = state.progressOrder ++ [item.id] :=
      if_neg hhas
    have hlaterIds : laterIds (setProgressItem state item) =
        laterIds state ++ [item.id].filter fun id => id ∉ snapshotIds state := by
      rw [laterIds, horder, filter_append]
      rfl
    by_cases hsnap : item.id ∈ snapshotIds state
    · rw [if_pos (hsound.mem_started.mpr (.inl hsnap)), hrep]
      rw [hlaterIds, filter_cons_of_neg (by simpa using hsnap), filter_nil, append_nil]
    · have hnew : item.id ∉ (startedItems state).map TranscriptItem.id := by
        rw [hsound.mem_started, hsound.order, ← has_iff]
        exact not_or.mpr ⟨hsnap, hhas⟩
      rw [if_neg hnew]
      have hkept := map_replaceItem hnew
      rw [startedItems, hlaterIds, filter_cons_of_pos (by simpa using hsnap), filter_nil,
        filterMap_append, hlater _ hold, ← append_assoc]
      rw [startedItems, map_append, ← hcur] at hkept
      refine congrArg₂ (· ++ ·) (hkept.trans ?_) ?_
      · rw [startedItems]
      · rw [filterMap_cons_some (by rw [hget, if_pos rfl]), filterMap_nil]

end

/-! ### Queued items -/

/-- The queued items that are shown after items with the ids. -/
def newQueued (ids : List JsStr) : List UserTranscriptItem → List UserTranscriptItem
  | [] => []
  | item :: queue => if item.id ∈ ids then newQueued ids queue else item :: newQueued (ids ++ [item.id]) queue

def shownQueue (state : TranscriptState) : List UserTranscriptItem :=
  newQueued ((startedItems state).map TranscriptItem.id) state.snapshot.queuedSteer

theorem foldl_showQueued (queue : List UserTranscriptItem) (shown : Shown) :
    (queue.foldl showQueued shown).items = shown.items ++ (newQueued shown.ids queue).map .user := by
  induction queue generalizing shown with
  | nil => simp [newQueued]
  | cons item queue ih =>
    rw [foldl_cons, ih, showQueued, newQueued]
    split_ifs
    · rfl
    · simp [Shown.push]

theorem Sound.select_eq (hsound : Sound state) :
    selectTranscript state = startedItems state ++ (shownQueue state).map .user := by
  rw [selectTranscript, foldl_showQueued, hsound.showStarted_eq, shownQueue]

variable {queue : List UserTranscriptItem}

theorem id_not_mem_of_newQueued {item : UserTranscriptItem} (hitem : item ∈ newQueued ids queue) : item.id ∉ ids := by
  induction queue generalizing ids with
  | nil => exact absurd hitem not_mem_nil
  | cons first queue ih =>
    rw [newQueued] at hitem
    split_ifs at hitem with hfirst
    · exact ih hitem
    · rcases mem_cons.mp hitem with rfl | hitem
      · exact hfirst
      · exact fun hmem => ih hitem (mem_append_left _ hmem)

theorem newQueued_eq_nil : newQueued ids queue = [] ↔ ∀ item ∈ queue, item.id ∈ ids := by
  induction queue generalizing ids with
  | nil => simp [newQueued]
  | cons item queue ih =>
    rw [newQueued, forall_mem_cons]
    split_ifs with hid
    · rw [ih]
      exact (and_iff_right hid).symm
    · exact iff_of_false not_false fun hall => hid hall.1

theorem mem_ids_newQueued {item : UserTranscriptItem}
    (hitem : item ∈ queue) : item.id ∈ ids ++ (newQueued ids queue).map UserTranscriptItem.id := by
  induction queue generalizing ids with
  | nil => exact absurd hitem not_mem_nil
  | cons first queue ih =>
    rw [newQueued]
    split_ifs with hfirst
    · rcases mem_cons.mp hitem with rfl | hitem
      · exact mem_append_left _ hfirst
      · exact ih hitem
    · rw [map_cons, ← singleton_append, ← append_assoc]
      rcases mem_cons.mp hitem with rfl | hitem
      · exact mem_append_left _ (mem_append_right _ (mem_singleton_self _))
      · exact ih hitem

theorem newQueued_started {rest : List UserTranscriptItem}
    {first : UserTranscriptItem} (hqueue : newQueued ids queue = first :: rest) :
    newQueued (ids ++ [first.id]) queue = rest := by
  induction queue generalizing ids with
  | nil => exact nomatch hqueue
  | cons item queue ih =>
    rw [newQueued] at hqueue ⊢
    split_ifs at hqueue with hid
    · rw [if_pos (mem_append_left _ hid)]
      exact ih hqueue
    · obtain ⟨rfl, hrest⟩ := List.cons.inj hqueue
      rw [if_pos (mem_append_right _ (mem_singleton_self _)), hrest]

/-- No queued item comes before an item that starts, unless it is that item. -/
def InOrder (state : TranscriptState) (id : JsStr) : Prop :=
  id ∈ (startedItems state).map TranscriptItem.id ∨ ∀ first ∈ (shownQueue state).head?, first.id = id

theorem Sound.select_set (hsound : Sound state) (horder : InOrder state item.id) :
    selectTranscript (setProgressItem state item) = putItem (selectTranscript state) item := by
  have hqueue : shownQueue (setProgressItem state item) =
      newQueued ((putItem (startedItems state) item).map TranscriptItem.id) state.snapshot.queuedSteer := by
    rw [shownQueue, hsound.started_set]
    rfl
  rw [(hsound.set item).select_eq, hsound.select_eq, hsound.started_set, hqueue]
  by_cases hstar : item.id ∈ (startedItems state).map TranscriptItem.id
  · have hshown : item.id ∈ (startedItems state ++ (shownQueue state).map TranscriptItem.user).map
        TranscriptItem.id := by
      rw [map_append]
      exact mem_append_left _ hstar
    have hoth : ((shownQueue state).map TranscriptItem.user).map (replaceItem item) =
        (shownQueue state).map TranscriptItem.user := by
      refine map_replaceItem fun hmem => ?_
      rw [map_map] at hmem
      obtain ⟨queued, hque, hid⟩ := mem_map.mp hmem
      have hid : queued.id = item.id := hid
      exact id_not_mem_of_newQueued hque (hid ▸ hstar)
    rw [putItem, putItem, if_pos hstar, if_pos hshown, ids_map_replaceItem, map_append, hoth]
    rfl
  · rw [putItem, if_neg hstar, map_append, map_singleton]
    have hfirst := horder.resolve_left hstar
    cases hshown : shownQueue state with
    | nil =>
      have hnone : newQueued ((startedItems state).map TranscriptItem.id ++ [item.id])
          state.snapshot.queuedSteer = [] :=
        newQueued_eq_nil.mpr fun queued hque =>
          mem_append_left _ (newQueued_eq_nil.mp hshown queued hque)
      rw [hnone, map_nil, append_nil, append_nil, putItem, if_neg hstar]
    | cons first rest =>
      have hid : first.id = item.id := hfirst first (by rw [hshown]; rfl)
      have hrest := newQueued_started hshown
      rw [hid] at hrest
      have hmem : item.id ∈ (startedItems state ++ (first :: rest).map TranscriptItem.user).map
          TranscriptItem.id := by
        rw [map_append, mem_append]
        exact .inr (by rw [map_cons, map_cons]; exact hid ▸ mem_cons_self)
      have hrep : replaceItem item (.user first) = item := if_pos hid
      have hoth : (rest.map TranscriptItem.user).map (replaceItem item) = rest.map TranscriptItem.user := by
        refine map_replaceItem fun hother => ?_
        rw [map_map] at hother
        obtain ⟨queued, hque, hsame⟩ := mem_map.mp hother
        have hsame : queued.id = item.id := hsame
        rw [← hrest] at hque
        refine id_not_mem_of_newQueued hque ?_
        rw [hsame]
        exact mem_append_right _ (mem_singleton_self _)
      rw [hrest, putItem, if_pos hmem, map_append, map_replaceItem hstar, map_cons,
        map_cons, hrep, hoth, append_assoc, singleton_append]

/-! ### The item of a delta -/

theorem find?_filterMap (hsound : Sound state) (id : JsStr)
    (hpres : ∀ other ∈ ids, ∃ item, state.progressItems.get? other = some item) :
    (ids.filterMap state.progressItems.get?).find? (fun item => item.id = id) =
      if id ∈ ids then state.progressItems.get? id else none := by
  induction ids with
  | nil => rfl
  | cons other ids ih =>
    obtain ⟨⟨item, hitem⟩, hpres⟩ := forall_mem_cons.mp hpres
    have hid := hsound.own other item hitem
    rw [filterMap_cons_some hitem]
    by_cases hsame : other = id
    · rw [find?_cons_of_pos (by simpa using hid.trans hsame), if_pos (hsame ▸ mem_cons_self),
        ← hsame, hitem]
    · rw [find?_cons_of_neg (by simpa using fun heq => hsame (hid.symm.trans heq)), ih hpres]
      simp only [mem_cons, Ne.symm hsame, false_or]

theorem Sound.find?_started (hsound : Sound state) (id : JsStr) :
    (startedItems state).find? (fun item => item.id = id) = progressTarget state id := by
  have hsnap : (state.snapshot.transcript.map (currentItem state)).find? (fun item => item.id = id) =
      (state.snapshot.transcript.find? fun item => item.id = id).map (currentItem state) := by
    rw [find?_map]
    refine congrArg _ (congrFun (congrArg List.find? (funext fun item => ?_)) _)
    rw [Function.comp_apply, hsound.id_currentItem]
  have hpres : ∀ other ∈ laterIds state, ∃ item, state.progressItems.get? other = some item :=
    fun other hother => hsound.mem_order.mp (mem_of_mem_filter hother)
  rw [startedItems, find?_append, hsnap, find?_filterMap hsound id hpres, progressTarget]
  cases hfound : state.snapshot.transcript.find? fun item => item.id = id with
  | some item =>
    have hid : item.id = id := of_decide_eq_true (find?_some hfound :)
    rw [Option.map_some, Option.some_or, currentItem, hid]
    cases state.progressItems.get? id with
    | none => rfl
    | some current => rfl
  | none =>
    have hnew : id ∉ snapshotIds state := by
      intro hmem
      obtain ⟨item, hitem, hid⟩ := mem_map.mp hmem
      exact absurd (decide_eq_true hid) (find?_eq_none.mp hfound item hitem)
    rw [Option.map_none, Option.none_or, Option.or_none]
    split_ifs with hlater
    · rfl
    · cases hget : state.progressItems.get? id with
      | none => rfl
      | some item =>
        exact absurd (mem_filter.mpr ⟨hsound.mem_order.mpr ⟨item, hget⟩, decide_eq_true hnew⟩) hlater

variable {rest : Json} {messageId : JsStr} {content : List AssistantContent}

theorem Sound.target_iff (hsound : Sound state) {id : JsStr}
    : progressTarget state messageId = some (.assistant id content rest) ↔
      (selectTranscript state).find? (fun item => item.id = messageId) = some (.assistant id content rest) := by
  rw [hsound.select_eq, find?_append, hsound.find?_started]
  cases progressTarget state messageId with
  | some item => rw [Option.some_or]
  | none =>
    rw [Option.none_or]
    refine iff_of_false nofun fun hfound => ?_
    obtain ⟨item, _, huser⟩ := mem_map.mp (mem_of_find?_eq_some hfound)
    exact nomatch huser

theorem id_of_target (hsound : Sound state) (htgt : progressTarget state messageId = some item) :
    item.id = messageId ∧ messageId ∈ (startedItems state).map TranscriptItem.id := by
  rw [← hsound.find?_started] at htgt
  have hid : item.id = messageId := of_decide_eq_true (find?_some htgt :)
  exact ⟨hid, hid ▸ mem_map_of_mem (mem_of_find?_eq_some htgt)⟩

/-! ### A participant who joins later -/

/-- The input of a part that is a tool call. -/
def toolInput (state : TranscriptState) (messageId : JsStr) (contentIndex : Nat) : Option Json :=
  match progressTarget state messageId with
  | some (.assistant _ content _) =>
    match content[contentIndex]? with
    | some (.toolCall _ _ input) => some input
    | _ => none
  | _ => none

/-- The tool calls whose text has gone on since the other participant joined. -/
def resumedAfter (state : TranscriptState) (resumed : List JsStr) : TranscriptProgress → List JsStr
  | .itemFinished item => resumed.filter fun key => !JsStr.startsWith key (item.id ++ js ":")
  | .assistantDelta messageId contentIndex .toolCall _ =>
    if (toolInput state messageId contentIndex).isSome then
      bufferKey messageId contentIndex :: resumed
    else resumed
  | _ => resumed

/-- An item does not overtake a queued one, and the text of a tool call that has begun before the other
participant joined is the input that is shown. -/
def Harmless (state : TranscriptState) (resumed : List JsStr) : TranscriptProgress → Prop
  | .itemStarted item | .itemUpdated item | .itemFinished item => InOrder state item.id
  | .assistantDelta messageId contentIndex .toolCall _ =>
    ∀ input, toolInput state messageId contentIndex = some input →
      bufferKey messageId contentIndex ∈ resumed ∨
        ∀ buffer, state.toolCallBuffers.get? (bufferKey messageId contentIndex) = some buffer →
          buffer = inputText input
  | _ => True

/-- What the two participants have in common. -/
structure Follows (resumed : List JsStr) (state restarted : TranscriptState) : Prop where
  sound : Sound state
  restartedSound : Sound restarted
  same : selectTranscript restarted = selectTranscript state
  queue : ∀ item ∈ restarted.snapshot.queuedSteer, item.id ∈ (startedItems restarted).map TranscriptItem.id
  kept : ∀ key ∈ resumed, restarted.toolCallBuffers.get? key = state.toolCallBuffers.get? key
  others : ∀ key, key ∉ resumed → restarted.toolCallBuffers.get? key = none

variable {restarted : TranscriptState} {resumed : List JsStr}

theorem mem_putItem {id : JsStr} (hid : id ∈ items.map TranscriptItem.id) :
    id ∈ (putItem items item).map TranscriptItem.id := by
  rw [putItem]
  split_ifs
  · rw [ids_map_replaceItem]
    exact hid
  · rw [map_append]
    exact mem_append_left _ hid

section

variable (hfol : Follows resumed state restarted)

include hfol

theorem Follows.set (horder : InOrder state item.id) :
    Follows resumed (setProgressItem state item) (setProgressItem restarted item) where
  sound := hfol.sound.set item
  restartedSound := hfol.restartedSound.set item
  same := by
    have hhid : InOrder restarted item.id := .inr fun first hfirst => by
      rw [shownQueue, newQueued_eq_nil.mpr hfol.queue] at hfirst
      exact nomatch hfirst
    rw [hfol.restartedSound.select_set hhid, hfol.sound.select_set horder, hfol.same]
  queue queued hque := by
    rw [hfol.restartedSound.started_set]
    exact mem_putItem (hfol.queue queued hque)
  kept := hfol.kept
  others := hfol.others

theorem Follows.buffers {left right : JsMap JsStr JsStr}
    {next : List JsStr} (hkept : ∀ key ∈ next, right.get? key = left.get? key)
    (hoth : ∀ key, key ∉ next → right.get? key = none) :
    Follows next { state with toolCallBuffers := left } { restarted with toolCallBuffers := right } :=
  ⟨hfol.sound.buffers left, hfol.restartedSound.buffers right, hfol.same, hfol.queue, hkept, hoth⟩

theorem Follows.target {id : JsStr} : progressTarget restarted messageId = some (.assistant id content rest) ↔
      progressTarget state messageId = some (.assistant id content rest) := by
  rw [hfol.sound.target_iff, hfol.restartedSound.target_iff, hfol.same]

theorem Follows.finish (id : JsStr) :
    Follows (resumed.filter fun key => !JsStr.startsWith key (id ++ js ":")) (dropBuffers state id)
      (dropBuffers restarted id) := by
  refine hfol.buffers (fun key hkey => ?_) fun key hkey => ?_
  · rw [get?_filter, get?_filter, hfol.kept key (mem_of_mem_filter hkey)]
  · rw [get?_filter]
    by_cases hres : key ∈ resumed
    · have hdrop : (!JsStr.startsWith key (id ++ js ":")) = false := by
        by_contra hstays
        exact hkey (mem_filter.mpr ⟨hres, Bool.eq_true_of_not_eq_false hstays⟩)
      rw [hdrop]
      cases restarted.toolCallBuffers.get? key with
      | none => rfl
      | some buffer => rfl
    · rw [hfol.others key hres]
      rfl

end

theorem toolInput_eq {id : JsStr}
    (htgt : progressTarget state messageId = some (.assistant id content rest)) (contentIndex : Nat) :
    toolInput state messageId contentIndex = match content[contentIndex]? with
      | some (.toolCall _ _ input) => some input
      | _ => none := by
  rw [toolInput.eq_def, htgt]

theorem resumedAfter_of_none {delta : JsStr} {contentIndex : Nat} {kind : DeltaKind}
    (hnone : toolInput state messageId contentIndex = none) :
    resumedAfter state resumed (.assistantDelta messageId contentIndex kind delta) = resumed := by
  cases kind with
  | text => rfl
  | thinking => rfl
  | toolCall =>
    rw [resumedAfter, hnone]
    rfl

theorem Follows.extend (hfol : Follows resumed state restarted) {key : JsStr} {input : Json}
    (hhar : key ∈ resumed ∨ ∀ buffer, state.toolCallBuffers.get? key = some buffer → buffer = inputText input)
    (delta : JsStr) : extendBuffer restarted key input delta = extendBuffer state key input delta := by
  rw [extendBuffer, extendBuffer]
  by_cases hres : key ∈ resumed
  · rw [hfol.kept key hres]
  · rw [hfol.others key hres]
    cases hbuf : state.toolCallBuffers.get? key with
    | none => rfl
    | some buffer => rw [hhar.resolve_left hres buffer hbuf, Option.getD_none, Option.getD_some]

section Runs

variable [NumberText]

theorem applyDelta_of_not {messageId delta : JsStr} {contentIndex : Nat} {kind : DeltaKind}
    (hnot : ∀ id content rest, progressTarget state messageId ≠ some (.assistant id content rest)) :
    applyDelta state messageId contentIndex kind delta = state := by
  unfold applyDelta
  split
  · next heq => exact absurd heq (hnot _ _ _)
  · rfl

theorem Follows.delta (hfol : Follows resumed state restarted) {messageId delta : JsStr}
    {contentIndex : Nat} {kind : DeltaKind}
    (hhar : Harmless state resumed (.assistantDelta messageId contentIndex kind delta)) :
    Follows (resumedAfter state resumed (.assistantDelta messageId contentIndex kind delta))
      (applyDelta state messageId contentIndex kind delta)
      (applyDelta restarted messageId contentIndex kind delta) := by
  by_cases hass : ∃ id content rest, progressTarget state messageId = some (.assistant id content rest)
  · obtain ⟨id, content, rest, htgt⟩ := hass
    have hrestar := hfol.target.mpr htgt
    obtain ⟨hid, hstar⟩ := id_of_target hfol.sound htgt
    obtain rfl : id = messageId := hid
    have horder : InOrder state id := .inl hstar
    have hinput := toolInput_eq htgt contentIndex
    rw [applyDelta.eq_def, applyDelta.eq_def, htgt, hrestar]
    dsimp only
    cases hpart : content[contentIndex]? with
    | none =>
      rw [hpart] at hinput
      rw [resumedAfter_of_none hinput]
      cases kind <;> exact hfol
    | some part =>
      rw [hpart] at hinput
      cases part with
      | text text =>
        rw [resumedAfter_of_none hinput]
        cases kind with
        | text => exact hfol.set horder
        | thinking => exact hfol
        | toolCall => exact hfol
      | thinking thinking redacted =>
        rw [resumedAfter_of_none hinput]
        cases kind with
        | text => exact hfol
        | thinking => exact hfol.set horder
        | toolCall => exact hfol
      | toolCall toolCallId toolName input =>
        cases kind with
        | text => exact hfol
        | thinking => exact hfol
        | toolCall =>
          have hsome : (toolInput state id contentIndex).isSome = true := by rw [hinput]; rfl
          have hnext : resumedAfter state resumed (.assistantDelta id contentIndex .toolCall delta) =
              bufferKey id contentIndex :: resumed := if_pos hsome
          rw [hnext]
          dsimp only
          rw [hfol.extend (hhar input hinput)]
          refine (hfol.buffers (fun key hkey => ?_) fun key hkey => ?_).set horder
          · rw [get?_set, get?_set]
            split_ifs with hsame
            · rfl
            · exact hfol.kept key ((mem_cons.mp hkey).resolve_left hsame)
          · rw [get?_set, if_neg (ne_of_not_mem_cons hkey)]
            exact hfol.others key (not_mem_of_not_mem_cons hkey)
  · push Not at hass
    have hrestar : ∀ id content rest,
        progressTarget restarted messageId ≠ some (.assistant id content rest) :=
      fun id content rest hfound => hass id content rest (hfol.target.mp hfound)
    have hnone : toolInput state messageId contentIndex = none := by
      unfold toolInput
      split
      · next heq => exact absurd heq (hass _ _ _)
      · rfl
    rw [applyDelta_of_not hass, applyDelta_of_not hrestar, resumedAfter_of_none hnone]
    exact hfol

theorem Follows.step (hfol : Follows resumed state restarted) {progress : TranscriptProgress}
    (hhar : Harmless state resumed progress) :
    Follows (resumedAfter state resumed progress) (applyTranscriptProgress state progress)
      (applyTranscriptProgress restarted progress) := by
  cases progress with
  | itemStarted item => exact hfol.set hhar
  | itemUpdated item => exact hfol.set hhar
  | itemFinished item => exact (hfol.finish item.id).set hhar
  | assistantDelta messageId contentIndex kind delta => exact hfol.delta hhar

/-! ### Runs -/

inductive TranscriptEvent where
  | snapshot (snapshot : SessionSnapshot)
  | progress (progress : TranscriptProgress)

def applyEvent (state : TranscriptState) : TranscriptEvent → TranscriptState
  | .snapshot snapshot => applyTranscriptSnapshot state snapshot
  | .progress progress => applyTranscriptProgress state progress

/-- The states a participant can come to. -/
def Reachable (state : TranscriptState) : Prop :=
  ∃ snapshot, ∃ events : List TranscriptEvent,
    state = events.foldl applyEvent (createTranscriptState snapshot)

def HarmlessRun : TranscriptState → List JsStr → List TranscriptProgress → Prop
  | _, _, [] => True
  | state, resumed, first :: rest =>
    Harmless state resumed first ∧
      HarmlessRun (applyTranscriptProgress state first) (resumedAfter state resumed first) rest

theorem Sound.progress (hsound : Sound state) (progress : TranscriptProgress) :
    Sound (applyTranscriptProgress state progress) := by
  cases progress with
  | itemStarted item => exact hsound.set item
  | itemUpdated item => exact hsound.set item
  | itemFinished item => exact (hsound.buffers _).set item
  | assistantDelta messageId contentIndex kind delta =>
    show Sound (applyDelta state messageId contentIndex kind delta)
    unfold applyDelta
    split
    · split
      · exact hsound.set _
      · exact hsound.set _
      · exact (hsound.buffers _).set _
      · exact hsound
    · exact hsound

theorem sound_of_reachable (hreac : Reachable state) : Sound state := by
  obtain ⟨snapshot, events, rfl⟩ := hreac
  induction events using List.reverseRecOn with
  | nil => exact sound_create snapshot
  | append_singleton events event ih =>
    rw [foldl_append, foldl_cons, foldl_nil]
    cases event with
    | progress progress => exact ih.progress progress
    | snapshot snapshot =>
      show Sound (applyTranscriptSnapshot _ snapshot)
      rw [applyTranscriptSnapshot]
      split_ifs
      · exact ih
      · exact sound_create snapshot

/-- A snapshot with the shown transcript of a state. -/
structure Materializes (snapshot : SessionSnapshot) (state : TranscriptState) : Prop where
  transcript : snapshot.transcript = selectTranscript state
  queuedSteer : snapshot.queuedSteer = state.snapshot.queuedSteer

omit [NumberText] in
theorem follows_start {snapshot : SessionSnapshot} (hsound : Sound state)
    (hsnap : Materializes snapshot state) : Follows [] state (createTranscriptState snapshot) := by
  have hstar : startedItems (createTranscriptState snapshot) = selectTranscript state := by
    rw [← hsnap.transcript]
    show snapshot.transcript.map _ ++ [] = _
    rw [append_nil]
    exact map_id _
  have hqueue : ∀ item ∈ snapshot.queuedSteer,
      item.id ∈ (startedItems (createTranscriptState snapshot)).map TranscriptItem.id := by
    intro item hitem
    rw [hsnap.queuedSteer] at hitem
    rw [hstar, hsound.select_eq, map_append, map_map]
    exact mem_ids_newQueued hitem
  refine ⟨hsound, sound_create snapshot, ?_, hqueue, nofun, fun _ _ => rfl⟩
  rw [(sound_create snapshot).select_eq, hstar]
  have hnone : shownQueue (createTranscriptState snapshot) = [] := newQueued_eq_nil.mpr hqueue
  rw [hnone, map_nil, append_nil]

theorem Follows.run (hfol : Follows resumed state restarted) {progress : List TranscriptProgress}
    (hhar : HarmlessRun state resumed progress) :
    ∃ after, Follows after (applyAll state progress) (applyAll restarted progress) := by
  induction progress generalizing state restarted resumed with
  | nil => exact ⟨resumed, hfol⟩
  | cons first rest ih =>
    obtain ⟨hfirst, hrest⟩ := hhar
    exact ih (hfol.step hfirst) hrest

/-- A participant who starts from the materialized transcript of a state and one who goes on from the
state see the same through every harmless run of progress. -/
theorem restart_faithful (hreac : Reachable state) {snapshot : SessionSnapshot}
    (hsnap : Materializes snapshot state) {progress : List TranscriptProgress}
    (hhar : HarmlessRun state [] progress) : selectTranscript (applyAll (createTranscriptState snapshot) progress) =
      selectTranscript (applyAll state progress) := by
  obtain ⟨after, hfol⟩ := (follows_start (sound_of_reachable hreac) hsnap).run hhar
  exact hfol.same

end Runs

section Sample

local instance transcriptNumbers : NumberText := decimalNumbers

/-- `materialize` of the executor bridge for a state of its own. -/
def materialize (state : TranscriptState) (revision : Nat) : SessionSnapshot :=
  { state.snapshot with revision, transcript := selectTranscript state }

theorem materializes (state : TranscriptState) (revision : Nat) :
    Materializes (materialize state revision) state := ⟨rfl, rfl⟩

def sampleToolCall (input : Json) : TranscriptItem :=
  .assistant (js "a") [.toolCall (js "c") (js "bash") input] .null

def sampleDelta (delta : String) : TranscriptProgress := .assistantDelta (js "a") 0 .toolCall (js delta)

def sampleSnapshot (queuedSteer : List UserTranscriptItem) : SessionSnapshot where
  id := js "s"
  revision := 0
  transcript := [sampleToolCall .null]
  queuedSteer
  rest := .null

def sampleQueue : List UserTranscriptItem := [⟨js "q", .null, 0⟩]

/-- A message waits in the queue. -/
def waiting : TranscriptState := createTranscriptState (sampleSnapshot sampleQueue)

/-- The arguments of a tool call are an object already. -/
def streaming : TranscriptState :=
  applyAll (createTranscriptState (sampleSnapshot [])) [sampleDelta "\x7b", sampleDelta "\x7d"]

/-- The text of the first tool call, while it is no JSON value. -/
def pendingText (state : TranscriptState) : Option JsStr :=
  match selectTranscript state with
  | .assistant _ (.toolCall _ _ (.string text) :: _) _ :: _ => some text
  | _ => none

/-- An item that starts comes after a queued one for a participant who has joined meanwhile, and a
tool call whose arguments are complete goes on from nothing. -/
theorem restart_diverges : (Reachable waiting ∧
      selectTranscript (applyAll (createTranscriptState (materialize waiting 1))
        [.itemStarted (.tool (js "t") .null)]) ≠
          selectTranscript (applyAll waiting [.itemStarted (.tool (js "t") .null)])) ∧ Reachable streaming ∧
      selectTranscript (applyAll (createTranscriptState (materialize streaming 1)) [sampleDelta " "]) ≠
        selectTranscript (applyAll streaming [sampleDelta " "]) := by
  have hstr : Reachable streaming :=
    ⟨sampleSnapshot [], [.progress (sampleDelta "\x7b"), .progress (sampleDelta "\x7d")], rfl⟩
  refine ⟨⟨⟨_, [], rfl⟩, fun hsame => ?_⟩, hstr, fun hsame => ?_⟩
  · have hids := congrArg (List.map TranscriptItem.id) hsame
    exact absurd hids (by decide +kernel)
  · have htexts : pendingText (applyAll (createTranscriptState (materialize streaming 1)) [sampleDelta " "]) =
        pendingText (applyAll streaming [sampleDelta " "]) := by
      rw [pendingText, pendingText, hsame]
    exact absurd htexts (by decide +kernel)

/-- A participant joins in the middle of the arguments and while a message is queued; then the message
starts, and the arguments go on. -/
def sampleProgress : List TranscriptProgress :=
  [.itemStarted (.user ⟨js "q", .null, 1⟩), sampleDelta "\x7d", sampleDelta " "]

/-- The one who goes on, after the arguments have begun and the queued message has started. -/
def started : TranscriptState :=
  applyTranscriptProgress (applyAll waiting [sampleDelta "\x7b"]) (.itemStarted (.user ⟨js "q", .null, 1⟩))

theorem restart_faithful_sample :
    selectTranscript (applyAll (createTranscriptState (materialize (applyAll waiting [sampleDelta "\x7b"]) 1))
        sampleProgress) = selectTranscript (applyAll (applyAll waiting [sampleDelta "\x7b"]) sampleProgress) := by
  have hreac : Reachable (applyAll waiting [sampleDelta "\x7b"]) :=
    ⟨sampleSnapshot sampleQueue, [.progress (sampleDelta "\x7b")], rfl⟩
  have hfirst : ∀ first ∈ (shownQueue (applyAll waiting [sampleDelta "\x7b"])).head?, first.id = js "q" := by
    decide +kernel
  have hbuf : started.toolCallBuffers.get? (bufferKey (js "a") 0) = some (js "\x7b") := by decide +kernel
  have htext : (toolInput started (js "a") 0).map inputText = some (js "\x7b") := by decide +kernel
  have hres : bufferKey (js "a") 0 ∈ resumedAfter started [] (sampleDelta "\x7d") := by decide +kernel
  refine restart_faithful hreac (materializes _ _) ⟨.inr hfirst, fun input hinput => .inr ?_,
    fun input _ => .inl hres, trivial⟩
  intro buffer hfound
  rw [show toolInput started (js "a") 0 = some input from hinput, Option.map_some] at htext
  rw [show started.toolCallBuffers.get? (bufferKey (js "a") 0) = some buffer from hfound] at hbuf
  exact (Option.some.inj hbuf).trans (Option.some.inj htext).symm

end Sample

end PiRp.Transcript

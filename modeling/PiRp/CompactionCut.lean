import PiRp.CompactionPartition
import PiRp.HarnessCompaction
import PiRp.IndexWalk

/-! Where `findCutPoint` cuts, in the coding agent and in the agent harness. The budget for recent tokens is
reached at some index from the end; the cut is the first valid cut point from there on, and the first of
the range when there is none. Entries without messages before the cut travel with it. -/

namespace PiRp

open List Bool IndexWalk JsonText

/-! ### The agent harness on a range -/

namespace HarnessCompaction.Range

open Compaction (AgentMessage CutPointResult indices estimateTokens)

def findValidCutPoints (entries : List EntryBody) (startIndex endIndex : Nat) : List Nat :=
  (indices startIndex endIndex).filter (testAt entries isCutPointEntry)

def findTurnStartIndex (entries : List EntryBody) (entryIndex startIndex : Nat) : Option Nat :=
  (indices startIndex (entryIndex + 1)).reverse.find? (testAt entries isTurnStartEntry)

/-- The entries nothing travels over. -/
def isBoundary : EntryBody → Bool
  | .message _ | .compaction _ => true
  | .branchSummary _ _ _ | .metadata => false

def travelBack (entries : List EntryBody) (startIndex cutIndex : Nat) : Nat :=
  retreat (testAt entries isBoundary) startIndex cutIndex

variable [NumberText]

def findCutPoint (entries : List EntryBody) (startIndex endIndex : Nat) (keepRecentTokens : JsNumber) :
    CutPointResult :=
  match findValidCutPoints entries startIndex endIndex with
  | [] => ⟨startIndex, none, false⟩
  | first :: others =>
    let cutIndex := travelBack entries startIndex
      (cutByTokens entries (first :: others) keepRecentTokens first (indices startIndex endIndex).reverse 0)
    let isUser := testAt entries isUserMessage cutIndex
    let turnStartIndex := if isUser then none else findTurnStartIndex entries cutIndex startIndex
    ⟨cutIndex, turnStartIndex, !isUser && turnStartIndex.isSome⟩

end HarnessCompaction.Range

namespace CompactionCut

open Compaction (AgentMessage SessionEntry CutPointResult indices)
open HarnessCompaction (EntryBody)

def isToolResult : AgentMessage → Bool
  | .toolResult _ _ _ _ => true
  | _ => false

/-! ### The cut by tokens -/

section Tokens

variable [NumberText]

/-- The size of the entry at an index, unless it has none. -/
def entrySize [DateText] (entries : List SessionEntry) (index : Nat) : Option Nat :=
  if Compaction.entryTokens entries index = 0 then none else some (Compaction.entryTokens entries index)

/-- The size of the message at an index. -/
def messageSize (entries : List EntryBody) (index : Nat) : Option Nat :=
  match entries[index]? with
  | some (.message message) => some (Compaction.estimateTokens message)
  | _ => none

theorem cutByTokens_eq [DateText] (entries : List SessionEntry) (cutPoints : List Nat)
    (keepRecentTokens : JsNumber) (default : Nat) (downwards : List Nat) (accumulatedTokens : Nat) :
    Compaction.cutByTokens entries cutPoints keepRecentTokens default downwards accumulatedTokens =
      ((walkBack (entrySize entries) keepRecentTokens.atMost downwards accumulatedTokens).bind
        fun index => cutPoints.find? fun cutPoint => index ≤ cutPoint).getD default := by
  induction downwards generalizing accumulatedTokens with
  | nil => rfl
  | cons index rest ih =>
    rw [Compaction.cutByTokens, walkBack, entrySize]
    split_ifs with hzero hreach
    · exact ih accumulatedTokens
    · dsimp only
      rw [if_pos hreach]
      rfl
    · dsimp only
      rw [if_neg hreach]
      exact ih _

theorem harness_cutByTokens_eq (entries : List EntryBody) (cutPoints : List Nat)
    (keepRecentTokens : JsNumber) (default : Nat) (downwards : List Nat) (accumulatedTokens : Nat) :
    HarnessCompaction.cutByTokens entries cutPoints keepRecentTokens default downwards accumulatedTokens =
      ((walkBack (messageSize entries) keepRecentTokens.atMost downwards accumulatedTokens).bind
        fun index => cutPoints.find? fun cutPoint => index ≤ cutPoint).getD default := by
  induction downwards generalizing accumulatedTokens with
  | nil => rfl
  | cons index rest ih =>
    rw [HarnessCompaction.cutByTokens, walkBack, messageSize]
    cases entries[index]? with
    | none => exact ih _
    | some body =>
      cases body with
      | message message =>
        dsimp only
        split_ifs with hreach
        · rfl
        · exact ih _
      | _ => exact ih _

end Tokens

theorem ascending_indices (start stop : Nat) (test : Nat → Bool) :
    ((indices start stop).filter test).Pairwise (· < ·) :=
  List.Pairwise.filter _ pairwise_lt_range'

variable {index : Nat}

theorem range_count {start stop : Nat} (hlower : start ≤ index) (hupper : index < stop) :
    start + (stop - start) = stop := by omega

theorem cut_of_reaches {size : Nat → Option Nat} {reached : Nat → Bool} {start stop first : Nat}
    {others : List Nat} (hreac : Reaches size reached start stop index) :
    ((walkBack size reached (indices start stop).reverse 0).bind
        fun index => (first :: others).find? fun cutPoint => index ≤ cutPoint).getD first =
      ((first :: others).find? fun cutPoint => index ≤ cutPoint).getD first := by
  have hcount := range_count hreac.lower hreac.upper
  have hwalk : walkBack size reached (indices start stop).reverse 0 = some index := by
    rw [indices, walkBack_range, hcount]
    exact hreac
  rw [hwalk]
  rfl

/-! ### What the kept part begins with -/

theorem head?_messages {α β : Type} {messagesOf : α → List β} {isBad : β → Bool} {entries : List α}
    {cut : Nat} (hle : index ≤ cut)
    (hallow : ∀ other, index ≤ other → other ≤ cut → ∀ entry, entries[other]? = some entry →
      ∀ message ∈ messagesOf entry, isBad message = false)
    (hcut : ∃ entry, entries[cut]? = some entry ∧ messagesOf entry ≠ []) :
    ∀ message ∈ ((entries.drop index).flatMap messagesOf).head?, isBad message = false := by
  obtain ⟨last, hlast, hmsgs⟩ := hcut
  obtain ⟨hlen, -⟩ := List.getElem?_eq_some_iff.mp hlast
  induction hdistance : cut - index generalizing index with
  | zero =>
    obtain rfl : index = cut := by omega
    rw [drop_eq_getElem_cons hlen, flatMap_cons]
    have hentry : entries[index]? = some entries[index] := getElem?_eq_getElem hlen
    obtain rfl : entries[index] = last := Option.some.inj (hentry.symm.trans hlast)
    intro message hmsg
    rw [head?_append_of_ne_nil _ hmsgs] at hmsg
    exact hallow index hle hle _ hentry message (mem_of_mem_head? hmsg)
  | succ distance ih =>
    have hindex : index < entries.length := by omega
    have hentry : entries[index]? = some entries[index] := getElem?_eq_getElem hindex
    rw [drop_eq_getElem_cons hindex, flatMap_cons]
    intro message hmsg
    by_cases hnone : messagesOf entries[index] = []
    · rw [hnone, nil_append] at hmsg
      refine @ih (index + 1) (by omega) (fun other hother => hallow other (by omega)) (by omega) message ?_
      exact hmsg
    · rw [head?_append_of_ne_nil _ hnone] at hmsg
      exact hallow index (Nat.le_refl _) hle _ hentry message (mem_of_mem_head? hmsg)

section Kept

variable [DateText]

/-- The entries nothing travels over: those with messages and compactions. -/
def isBoundary (entry : SessionEntry) : Bool :=
  entry.isCompaction || !(Compaction.sessionEntryToContextMessages entry).isEmpty

theorem travelBack_eq (entries : List SessionEntry) (startIndex cutIndex : Nat) :
    Compaction.travelBack entries startIndex cutIndex =
      retreat (Compaction.testAt entries isBoundary) startIndex cutIndex := by
  induction cutIndex with
  | zero => rfl
  | succ cutIndex ih =>
    rw [Compaction.travelBack, retreat, ih]
    rfl

omit [DateText] in
theorem testAt_eq_true {entries : List SessionEntry} {test : SessionEntry → Bool} {index : Nat} :
    Compaction.testAt entries test index = true ↔ ∃ entry, entries[index]? = some entry ∧ test entry = true := by
  rw [Compaction.testAt, Option.any_eq_true]

/-- **The kept part never starts with a tool result** when it is cut at a cut point. -/
theorem kept_not_toolResult {entries : List SessionEntry} {startIndex cutIndex : Nat}
    (hcut : Compaction.testAt entries Compaction.isCutPointEntry cutIndex = true) :
    ∀ message ∈ (Compaction.contextMessages (entries.drop (Compaction.travelBack entries startIndex cutIndex))).head?,
        isToolResult message = false := by
  obtain ⟨entry, hentry, hpoint⟩ := testAt_eq_true.mp hcut
  rw [Compaction.isCutPointEntry, and_eq_true, any_eq_true] at hpoint
  obtain ⟨-, message, hmsg, hkind⟩ := hpoint
  rw [travelBack_eq]
  refine head?_messages retreat_le (fun other hfrom hupTo found hfound sent hsent => ?_)
    ⟨entry, hentry, ne_nil_of_mem hmsg⟩
  rcases Nat.lt_or_eq_of_le hupTo with hlt | rfl
  · -- An entry that was travelled over has no message.
    have hpas := stops_of_retreat_le hfrom hlt
    rw [Compaction.testAt, hfound, Option.any_some, isBoundary, or_eq_false_iff, not_eq_false',
      List.isEmpty_iff] at hpas
    rw [hpas.2] at hsent
    exact absurd hsent not_mem_nil
  · obtain rfl : entry = found := Option.some.inj (hentry.symm.trans hfound)
    have hlen := Compaction.sessionEntryToContextMessages_length entry
    obtain ⟨only, honly⟩ := length_eq_one_iff.mp
      (Nat.le_antisymm hlen (length_pos_of_mem hmsg))
    rw [honly, mem_singleton] at hmsg hsent
    rw [hsent, ← hmsg]
    cases message <;> first | rfl | cases hkind

end Kept

theorem harness_testAt_eq_true {entries : List EntryBody} {test : EntryBody → Bool} :
    HarnessCompaction.testAt entries test index = true ↔
      ∃ entry, entries[index]? = some entry ∧ test entry = true := by
  rw [HarnessCompaction.testAt, Option.any_eq_true]

/-- The messages the harness keeps from an index on. -/
def keptMessages (entries : List EntryBody) (index : Nat) : List AgentMessage :=
  (entries.drop index).flatMap fun entry =>
    (HarnessCompaction.getMessageFromEntryForCompaction entry).toList

theorem harness_kept_not_toolResult {entries : List EntryBody} {startIndex cutIndex : Nat}
    (hcut : HarnessCompaction.testAt entries HarnessCompaction.isCutPointEntry cutIndex = true) :
    ∀ message ∈ (keptMessages entries (HarnessCompaction.Range.travelBack entries startIndex cutIndex)).head?,
        isToolResult message = false := by
  obtain ⟨entry, hentry, hpoint⟩ := harness_testAt_eq_true.mp hcut
  have hsome : (HarnessCompaction.getMessageFromEntryForCompaction entry).toList ≠ [] := by
    cases entry <;> first | exact cons_ne_nil _ _ | exact nomatch hpoint
  refine head?_messages retreat_le (fun other hfrom hupTo found hfound sent hsent => ?_)
    ⟨entry, hentry, hsome⟩
  rcases Nat.lt_or_eq_of_le hupTo with hlt | rfl
  · -- A branch summary may be travelled over, a message is not.
    have hpas := stops_of_retreat_le hfrom hlt
    rw [HarnessCompaction.testAt, hfound, Option.any_some] at hpas
    cases found with
    | message | compaction => exact nomatch hpas
    | branchSummary =>
      obtain rfl := mem_singleton.mp hsent
      rfl
    | metadata => exact absurd hsent not_mem_nil
  · obtain rfl : entry = found := Option.some.inj (hentry.symm.trans hfound)
    cases entry with
    | message message =>
      obtain rfl := mem_singleton.mp hsent
      cases sent <;> first | rfl | exact nomatch hpoint
    | branchSummary =>
      obtain rfl := mem_singleton.mp hsent
      rfl
    | compaction | metadata => exact nomatch hpoint

/-! ### The cut by tokens is the nearest one -/

section Nearest

variable [NumberText]

/-- The index `findCutPoint` cuts at in token mode, before metadata travels with it. -/
def tokenCut [DateText] (entries : List SessionEntry) (startIndex endIndex : Nat) (keepRecentTokens : JsNumber)
    (first : Nat) (others : List Nat) : Nat :=
  Compaction.cutByTokens entries (first :: others) keepRecentTokens first (indices startIndex endIndex).reverse 0

def harnessTokenCut (entries : List EntryBody) (startIndex endIndex : Nat) (keepRecentTokens : JsNumber)
    (first : Nat) (others : List Nat) : Nat :=
  HarnessCompaction.cutByTokens entries (first :: others) keepRecentTokens first
    (indices startIndex endIndex).reverse 0

/-- **When the cut by tokens is the nearest one.** Once the budget is reached at an index, the cut is the
first valid cut point from there on, or the last one before it when there is none, exactly when one
follows or the range has no other. What is kept never starts with a tool result. -/
theorem token_cut_nearest_iff [DateText] :
    (∀ (entries : List SessionEntry) (startIndex endIndex : Nat) (keepRecentTokens : JsNumber) (index first : Nat)
      (others : List Nat), Compaction.findValidCutPoints entries startIndex endIndex = first :: others →
      Reaches (entrySize entries) keepRecentTokens.atMost startIndex endIndex index →
      ∃ result, Compaction.findCutPoint entries startIndex endIndex keepRecentTokens none = .ok result ∧
        result.firstKeptEntryIndex = Compaction.travelBack entries startIndex
          (tokenCut entries startIndex endIndex keepRecentTokens first others) ∧
        (IndexWalk.Nearest (first :: others) index
            (tokenCut entries startIndex endIndex keepRecentTokens first others) ↔
          (∃ cutPoint ∈ first :: others, index ≤ cutPoint) ∨ others = []) ∧
        ∀ message ∈ (Compaction.contextMessages (entries.drop result.firstKeptEntryIndex)).head?,
          isToolResult message = false) ∧
    ∀ (entries : List EntryBody) (startIndex endIndex : Nat) (keepRecentTokens : JsNumber) (index first : Nat)
      (others : List Nat), HarnessCompaction.Range.findValidCutPoints entries startIndex endIndex = first :: others →
      Reaches (messageSize entries) keepRecentTokens.atMost startIndex endIndex index →
      let result := HarnessCompaction.Range.findCutPoint entries startIndex endIndex keepRecentTokens
      result.firstKeptEntryIndex = HarnessCompaction.Range.travelBack entries startIndex
          (harnessTokenCut entries startIndex endIndex keepRecentTokens first others) ∧
        (IndexWalk.Nearest (first :: others) index
            (harnessTokenCut entries startIndex endIndex keepRecentTokens first others) ↔
          (∃ cutPoint ∈ first :: others, index ≤ cutPoint) ∨ others = []) ∧
        ∀ message ∈ (keptMessages entries result.firstKeptEntryIndex).head?,
          isToolResult message = false := by
  have hcut : ∀ {first index : Nat} {others : List Nat},
      ((first :: others).find? fun cutPoint => index ≤ cutPoint).getD first ∈ first :: others := by
    intro first index others
    cases hfound : (first :: others).find? fun cutPoint => index ≤ cutPoint with
    | none => exact mem_cons_self
    | some cutPoint => exact mem_of_find?_eq_some hfound
  constructor
  · intro entries startIndex endIndex keepRecentTokens index first others hpoin hreac
    have hasc := ascending_indices startIndex endIndex (Compaction.testAt entries Compaction.isCutPointEntry)
    have htoken : tokenCut entries startIndex endIndex keepRecentTokens first others =
        ((first :: others).find? fun cutPoint => index ≤ cutPoint).getD first := by
      rw [tokenCut, cutByTokens_eq, cut_of_reaches hreac]
    have hvalid : ∀ cutPoint ∈ first :: others,
        Compaction.testAt entries Compaction.isCutPointEntry cutPoint = true := by
      rw [← hpoin]
      exact fun cutPoint hpoint => of_mem_filter hpoint
    rw [Compaction.findCutPoint, hpoin]
    refine ⟨_, rfl, rfl, ?_, kept_not_toolResult (hvalid _ ?_)⟩
    · rw [htoken]
      exact nearest_find?_iff (hpoin ▸ hasc) index
    · have hmem := @hcut first index others
      rw [← htoken] at hmem
      exact hmem
  · intro entries startIndex endIndex keepRecentTokens index first others hpoin hreac
    have hasc := ascending_indices startIndex endIndex
      (HarnessCompaction.testAt entries HarnessCompaction.isCutPointEntry)
    have htoken : harnessTokenCut entries startIndex endIndex keepRecentTokens first others =
        ((first :: others).find? fun cutPoint => index ≤ cutPoint).getD first := by
      rw [harnessTokenCut, harness_cutByTokens_eq, cut_of_reaches hreac]
    have hvalid : ∀ cutPoint ∈ first :: others,
        HarnessCompaction.testAt entries HarnessCompaction.isCutPointEntry cutPoint = true := by
      rw [← hpoin]
      exact fun cutPoint hpoint => of_mem_filter hpoint
    rw [HarnessCompaction.Range.findCutPoint, hpoin]
    refine ⟨rfl, ?_, harness_kept_not_toolResult (hvalid _ ?_)⟩
    · rw [htoken]
      exact nearest_find?_iff (hpoin ▸ hasc) index
    · have hmem := @hcut first index others
      rw [← htoken] at hmem
      exact hmem

end Nearest

/-! ### Split turns -/

section Turns

variable (isVisible isTurnStart : Nat → Bool) (start : Nat)

/-- The first visible entry at or after an index. -/
def FirstVisible (index first : Nat) : Prop :=
  index ≤ first ∧ isVisible first = true ∧ ∀ other, index ≤ other → other < first → isVisible other = false

/-- The last turn start of the range before an index. -/
def LastTurnStart (index found : Nat) : Prop :=
  start ≤ found ∧ found < index ∧ isTurnStart found = true ∧
    ∀ later, found < later → later < index → isTurnStart later = false

/-- A split turn is one that a turn start precedes and whose first kept visible entry starts no turn. -/
def ClassifiesVisible (result : CutPointResult) : Prop :=
  (result.isSplitTurn = true ↔ ∃ first, FirstVisible isVisible result.firstKeptEntryIndex first ∧
    isTurnStart first = false ∧ ∃ found, start ≤ found ∧ found < first ∧ isTurnStart found = true) ∧
  ∀ first, result.isSplitTurn = true → FirstVisible isVisible result.firstKeptEntryIndex first →
    ∃ found, result.turnStartIndex = some found ∧ LastTurnStart isTurnStart start first found

/-- As before, and metadata that travelled with the cut splits a turn as well. -/
def ClassifiesBoundary (result : CutPointResult) : Prop :=
  (result.isSplitTurn = true ↔ ∃ first, FirstVisible isVisible result.firstKeptEntryIndex first ∧
    (isTurnStart first = false ∨ result.firstKeptEntryIndex < first) ∧
      ∃ found, start ≤ found ∧ found < first ∧ isTurnStart found = true) ∧
  ∀ first, result.isSplitTurn = true → FirstVisible isVisible result.firstKeptEntryIndex first →
    ∃ found, result.turnStartIndex = some found ∧ LastTurnStart isTurnStart start first found

variable {isVisible isTurnStart start}

theorem exists_firstVisible {index : Nat} (hvis : ∃ other, index ≤ other ∧ isVisible other = true) :
    ∃ first, FirstVisible isVisible index first := by
  refine ⟨Nat.find hvis, (Nat.find_spec hvis).1, (Nat.find_spec hvis).2, fun other hle hlt => ?_⟩
  exact eq_false_iff.mpr fun htrue => Nat.find_min hvis hlt ⟨hle, htrue⟩

/-- **What `findCutPoint` reports about the entry it cuts at.** -/
theorem classifiesBoundary {startsTurn : Bool} {index : Nat} (hstart : start ≤ index)
    (hvis : ∀ other, isTurnStart other = true → isVisible other = true) (hstar : startsTurn = isTurnStart index)
    (hexis : index = start ∨ ∃ other, index ≤ other ∧ isVisible other = true) :
    let turnStartIndex := if startsTurn then none
      else (indices start (index + 1)).reverse.find? isTurnStart
    ClassifiesBoundary isVisible isTurnStart start
      ⟨index, turnStartIndex, !startsTurn && turnStartIndex.isSome⟩ := by
  subst hstar
  have hcount : start + (index + 1 - start) = index + 1 := by omega
  -- Between the cut and the first visible entry no turn starts.
  have hbet : ∀ {first other : Nat}, FirstVisible isVisible index first → index ≤ other → other < first →
      isTurnStart other = false := fun hfirst hle hlt =>
    eq_false_iff.mpr fun htrue =>
      Bool.false_ne_true ((hfirst.2.2 _ hle hlt).symm.trans (hvis _ htrue))
  cases hturn : isTurnStart index with
  | true =>
    refine ⟨⟨nofun, ?_⟩, nofun⟩
    rintro ⟨first, hfirst, hboun, -⟩
    have hsame : index = first := by
      rcases Nat.lt_or_eq_of_le hfirst.1 with hlt | heq
      · rw [hbet hfirst (Nat.le_refl _) hlt] at hturn
        exact absurd hturn Bool.false_ne_true
      · exact heq
    subst hsame
    rcases hboun with hfalse | hlt
    · rw [hturn] at hfalse
      exact absurd hfalse (Bool.noConfusion ·)
    · exact absurd hlt (Nat.lt_irrefl _)
  | false =>
    dsimp only
    rw [if_neg Bool.false_ne_true]
    constructor
    · rw [Bool.not_false, Bool.true_and, Option.isSome_iff_exists]
      constructor
      · rintro ⟨found, hfound⟩
        rw [indices, find?_range_reverse, hcount] at hfound
        obtain ⟨hlower, hupper, htest, -⟩ := hfound
        have hne : found ≠ index := by
          rintro rfl
          rw [hturn] at htest
          exact Bool.false_ne_true htest
        have hafter : ∃ other, index ≤ other ∧ isVisible other = true := by
          rcases hexis with rfl | hexis
          · omega
          · exact hexis
        obtain ⟨first, hfirst⟩ := exists_firstVisible hafter
        have hle := hfirst.1
        refine ⟨first, hfirst, ?_, found, hlower, by omega, htest⟩
        rcases Nat.lt_or_eq_of_le hle with hlt | rfl
        · exact .inr hlt
        · exact .inl hturn
      · rintro ⟨first, hfirst, -, found, hlower, hupper, htest⟩
        replace hfirst : FirstVisible isVisible index first := hfirst
        have hbef : found < index := by
          by_contra hnot
          rw [hbet hfirst (by omega) hupper] at htest
          exact Bool.false_ne_true htest
        by_contra hnone
        rw [not_exists] at hnone
        have hall := IndexWalk.find?_range_reverse_eq_none.mp (Option.eq_none_iff_forall_ne_some.mpr hnone)
        rw [hall found hlower (by omega)] at htest
        exact Bool.false_ne_true htest
    · intro first hsplit hfirst
      replace hfirst : FirstVisible isVisible index first := hfirst
      rw [Bool.not_false, Bool.true_and, Option.isSome_iff_exists] at hsplit
      obtain ⟨found, hfound⟩ := hsplit
      refine ⟨found, hfound, ?_⟩
      rw [indices, find?_range_reverse, hcount] at hfound
      obtain ⟨hlower, hupper, htest, hlater⟩ := hfound
      have hne : found ≠ index := by
        rintro rfl
        rw [hturn] at htest
        exact Bool.false_ne_true htest
      have hle := hfirst.1
      refine ⟨hlower, by omega, htest, fun later hafter hbef => ?_⟩
      rcases Nat.lt_or_ge later index with hlt | hge
      · exact hlater later hafter (by omega)
      · exact hbet hfirst hge hbef

end Turns

theorem classifiesBoundary_whole {isVisible isTurnStart : Nat → Bool}
    (hvis : ∀ other, isTurnStart other = true → isVisible other = true) (start : Nat) :
    ClassifiesBoundary isVisible isTurnStart start ⟨start, none, false⟩ := by
  refine ⟨⟨nofun, ?_⟩, nofun⟩
  rintro ⟨first, hfirst, -, found, hlower, hupper, htest⟩
  exact absurd ((hfirst.2.2 found hlower hupper).symm.trans (hvis found htest)) Bool.false_ne_true

section Versions

variable [NumberText]

section CodingAgent

variable [DateText]

def isVisible (entry : SessionEntry) : Bool := !(Compaction.sessionEntryToContextMessages entry).isEmpty

omit [NumberText] in
theorem isVisible_of_any {entry : SessionEntry} {test : AgentMessage → Bool}
    (hentry : (!entry.isCompaction && (Compaction.sessionEntryToContextMessages entry).any test) = true) :
    isVisible entry = true := by
  rw [and_eq_true, any_eq_true] at hentry
  obtain ⟨-, message, hmsg, -⟩ := hentry
  rw [isVisible, not_eq_true', isEmpty_eq_false_iff]
  exact ne_nil_of_mem hmsg

variable {entries : List SessionEntry}

omit [NumberText] in
theorem testAt_isVisible {test : SessionEntry → Bool}
    (htest : ∀ entry, test entry = true → isVisible entry = true) {index : Nat}
    (hindex : Compaction.testAt entries test index = true) : Compaction.testAt entries isVisible index = true := by
  obtain ⟨entry, hentry, htrue⟩ := testAt_eq_true.mp hindex
  exact testAt_eq_true.mpr ⟨entry, hentry, htest entry htrue⟩

omit [NumberText] in
theorem countTraces_mem {property : Nat → Prop}
    (hprop : ∀ index, Compaction.testAt entries Compaction.isTurnStartEntry index = true → property index)
    (keepTraces : Nat) (downwards : List Nat) {traces : Nat} {traceStart : Option Nat}
    (hstart : ∀ index ∈ traceStart, property index) :
    ∀ index ∈ (Compaction.countTraces entries keepTraces downwards traces traceStart).2, property index := by
  induction downwards generalizing traces traceStart with
  | nil => exact hstart
  | cons index rest ih =>
    have hindex : Compaction.testAt entries Compaction.isTurnStartEntry index = true →
        ∀ found ∈ some index, property found := by
      intro hturn found hfound
      exact Option.some.inj hfound ▸ hprop index hturn
    rw [Compaction.countTraces]
    split_ifs with hturn hdone
    · exact hindex hturn
    · exact ih (hindex hturn)
    · exact ih hstart

theorem chooseCutIndex_visible {cutPoints : List Nat} {first startIndex cutIndex : Nat}
    {downwards : List Nat} {keepRecentTokens : JsNumber} {keepTraces : Option JsNumber}
    (hpoin : ∀ cutPoint ∈ cutPoints, Compaction.testAt entries isVisible cutPoint = true)
    (hfirst : Compaction.testAt entries isVisible first = true)
    (hchoose : Compaction.chooseCutIndex entries cutPoints first startIndex downwards keepRecentTokens keepTraces =
      .ok cutIndex) : cutIndex = startIndex ∨ Compaction.testAt entries isVisible cutIndex = true := by
  unfold Compaction.chooseCutIndex at hchoose
  split at hchoose
  · cases hchoose
    right
    rw [cutByTokens_eq]
    cases hfound : (walkBack (entrySize entries) keepRecentTokens.atMost downwards 0).bind
        fun index => cutPoints.find? fun cutPoint => index ≤ cutPoint with
    | none => exact hfirst
    | some cutPoint =>
      obtain ⟨index, -, hpoint⟩ := Option.bind_eq_some_iff.mp hfound
      exact hpoin cutPoint (mem_of_find?_eq_some hpoint)
  · split at hchoose
    · exact nomatch hchoose
    · next keepTraces _ =>
      cases hchoose
      split_ifs
      · exact .inl rfl
      · cases htrace : (Compaction.countTraces entries keepTraces downwards 0 none).2 with
        | none => exact .inl rfl
        | some index =>
          have hnone : ∀ found ∈ (none : Option Nat), Compaction.testAt entries isVisible found = true := nofun
          have hindex : Compaction.testAt entries isVisible index = true :=
            countTraces_mem (fun index hturn => testAt_isVisible (fun entry => isVisible_of_any) hturn)
              keepTraces downwards hnone index htrace
          exact .inr hindex

end CodingAgent

/-- The entries of the harness with a message. -/
def hasMessage : EntryBody → Bool
  | .message _ | .branchSummary _ _ _ | .compaction _ => true
  | .metadata => false

omit [NumberText] in
theorem harness_hasMessage {entries : List EntryBody} {test : EntryBody → Bool}
    (htest : test .metadata = false) {index : Nat} (hindex : HarnessCompaction.testAt entries test index = true) :
    HarnessCompaction.testAt entries hasMessage index = true := by
  obtain ⟨entry, hentry, htrue⟩ := harness_testAt_eq_true.mp hindex
  refine harness_testAt_eq_true.mpr ⟨entry, hentry, ?_⟩
  cases entry with
  | metadata => exact absurd (htest.symm.trans htrue) Bool.false_ne_true
  | message | branchSummary | compaction => rfl

/-- **Which turns are reported as split.** A turn is split exactly when a turn start precedes the first kept
visible entry and that entry starts no turn, or metadata travelled before it. The turn start reported is
the last one before that entry. In the harness this leaves out a cut at a turn start that is no user
message. -/
theorem split_turn_boundary [DateText] :
    (∀ (entries : List SessionEntry) (startIndex endIndex : Nat) (keepRecentTokens : JsNumber)
      (keepTraces : Option JsNumber) (result : CutPointResult),
      Compaction.findCutPoint entries startIndex endIndex keepRecentTokens keepTraces = .ok result →
      ClassifiesBoundary (Compaction.testAt entries isVisible)
        (Compaction.testAt entries Compaction.isTurnStartEntry) startIndex result) ∧
    ∀ (entries : List EntryBody) (startIndex endIndex : Nat) (keepRecentTokens : JsNumber) (result : CutPointResult),
      HarnessCompaction.Range.findCutPoint entries startIndex endIndex keepRecentTokens = result →
      (∀ entry ∈ entries[result.firstKeptEntryIndex]?, HarnessCompaction.isTurnStartEntry entry = true →
        HarnessCompaction.isUserMessage entry = true) →
      ClassifiesBoundary (HarnessCompaction.testAt entries hasMessage)
        (HarnessCompaction.testAt entries HarnessCompaction.isTurnStartEntry) startIndex result := by
  constructor
  · intro entries startIndex endIndex keepRecentTokens keepTraces result hcut
    have hvis : ∀ index, Compaction.testAt entries Compaction.isTurnStartEntry index = true →
        Compaction.testAt entries isVisible index = true := fun index =>
      testAt_isVisible fun entry => isVisible_of_any
    rw [Compaction.findCutPoint] at hcut
    split at hcut
    · cases hcut
      exact classifiesBoundary_whole hvis startIndex
    · next first others hpoin =>
      have hvalid : ∀ cutPoint ∈ first :: others, startIndex ≤ cutPoint ∧
          Compaction.testAt entries isVisible cutPoint = true := by
        rw [← hpoin]
        intro cutPoint hpoint
        obtain ⟨hmem, htest⟩ := mem_filter.mp hpoint
        exact ⟨(Compaction.mem_indices.mp hmem).1, testAt_isVisible (fun entry => isVisible_of_any) htest⟩
      obtain ⟨cutIndex, hchoose, hres⟩ := bind_eq_ok.mp hcut
      cases hres
      have hstart : startIndex ≤ cutIndex :=
        Compaction.le_chooseCutIndex (fun cutPoint hpoint => (hvalid cutPoint hpoint).1)
          (hvalid first mem_cons_self).1
          (fun index hindex => (Compaction.mem_indices.mp (mem_reverse.mp hindex)).1) hchoose
      refine classifiesBoundary (Compaction.le_travelBack hstart) hvis rfl ?_
      rcases chooseCutIndex_visible (fun cutPoint hpoint => (hvalid cutPoint hpoint).2)
        (hvalid first mem_cons_self).2 hchoose with rfl | hcutVisible
      · left
        rw [travelBack_eq]
        exact Nat.le_antisymm retreat_le (le_retreat hstart)
      · right
        refine ⟨cutIndex, ?_, hcutVisible⟩
        rw [travelBack_eq]
        exact retreat_le
  · rintro entries startIndex endIndex keepRecentTokens result rfl hboun
    have hvis : ∀ index, HarnessCompaction.testAt entries HarnessCompaction.isTurnStartEntry index = true →
        HarnessCompaction.testAt entries hasMessage index = true := fun index => harness_hasMessage rfl
    rw [HarnessCompaction.Range.findCutPoint] at hboun ⊢
    split at hboun
    · exact classifiesBoundary_whole hvis startIndex
    · next first others hpoin =>
      have hvalid : ∀ cutPoint ∈ first :: others, startIndex ≤ cutPoint ∧
          HarnessCompaction.testAt entries hasMessage cutPoint = true := by
        rw [← hpoin]
        intro cutPoint hpoint
        obtain ⟨hmem, htest⟩ := mem_filter.mp hpoint
        exact ⟨(Compaction.mem_indices.mp hmem).1, harness_hasMessage rfl htest⟩
      obtain ⟨cutIndex, hcutIndex⟩ : ∃ cutIndex, cutIndex =
        HarnessCompaction.cutByTokens entries (first :: others) keepRecentTokens first
          (indices startIndex endIndex).reverse 0 := ⟨_, rfl⟩
      have hcut : cutIndex ∈ first :: others := by
        rw [hcutIndex, harness_cutByTokens_eq]
        cases hfound : (walkBack (messageSize entries) keepRecentTokens.atMost
            (indices startIndex endIndex).reverse 0).bind
              fun index => (first :: others).find? fun cutPoint => index ≤ cutPoint with
        | none => exact mem_cons_self
        | some cutPoint =>
          obtain ⟨index, -, hpoint⟩ := Option.bind_eq_some_iff.mp hfound
          exact mem_of_find?_eq_some hpoint
      rw [← hcutIndex] at hboun ⊢
      refine classifiesBoundary (le_retreat (hvalid cutIndex hcut).1) hvis ?_
        (.inr ⟨cutIndex, retreat_le, (hvalid cutIndex hcut).2⟩)
      rw [Bool.eq_iff_iff, harness_testAt_eq_true, harness_testAt_eq_true]
      refine exists_congr fun entry => and_congr_right fun hentry => ⟨fun huser => ?_, hboun entry hentry⟩
      cases entry with
      | message message => cases message <;> first | rfl | exact nomatch huser
      | branchSummary | compaction | metadata => exact nomatch huser

end Versions

section Sample

local instance : DateText := ⟨fun _ => .int 0⟩

local instance : NumberText := decimalNumbers

def sampleToolResult : AgentMessage := .toolResult (some (.text (js "output"))) (js "c") (js "read") (.int 0)

def sampleEntry (body : Compaction.EntryBody) : SessionEntry := ⟨js "e", none, js "t", body⟩

def sampleTurn : List SessionEntry :=
  [sampleEntry (.message (HarnessCompaction.sampleQuestion "one")),
    sampleEntry (.message (HarnessCompaction.sampleAnswer "six")),
    sampleEntry (.message (HarnessCompaction.sampleQuestion "two"))]

def sampleBodies : List EntryBody :=
  [.message (HarnessCompaction.sampleQuestion "one"), .message (HarnessCompaction.sampleAnswer "six"),
    .message (HarnessCompaction.sampleQuestion "two")]

theorem token_cut_nearest_sample : IndexWalk.Nearest [0, 1, 2] 1 (tokenCut sampleTurn 0 3 (.int 2) 0 [1, 2]) ∧
      IndexWalk.Nearest [0, 1, 2] 1 (harnessTokenCut sampleBodies 0 3 (.int 2) 0 [1, 2]) := by
  have hwalk : walkBack (entrySize sampleTurn) (JsNumber.atMost (.int 2)) (List.range' 0 3).reverse 0 =
      some 1 := by decide +kernel
  have hhar : walkBack (messageSize sampleBodies) (JsNumber.atMost (.int 2))
      (List.range' 0 3).reverse 0 = some 1 := by decide +kernel
  obtain ⟨_, -, -, hnear, -⟩ := token_cut_nearest_iff.1 sampleTurn 0 3 (.int 2) 1 0 [1, 2] (by decide +kernel)
    (IndexWalk.walkBack_range.mp hwalk)
  have hboth := token_cut_nearest_iff.2 sampleBodies 0 3 (.int 2) 1 0 [1, 2] (by decide +kernel)
    (IndexWalk.walkBack_range.mp hhar)
  exact ⟨hnear.mpr (.inl ⟨1, by decide, by decide⟩), hboth.2.1.mpr (.inl ⟨1, by decide, by decide⟩)⟩

/-- The last message of the turn alone exceeds the budget, and the whole turn is kept. -/
def sampleTrailing : List SessionEntry :=
  [sampleEntry (.message (HarnessCompaction.sampleQuestion "one")),
    sampleEntry (.message (HarnessCompaction.sampleAnswer "six")), sampleEntry (.message sampleToolResult)]

theorem token_cut_falls_back : ¬∀ (entries : List SessionEntry) (startIndex endIndex : Nat)
    (keepRecentTokens : JsNumber) (index first : Nat) (others : List Nat),
    Compaction.findValidCutPoints entries startIndex endIndex = first :: others →
    Reaches (entrySize entries) keepRecentTokens.atMost startIndex endIndex index →
    IndexWalk.Nearest (first :: others) index
      (tokenCut entries startIndex endIndex keepRecentTokens first others) := by
  intro hnear
  have hwalk : walkBack (entrySize sampleTrailing) (JsNumber.atMost (.int 1))
      (List.range' 0 3).reverse 0 = some 2 := by decide +kernel
  have hcut : tokenCut sampleTrailing 0 3 (.int 1) 0 [1] = 0 := by decide +kernel
  obtain ⟨-, ⟨hle, -⟩ | ⟨-, hlast⟩⟩ := hnear sampleTrailing 0 3 (.int 1) 2 0 [1] (by decide +kernel)
    (IndexWalk.walkBack_range.mp hwalk)
  · rw [hcut] at hle
    exact absurd hle (by decide)
  · have hone := hlast 1 (by decide)
    rw [hcut] at hone
    exact absurd hone (by decide)

theorem split_turn_boundary_sample : ClassifiesBoundary (Compaction.testAt sampleTurn isVisible)
        (Compaction.testAt sampleTurn Compaction.isTurnStartEntry) 0 ⟨1, some 0, true⟩ ∧
      ClassifiesBoundary (HarnessCompaction.testAt sampleBodies hasMessage)
        (HarnessCompaction.testAt sampleBodies HarnessCompaction.isTurnStartEntry) 0 ⟨1, some 0, true⟩ :=
  ⟨split_turn_boundary.1 sampleTurn 0 3 (.int 2) none ⟨1, some 0, true⟩ rfl,
    split_turn_boundary.2 sampleBodies 0 3 (.int 2) ⟨1, some 0, true⟩ rfl fun _ hentry hturn => by
      cases hentry
      exact nomatch hturn⟩

/-- A change of the thinking level stands before the last question. -/
def sampleMetadata : List SessionEntry :=
  [sampleEntry (.message (HarnessCompaction.sampleQuestion "one")),
    sampleEntry (.message (HarnessCompaction.sampleAnswer "six")),
    sampleEntry (.thinkingLevelChange (js "high")),
    sampleEntry (.message (HarnessCompaction.sampleQuestion "two"))]

/-- The kept part starts with a question, and the turn before it is reported as split. -/
theorem split_turn_misreported : ¬∀ (entries : List SessionEntry) (startIndex endIndex : Nat)
    (keepRecentTokens : JsNumber) (keepTraces : Option JsNumber) (result : CutPointResult),
    Compaction.findCutPoint entries startIndex endIndex keepRecentTokens keepTraces = .ok result →
    ClassifiesVisible (Compaction.testAt entries isVisible)
      (Compaction.testAt entries Compaction.isTurnStartEntry) startIndex result := by
  intro hclas
  obtain ⟨⟨hsplit, -⟩, -⟩ := hclas sampleMetadata 0 4 (.int 1) none ⟨2, some 0, true⟩ rfl
  obtain ⟨first, ⟨hle, hvis, hfirst⟩, hturn, -⟩ := hsplit rfl
  have hthree : Compaction.testAt sampleMetadata isVisible 3 = true := rfl
  have hle' : first ≤ 3 := Nat.le_of_not_lt fun hlt =>
    Bool.false_ne_true ((hfirst 3 (by decide) hlt).symm.trans hthree)
  replace hle : 2 ≤ first := hle
  obtain rfl | rfl : first = 2 ∨ first = 3 := by omega
  · exact nomatch hvis
  · exact nomatch hturn

end Sample

end CompactionCut

end PiRp

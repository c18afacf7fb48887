import Mathlib.Data.Prod.Lex
import Mathlib.Tactic.Linarith
import PiRp.Recall

/-! When the ranking depends on the order of the candidates. The comparison of two items decides down to the uri, so
the order of the pool shows nowhere; but the two views are ranked with ties in the order of the vector hits. The
ranking is free of that order when no tie can change a share that is not divided out again. -/

namespace PiRp.Recall

open List OrderDual JsMap

/-! ### The final comparison -/

section Items

variable (byId : JsMap JsStr MemoryNode)

/-- What the comparison compares, in its order. -/
def itemKey (item : RecalledItem) : ℚᵒᵈ ×ₗ ℚᵒᵈ ×ₗ ℚᵒᵈ ×ₗ WithTop ℚ ×ₗ ℚᵒᵈ ×ₗ (List ℕ)ᵒᵈ ×ₗ List ℕ :=
  toLex (toDual item.score, toLex (toDual item.kw, toLex (toDual item.vec,
    toLex (bm25OrInfinity item, toLex (toDual (importanceOf byId item),
      toLex (toDual (units (updatedOf byId item)), units item.uri))))))

theorem ite_lt_iff_toLex_le {α β : Type*} [LinearOrder α] [LE β] {left right : α} {next next' : β} {rest : Bool}
    [Decidable (left = right)] [Decidable (left < right)] (hrest : rest = true ↔ next ≤ next') :
    (if left ≠ right then decide (left < right) else rest) = true ↔ toLex (left, next) ≤ toLex (right, next') := by
  rw [Prod.Lex.toLex_le_toLex, ← hrest]
  by_cases heq : left = right
  · simp [heq]
  · simp [heq]

theorem ite_gt_iff_toLex_le {α β : Type*} [LinearOrder α] [LE β] {left right : α} {next next' : β} {rest : Bool}
    [Decidable (right = left)] [Decidable (right < left)] (hrest : rest = true ↔ next ≤ next') :
    (if right ≠ left then decide (right < left) else rest) = true ↔
      toLex (toDual left, next) ≤ toLex (toDual right, next') := by
  rw [Prod.Lex.toLex_le_toLex, ← hrest]
  by_cases heq : left = right
  · simp [heq]
  · simp [heq, Ne.symm heq]

theorem precedes_iff {left right : RecalledItem} :
    precedes byId left right = true ↔ itemKey byId left ≤ itemKey byId right := by
  rw [precedes, itemKey, itemKey]
  refine ite_gt_iff_toLex_le (ite_gt_iff_toLex_le (ite_gt_iff_toLex_le (ite_lt_iff_toLex_le
    (ite_gt_iff_toLex_le (ite_gt_iff_toLex_le ?_)))))
  exact decide_eq_true_iff

theorem units_injective : Function.Injective units :=
  map_injective_iff.mpr fun _ _ heq => UInt16.toNat_inj.mp heq

theorem eq_uri_of_precedes {left right : RecalledItem} (hleft : precedes byId left right = true)
    (hright : precedes byId right left = true) : left.uri = right.uri := by
  have hkey := le_antisymm ((precedes_iff byId).mp hleft) ((precedes_iff byId).mp hright)
  refine units_injective ?_
  simp only [itemKey, EmbeddingLike.apply_eq_iff_eq, Prod.mk.injEq] at hkey
  exact hkey.2.2.2.2.2.2

theorem insertionSort_precedes_perm {items others : List RecalledItem} (hperm : items.Perm others)
    (huris : (items.map RecalledItem.uri).Nodup) :
    items.insertionSort (fun left right => precedes byId left right = true) =
      others.insertionSort fun left right => precedes byId left right = true := by
  have : Std.Total fun left right => precedes byId left right = true :=
    ⟨fun left right => by
      rw [precedes_iff, precedes_iff]
      exact le_total _ _⟩
  have : IsTrans RecalledItem fun left right => precedes byId left right = true :=
    ⟨fun left middle right => by
      rw [precedes_iff, precedes_iff, precedes_iff]
      exact le_trans⟩
  have hsor := perm_insertionSort (fun left right => precedes byId left right = true) items
  have hother := perm_insertionSort (fun left right => precedes byId left right = true) others
  refine List.Perm.eq_of_pairwise (fun left right hleft hright hbef hafter => ?_)
    (pairwise_insertionSort _ items) (pairwise_insertionSort _ others)
    (hsor.trans (hperm.trans hother.symm))
  exact inj_on_of_nodup_map huris (hsor.mem_iff.mp hleft)
    (hperm.mem_iff.mpr (hother.mem_iff.mp hright)) (eq_uri_of_precedes byId hbef hafter)

end Items

/-! ### Maps -/

theorem get?_byId {pool : List MemoryNode} (hids : (pool.map MemoryNode.nodeId).Nodup)
    (byId : JsMap JsStr MemoryNode) (id : JsStr) (found : MemoryNode) :
    (pool.foldl (fun byId doc => byId.set doc.nodeId doc) byId).get? id = some found ↔
      (found ∈ pool ∧ found.nodeId = id) ∨ id ∉ pool.map MemoryNode.nodeId ∧ byId.get? id = some found := by
  induction pool generalizing byId with
  | nil => simp
  | cons doc pool ih =>
    obtain ⟨hnew, hrest⟩ := nodup_cons.mp hids
    rw [foldl_cons, ih hrest, get?_set, map_cons, mem_cons, mem_cons]
    by_cases heq : id = doc.nodeId
    · subst heq
      have hout : found ∉ pool ∨ found.nodeId ≠ doc.nodeId := by
        by_contra hboth
        obtain ⟨hmem, hid⟩ := not_or.mp hboth
        exact hnew (mem_map.mpr ⟨found, not_not.mp hmem, not_not.mp hid⟩)
      rw [if_pos rfl, Option.some.injEq]
      constructor
      · rintro (⟨hmem, hid⟩ | ⟨-, rfl⟩)
        · exact absurd hid (hout.resolve_left (not_not.mpr hmem))
        · exact .inl ⟨.inl rfl, rfl⟩
      · rintro (⟨rfl | hmem, hid⟩ | ⟨hout, -⟩)
        · exact .inr ⟨hnew, rfl⟩
        · exact absurd hid (hout.resolve_left (not_not.mpr hmem))
        · exact absurd (.inl rfl) hout
    · rw [if_neg heq]
      constructor
      · rintro (⟨hmem, hid⟩ | ⟨hout, hget⟩)
        · exact .inl ⟨.inr hmem, hid⟩
        · exact .inr ⟨not_or.mpr ⟨heq, hout⟩, hget⟩
      · rintro (⟨rfl | hmem, hid⟩ | ⟨hout, hget⟩)
        · exact absurd hid.symm heq
        · exact .inl ⟨hmem, hid⟩
        · exact .inr ⟨(not_or.mp hout).2, hget⟩

theorem get?_byId_perm {pool others : List MemoryNode} (hperm : pool.Perm others)
    (hids : (pool.map MemoryNode.nodeId).Nodup) : (pool.foldl (fun byId doc => byId.set doc.nodeId doc) empty).get? =
      (others.foldl (fun byId doc => byId.set doc.nodeId doc) empty).get? := by
  have hoth : (others.map MemoryNode.nodeId).Nodup := (hperm.map _).nodup_iff.mp hids
  funext id
  ext found
  rw [get?_byId hids, get?_byId hoth, hperm.mem_iff, (hperm.map MemoryNode.nodeId).mem_iff]

theorem get?_perm {β : Type*} {map other : JsMap JsStr β} (hperm : map.entries.Perm other.entries) :
    map.get? = other.get? := by
  funext id
  ext value
  rw [get?_eq_some, get?_eq_some, hperm.mem_iff]

/-! ### The ranking by the vector components -/

section Rank

variable {options : SearchOptions} {vecScores permuted : Option (JsMap JsStr VectorHit)} {mode : RecallMode}
  {bm25 : Option (JsMap JsStr ℚ)} {glossaryTerms : Option (JsMap JsStr JsStr)}

theorem scoreNode_congr (hget : ∀ id, vecScores.bind (get? · id) = permuted.bind (get? · id))
    (hvec : ∀ id, vectorOf vecScores mode id = vectorOf permuted mode id) :
    scoreNode options vecScores mode bm25 glossaryTerms = scoreNode options permuted mode bm25 glossaryTerms := by
  funext doc
  rw [scoreNode, scoreNode, hget, hvec]

theorem precedes_congr {byId other : JsMap JsStr MemoryNode} (hget : byId.get? = other.get?) :
    precedes byId = precedes other := by
  have himp : importanceOf byId = importanceOf other := by
    funext item
    rw [importanceOf, importanceOf, hget]
  have hupd : updatedOf byId = updatedOf other := by
    funext item
    rw [updatedOf, updatedOf, hget]
  funext left right
  rw [precedes, himp, hupd, ← precedes]

theorem rank_perm (hget : ∀ id, vecScores.bind (get? · id) = permuted.bind (get? · id))
    (hvec : ∀ id, vectorOf vecScores mode id = vectorOf permuted mode id) {pool others : List MemoryNode}
    (hids : (pool.map MemoryNode.nodeId).Nodup) (huris : (pool.map MemoryNode.uri).Nodup) (hperm : pool.Perm others) :
    rank options vecScores mode bm25 glossaryTerms pool = rank options permuted mode bm25 glossaryTerms others := by
  have hitems : ((pool.map (scoreNode options permuted mode bm25 glossaryTerms)).map RecalledItem.uri).Nodup := by
    rw [map_map]
    exact huris
  rw [rank, rank, scoreNode_congr hget hvec, insertionSort_precedes_perm _ (hperm.map _) hitems, precedes_congr (get?_byId_perm hperm hids)]

/-- The options under which a pool of one node is returned as it is scored. -/
def showAll (minScore : ℚ) : SearchOptions where
  queries := []
  topK := 1
  minScore := minScore
  keywordMinScore := none
  nowDays := 0
  requireKeywordHit := none

theorem rank_singleton {minScore : ℚ} {doc : MemoryNode}
    (hscore : minScore ≤ (scoreNode (showAll minScore) vecScores .vector bm25 glossaryTerms doc).score) :
    rank (showAll minScore) vecScores .vector bm25 glossaryTerms [doc] =
      [scoreNode (showAll minScore) vecScores .vector bm25 glossaryTerms doc] := by
  have hfloor : [scoreNode (showAll minScore) vecScores .vector bm25 glossaryTerms doc].filter
      (fun item => minScore ≤ item.score) = [scoreNode (showAll minScore) vecScores .vector bm25 glossaryTerms doc] :=
    filter_eq_self.mpr fun item hitem => decide_eq_true (mem_singleton.mp hitem ▸ hscore)
  rw [rank, map_singleton, insertionSort_cons, insertionSort_nil, orderedInsert_nil]
  exact congrArg (fun items => firstItems (items.filter fun item => !false || 0 < item.kw) 1) hfloor

/-- A node without text. -/
def bareNode (id : JsStr) : MemoryNode where
  nodeId := id
  uri := []
  content := []
  disclosure := none
  importance := 0
  worldTs := none
  updatedTs := []

theorem vectorOf_eq_of_rank (hrank : ∀ (options : SearchOptions) (pool : List MemoryNode),
      (pool.map MemoryNode.nodeId).Nodup → (pool.map MemoryNode.uri).Nodup →
        rank options vecScores .vector none none pool = rank options permuted .vector none none pool) (id : JsStr) :
    vectorOf vecScores .vector id = vectorOf permuted .vector id := by
  have hscore : ∀ hits minScore, (scoreNode (showAll minScore) hits .vector none none (bareNode id)).score =
      55 / 100 * vectorOf hits .vector id := by
    intro hits minScore
    simp [scoreNode, keywordOf, showAll, bareNode, importanceScore, recencyBoost, toEpochDays]
  let minScore := min (55 / 100 * vectorOf vecScores .vector id) (55 / 100 * vectorOf permuted .vector id)
  have hitems := hrank (showAll minScore) [bareNode id] (nodup_singleton _) (nodup_singleton _)
  rw [rank_singleton ((min_le_left _ _).trans_eq (hscore _ _).symm),
    rank_singleton ((min_le_right _ _).trans_eq (hscore _ _).symm), List.cons.injEq] at hitems
  exact congrArg RecalledItem.vec hitems.1

end Rank

/-! ### The views -/

/-- A view of the hits: which ids it ranks and by what. -/
structure View where
  key : JsStr → ℚ
  shown : JsStr → Bool

/-- What the view adds to the score of the id when the hits come in the order of the ids. -/
def View.share (view : View) (ids : List JsStr) (id : JsStr) : ℚ :=
  rrfShare (rankIn (sortedByKey view.key (ids.filter view.shown)) id)

namespace View

variable {view : View} {ids others : List JsStr} {id first second : JsStr}

theorem share_of_shown (hnodup : ids.Nodup) (hmem : id ∈ ids) (hshown : view.shown id = true) :
    view.share ids id = 1 / (rrfK + (place view.key (ids.filter view.shown) id + 1 : ℕ)) := by
  have hin : id ∈ ids.filter view.shown := mem_filter.mpr ⟨hmem, hshown⟩
  rw [share, rankIn, if_pos ((sortedByKey_perm _ _).mem_iff.mpr hin), idxOf_sortedByKey (hnodup.filter _) hin]
  rfl

theorem share_of_not_shown (hshown : view.shown id = false) : view.share ids id = 0 := by
  have hout : id ∉ ids.filter view.shown := fun hin => by
    rw [(mem_filter.mp hin).2] at hshown
    exact absurd hshown (by decide)
  rw [share, rankIn, if_neg (mt (sortedByKey_perm _ _).mem_iff.mp hout)]
  rfl

theorem share_nonneg : 0 ≤ view.share ids id := by
  rw [share, rankIn]
  split_ifs
  · simp only [rrfShare, rrfK]
    positivity
  · exact le_rfl

theorem share_pos (hnodup : ids.Nodup) (hmem : id ∈ ids) (hshown : view.shown id = true) : 0 < view.share ids id := by
  rw [share_of_shown hnodup hmem hshown, rrfK]
  positivity

theorem share_perm (hnodup : ids.Nodup) (hperm : ids.Perm others) (hmem : id ∈ ids)
    (hsin : view.shown id = true → ∀ other ∈ ids, view.shown other = true → view.key other = view.key id →
      other = id) : view.share ids id = view.share others id := by
  cases hshown : view.shown id with
  | false => rw [share_of_not_shown hshown, share_of_not_shown hshown]
  | true =>
    rw [share_of_shown hnodup hmem hshown, share_of_shown (hperm.nodup_iff.mp hnodup) (hperm.mem_iff.mp hmem) hshown,
      place_perm (hperm.filter _) fun other hother htie => ?_]
    obtain ⟨hother, hseen⟩ := mem_filter.mp hother
    exact hsin hshown other hother hseen htie

theorem filter_swap (rest : List JsStr) (hout : view.shown first = false ∨ view.shown second = false) :
    (first :: second :: rest).filter view.shown = (second :: first :: rest).filter view.shown := by
  rcases hout with hout | hout
  · simp [filter_cons, hout]
  · simp [filter_cons, hout]

variable {rest : List JsStr}

variable (hnodup : (first :: second :: rest).Nodup)

include hnodup

theorem share_swap_of_ne (hmem : id ∈ rest) :
    view.share (first :: second :: rest) id = view.share (second :: first :: rest) id := by
  have hswap := List.Perm.swap second first rest
  have hid : id ∈ first :: second :: rest := mem_cons_of_mem _ (mem_cons_of_mem _ hmem)
  obtain ⟨hfirst, hsnd⟩ := nodup_cons.mp hnodup
  cases hshown : view.shown id with
  | false => rw [share_of_not_shown hshown, share_of_not_shown hshown]
  | true =>
    rw [share_of_shown hnodup hid hshown, share_of_shown (hswap.nodup_iff.mp hnodup) (hswap.mem_iff.mp hid) hshown]
    cases hone : view.shown first with
    | false => rw [filter_swap rest (.inl hone)]
    | true =>
      cases htwo : view.shown second with
      | false => rw [filter_swap rest (.inr htwo)]
      | true =>
        have hne : first ≠ id := fun heq => hfirst (heq ▸ mem_cons_of_mem _ hmem)
        have hne' : second ≠ id := fun heq => (nodup_cons.mp hsnd).1 (heq ▸ hmem)
        simp only [filter_cons, hone, htwo, if_true]
        rw [place_swap_of_ne _ hne hne']

theorem share_swap (hfirst : view.shown first = true) (hsnd : view.shown second = true) :
    ∃ place : ℕ, view.share (first :: second :: rest) first = 1 / (rrfK + (place + 1 : ℕ)) ∧
      view.share (second :: first :: rest) first =
        1 / (rrfK + (place + (if view.key second = view.key first then 1 else 0) + 1 : ℕ)) := by
  have hswap := List.Perm.swap second first rest
  have hne : first ≠ second := fun heq => (nodup_cons.mp hnodup).1 (heq ▸ mem_cons_self)
  refine ⟨_, share_of_shown hnodup mem_cons_self hfirst, ?_⟩
  rw [share_of_shown (hswap.nodup_iff.mp hnodup) (hswap.mem_iff.mp mem_cons_self) hfirst]
  simp only [filter_cons, hfirst, hsnd, if_true]
  rw [place_swap _ hne]

theorem share_swap_le : view.share (second :: first :: rest) first ≤ view.share (first :: second :: rest) first := by
  cases hfirst : view.shown first with
  | false => rw [share_of_not_shown hfirst, share_of_not_shown hfirst]
  | true =>
    cases hsnd : view.shown second with
    | false => rw [share, share, filter_swap rest (.inr hsnd)]
    | true =>
      obtain ⟨place, hfront, hbeh⟩ := share_swap hnodup hfirst hsnd
      rw [hfront, hbeh, rrfK]
      gcongr
      omega

theorem share_swap_lt
    (hfirst : view.shown first = true) (hsnd : view.shown second = true) (htie : view.key second = view.key first) :
    view.share (second :: first :: rest) first < view.share (first :: second :: rest) first := by
  obtain ⟨place, hfront, hbeh⟩ := share_swap hnodup hfirst hsnd
  rw [hfront, hbeh, if_pos htie, rrfK]
  gcongr
  omega

end View

/-! ### The fused views -/

/-- The node takes part in the fusion. -/
def VectorHit.aboveFloor (hit : VectorHit) : Bool := vecAbsFloor ≤ max hit.score (hit.disc.getD 0)

section Fusion

variable (vecScores : JsMap JsStr VectorHit)

def bodyView : View where
  key := bodyScore vecScores
  shown id := (vecScores.get? id).any fun hit => 0 < hit.score

def discView : View where
  key id := ((vecScores.get? id).bind VectorHit.disc).getD 0
  shown id := (vecScores.get? id).any VectorHit.discloses

/-- The share of a node when the hits come in the order of the ids. -/
def fusedShare (ids : List JsStr) (id : JsStr) : ℚ :=
  if (vecScores.get? id).any VectorHit.aboveFloor then (bodyView vecScores).share ids id + (discView vecScores).share ids id
  else 0

def mostShare (ids : List JsStr) : ℚ :=
  ids.foldl (fun most id => if most < fusedShare vecScores ids id then fusedShare vecScores ids id else most) 0

def fusedValue (ids : List JsStr) (id : JsStr) : ℚ :=
  if 0 < mostShare vecScores ids then fusedShare vecScores ids id / mostShare vecScores ids
  else fusedShare vecScores ids id

variable {vecScores}

theorem map_fst_filter (shown : VectorHit → Bool) :
    (vecScores.entries.filter fun entry => shown entry.2).map Prod.fst =
      vecScores.keys.filter fun id => (vecScores.get? id).any shown := by
  rw [JsMap.keys, filter_map]
  congr 1
  refine filter_congr fun entry hentry => ?_
  rw [Function.comp_apply, JsMap.get?_eq_some.mpr hentry, Option.any_some]

theorem share_bodyView (id : JsStr) : (bodyView vecScores).share vecScores.keys id =
      rrfShare (rankIn (sortedByKey (bodyScore vecScores) (bodyIds vecScores)) id) := by
  have hids := @map_fst_filter vecScores fun hit => decide (0 < hit.score)
  rw [bodyIds, hids]
  rfl

theorem share_discView (id : JsStr) : (discView vecScores).share vecScores.keys id =
      rrfShare (rankIn ((sortedByKey Prod.snd (discIds vecScores)).map Prod.fst) id) := by
  have hkey : ∀ pair ∈ discIds vecScores, (discView vecScores).key pair.1 = pair.2 := by
    intro pair hpair
    obtain ⟨entry, hentry, rfl⟩ := mem_map.mp hpair
    show ((vecScores.get? entry.1).bind VectorHit.disc).getD 0 = entry.2.disc.getD 0
    rw [JsMap.get?_eq_some.mpr (mem_filter.mp hentry).1, Option.bind_some]
  have hids := @map_fst_filter vecScores VectorHit.discloses
  rw [map_sortedByKey Prod.fst hkey, discIds, map_map]
  exact congrArg (fun ids => rrfShare (rankIn (sortedByKey (discView vecScores).key ids) id)) hids.symm

theorem fuseVectorViews_eq_none :
    fuseVectorViews vecScores = none ↔ ∀ entry ∈ vecScores.entries, entry.2.discloses = false := by
  rw [fuseVectorViews, discIds]
  simp only [map_eq_nil_iff, filter_eq_nil_iff, Bool.not_eq_true]
  split_ifs with hnone
  · exact iff_of_true rfl hnone
  · exact iff_of_false (by simp) hnone

theorem rrfSum_eq {entry : JsStr × VectorHit} (hentry : entry ∈ vecScores.entries) :
    rrfSum vecScores entry = fusedShare vecScores vecScores.keys entry.1 := by
  rw [rrfSum, fusedShare, JsMap.get?_eq_some.mpr hentry, Option.any_some, VectorHit.aboveFloor, zero_add,
    share_bodyView, share_discView]
  by_cases hbelow : max entry.2.score (entry.2.disc.getD 0) < vecAbsFloor
  · rw [if_pos hbelow, if_neg fun habove => absurd (of_decide_eq_true habove) (not_le.mpr hbelow)]
  · rw [if_neg hbelow, if_pos (decide_eq_true (not_lt.mp hbelow))]

theorem get?_fuseVectorViews {fused : JsMap JsStr ℚ} (hfused : fuseVectorViews vecScores = some fused)
    (id : JsStr) : fused.get? id = (vecScores.get? id).map fun _ => fusedValue vecScores vecScores.keys id := by
  have hmost : vecScores.entries.foldl (fun most entry =>
      if most < rrfSum vecScores entry then rrfSum vecScores entry else most) 0 =
        mostShare vecScores vecScores.keys := by
    rw [mostShare, JsMap.keys, foldl_map]
    exact foldl_ext _ _ _ fun most entry hentry => by rw [rrfSum_eq hentry]; rfl
  rw [fuseVectorViews] at hfused
  split_ifs at hfused
  obtain rfl := Option.some.inj hfused
  ext value
  rw [get?_eq_some]
  change (id, value) ∈ vecScores.entries.map _ ↔ _
  rw [hmost, mem_map, Option.map_eq_some_iff]
  constructor
  · rintro ⟨entry, hentry, heq⟩
    rw [rrfSum_eq hentry] at heq
    obtain ⟨rfl, rfl⟩ := Prod.mk.inj heq
    exact ⟨entry.2, JsMap.get?_eq_some.mpr hentry, rfl⟩
  · rintro ⟨hit, hget, rfl⟩
    have hentry := JsMap.get?_eq_some.mp hget
    refine ⟨(id, hit), hentry, ?_⟩
    rw [rrfSum_eq hentry]
    rfl

/-! ### Shares that agree -/

/-- The id takes part in the fusion. -/
def Above (vecScores : JsMap JsStr VectorHit) (id : JsStr) : Prop :=
  (vecScores.get? id).any VectorHit.aboveFloor = true

theorem fusedShare_of_above {ids : List JsStr} {id : JsStr} (habove : Above vecScores id) :
    fusedShare vecScores ids id = (bodyView vecScores).share ids id + (discView vecScores).share ids id :=
  if_pos habove

theorem fusedShare_of_not_above {ids : List JsStr} {id : JsStr} (hbelow : ¬Above vecScores id) :
    fusedShare vecScores ids id = 0 := if_neg hbelow

theorem vecAbsFloor_pos : 0 < vecAbsFloor := by
  rw [vecAbsFloor]
  norm_num

theorem fusedShare_pos {ids : List JsStr} (hnodup : ids.Nodup) {id : JsStr} (hmem : id ∈ ids)
    (habove : Above vecScores id) : 0 < fusedShare vecScores ids id := by
  rw [fusedShare_of_above habove]
  obtain ⟨hit, hget, hfloor⟩ := (Option.any_eq_true _ _).mp habove
  rcases le_max_iff.mp (of_decide_eq_true hfloor) with hbody | hdisc
  · refine add_pos_of_pos_of_nonneg (View.share_pos hnodup hmem ?_) View.share_nonneg
    show (vecScores.get? id).any (fun hit => 0 < hit.score) = true
    rw [hget, Option.any_some]
    exact decide_eq_true (vecAbsFloor_pos.trans_le hbody)
  · refine add_pos_of_nonneg_of_pos View.share_nonneg (View.share_pos hnodup hmem ?_)
    show (vecScores.get? id).any VectorHit.discloses = true
    rw [hget, Option.any_some, VectorHit.discloses]
    cases hcos : hit.disc with
    | none =>
      rw [hcos] at hdisc
      exact absurd hdisc (not_le.mpr vecAbsFloor_pos)
    | some cosine =>
      rw [hcos] at hdisc
      exact decide_eq_true hdisc

omit vecScores in
theorem foldl_most (share : JsStr → ℚ) (ids : List JsStr) (start : ℚ) :
    start ≤ ids.foldl (fun most id => if most < share id then share id else most) start ∧
      (∀ id ∈ ids, share id ≤ ids.foldl (fun most id => if most < share id then share id else most) start) ∧
        (ids.foldl (fun most id => if most < share id then share id else most) start = start ∨
          ∃ id ∈ ids, share id = ids.foldl (fun most id => if most < share id then share id else most) start) := by
  induction ids generalizing start with
  | nil => exact ⟨le_rfl, by simp, .inl rfl⟩
  | cons first ids ih =>
    obtain ⟨hstart, hall, hsome⟩ := ih (if start < share first then share first else start)
    rw [foldl_cons]
    have hfirst : share first ≤ if start < share first then share first else start := by
      split_ifs with hlt
      · exact le_rfl
      · exact not_lt.mp hlt
    have hbef : start ≤ if start < share first then share first else start := by
      split_ifs with hlt
      · exact hlt.le
      · exact le_rfl
    refine ⟨hbef.trans hstart, forall_mem_cons.mpr ⟨hfirst.trans hstart, hall⟩, ?_⟩
    rcases hsome with heq | ⟨id, hid, heq⟩
    · by_cases hlt : start < share first
      · rw [if_pos hlt] at heq
        exact .inr ⟨first, mem_cons_self, by rw [if_pos hlt, heq]⟩
      · rw [if_neg hlt] at heq
        exact .inl (by rw [if_neg hlt, heq])
    · exact .inr ⟨id, mem_cons_of_mem _ hid, heq⟩

theorem fusedShare_le_mostShare {ids : List JsStr} {id : JsStr} (hmem : id ∈ ids) :
    fusedShare vecScores ids id ≤ mostShare vecScores ids := (foldl_most _ ids 0).2.1 id hmem

theorem mostShare_nonneg (ids : List JsStr) : 0 ≤ mostShare vecScores ids := (foldl_most _ ids 0).1

theorem exists_mostShare {ids : List JsStr} (hpos : 0 < mostShare vecScores ids) :
    ∃ id ∈ ids, fusedShare vecScores ids id = mostShare vecScores ids :=
  (foldl_most _ ids 0).2.2.resolve_left hpos.ne'

theorem mostShare_congr {ids others : List JsStr} (hperm : ids.Perm others)
    (hshare : ∀ id ∈ ids, fusedShare vecScores ids id = fusedShare vecScores others id) :
    mostShare vecScores ids = mostShare vecScores others := by
  have hle : ∀ {left right : List JsStr}, left.Perm right →
      (∀ id ∈ left, fusedShare vecScores left id = fusedShare vecScores right id) →
        mostShare vecScores left ≤ mostShare vecScores right := by
    intro left right hperm hshare
    rcases (foldl_most (fusedShare vecScores left) left 0).2.2 with hzero | ⟨id, hid, hmost⟩
    · exact hzero.trans_le (mostShare_nonneg right)
    · rw [mostShare, ← hmost, hshare id hid]
      exact fusedShare_le_mostShare (hperm.mem_iff.mp hid)
  exact le_antisymm (hle hperm hshare)
    (hle hperm.symm fun id hid => (hshare id (hperm.mem_iff.mpr hid)).symm)

/-! ### Ties -/

/-- The view ranks both ids by the same key. -/
def View.Ties (view : View) (first second : JsStr) : Prop :=
  view.shown first = true ∧ view.shown second = true ∧ view.key second = view.key first

variable {rest : List JsStr}

theorem fusedShare_swap_of_ne {first second id : JsStr}
    (hnodup : (first :: second :: rest).Nodup) (hmem : id ∈ second :: rest) :
    fusedShare vecScores (first :: second :: rest) id ≤ fusedShare vecScores (second :: first :: rest) id := by
  by_cases habove : Above vecScores id
  · rw [fusedShare_of_above habove, fusedShare_of_above habove]
    rcases mem_cons.mp hmem with rfl | hmem
    · have hswap := (List.Perm.swap first id rest).nodup_iff.mpr hnodup
      exact add_le_add (View.share_swap_le hswap) (View.share_swap_le hswap)
    · rw [View.share_swap_of_ne hnodup hmem, View.share_swap_of_ne hnodup hmem]
  · rw [fusedShare_of_not_above habove, fusedShare_of_not_above habove]

theorem fusedShare_swap_lt {first second : JsStr}
    (hnodup : (first :: second :: rest).Nodup) (habove : Above vecScores first)
    (hties : (bodyView vecScores).Ties first second ∨ (discView vecScores).Ties first second) :
    fusedShare vecScores (second :: first :: rest) first < fusedShare vecScores (first :: second :: rest) first := by
  rw [fusedShare_of_above habove, fusedShare_of_above habove]
  rcases hties with ⟨hfirst, hsnd, htie⟩ | ⟨hfirst, hsnd, htie⟩
  · exact add_lt_add_of_lt_of_le (View.share_swap_lt hnodup hfirst hsnd htie) (View.share_swap_le hnodup)
  · exact add_lt_add_of_le_of_lt (View.share_swap_le hnodup) (View.share_swap_lt hnodup hfirst hsnd htie)

theorem fusedValue_of_pos {ids : List JsStr} (hmost : 0 < mostShare vecScores ids) (id : JsStr) :
    fusedValue vecScores ids id = fusedShare vecScores ids id / mostShare vecScores ids := if_pos hmost

theorem fusedValue_swap_ne {first second other : JsStr}
    (hnodup : (first :: second :: rest).Nodup) (hfirst : Above vecScores first) (hother : Above vecScores other)
    (hmem : other ∈ second :: rest)
    (hties : (bodyView vecScores).Ties first second ∨ (discView vecScores).Ties first second) :
    fusedValue vecScores (first :: second :: rest) first ≠ fusedValue vecScores (second :: first :: rest) first ∨
      fusedValue vecScores (first :: second :: rest) other ≠ fusedValue vecScores (second :: first :: rest) other := by
  have hswap := List.Perm.swap second first rest
  have hnodup' := hswap.nodup_iff.mp hnodup
  have hin : other ∈ first :: second :: rest := mem_cons_of_mem _ hmem
  have hpos := fusedShare_pos hnodup' (hswap.mem_iff.mp mem_cons_self) hfirst
  have hpos' := fusedShare_pos hnodup hin hother
  have hlt := fusedShare_swap_lt hnodup hfirst hties
  have hle : fusedShare vecScores (first :: second :: rest) other ≤
      fusedShare vecScores (second :: first :: rest) other := fusedShare_swap_of_ne hnodup hmem
  have hmost : 0 < mostShare vecScores (first :: second :: rest) :=
    hpos'.trans_le (fusedShare_le_mostShare hin)
  have hmost' : 0 < mostShare vecScores (second :: first :: rest) :=
    hpos.trans_le (fusedShare_le_mostShare (hswap.mem_iff.mp mem_cons_self))
  rw [← not_and_or, fusedValue_of_pos hmost, fusedValue_of_pos hmost', fusedValue_of_pos hmost,
    fusedValue_of_pos hmost']
  rintro ⟨heq, heq'⟩
  rw [div_eq_div_iff hmost.ne' hmost'.ne'] at heq heq'
  -- The first share got smaller, so the greatest one did; the other share did not.
  have hsmal : mostShare vecScores (second :: first :: rest) < mostShare vecScores (first :: second :: rest) := by
    by_contra hge
    nlinarith [mul_lt_mul_of_pos_right hlt hmost, mul_le_mul_of_nonneg_left (not_lt.mp hge) (hpos.trans hlt).le]
  nlinarith [mul_le_mul_of_nonneg_right hle hmost.le, mul_lt_mul_of_pos_left hsmal hpos']

theorem fusedValue_of_single {ids : List JsStr} (hnodup : ids.Nodup) {first : JsStr} (hmem : first ∈ ids)
    (hfirst : Above vecScores first) (hsin : ∀ other ∈ ids, Above vecScores other → other = first) {id : JsStr}
    (hid : id ∈ ids) : fusedValue vecScores ids id = if id = first then 1 else 0 := by
  have hpos := fusedShare_pos hnodup hmem hfirst
  have hmost : 0 < mostShare vecScores ids := hpos.trans_le (fusedShare_le_mostShare hmem)
  rw [fusedValue_of_pos hmost]
  split_ifs with heq
  · obtain ⟨other, hother, hequal⟩ := exists_mostShare hmost
    have habove : Above vecScores other := by
      by_contra hbelow
      exact hmost.ne (hequal ▸ (fusedShare_of_not_above hbelow).symm)
    rw [← hequal, hsin other hother habove, heq, div_self hpos.ne']
  · rw [fusedShare_of_not_above fun habove => heq (hsin id hid habove), zero_div]

theorem fusedValue_perm {ids others : List JsStr} (hnodup : ids.Nodup) (hperm : ids.Perm others)
    (hfree : ∀ first ∈ ids, Above vecScores first → ∀ second ∈ ids, second ≠ first →
      ¬(discView vecScores).Ties first second ∧
        ((bodyView vecScores).Ties first second → ∀ other ∈ ids, Above vecScores other → other = first))
    {id : JsStr} (hid : id ∈ ids) : fusedValue vecScores ids id = fusedValue vecScores others id := by
  by_cases hone : ∃ first ∈ ids, Above vecScores first ∧ ∀ other ∈ ids, Above vecScores other → other = first
  · obtain ⟨first, hmem, hfirst, hsin⟩ := hone
    rw [fusedValue_of_single hnodup hmem hfirst hsin hid,
      fusedValue_of_single (hperm.nodup_iff.mp hnodup) (hperm.mem_iff.mp hmem) hfirst
        (fun other hother => hsin other (hperm.mem_iff.mpr hother)) (hperm.mem_iff.mp hid)]
  · have hshare : ∀ id ∈ ids, fusedShare vecScores ids id = fusedShare vecScores others id := by
      intro id hid
      by_cases habove : Above vecScores id
      · rw [fusedShare_of_above habove, fusedShare_of_above habove,
          View.share_perm hnodup hperm hid fun hshown other hother hother' htie => ?_,
          View.share_perm hnodup hperm hid fun hshown other hother hother' htie => ?_]
        · by_contra hne
          exact (hfree id hid habove other hother hne).1 ⟨hshown, hother', htie⟩
        · by_contra hne
          exact hone ⟨id, hid, habove, (hfree id hid habove other hother hne).2 ⟨hshown, hother', htie⟩⟩
      · rw [fusedShare_of_not_above habove, fusedShare_of_not_above habove]
    rw [fusedValue, fusedValue, mostShare_congr hperm hshare, hshare id hid]

end Fusion

/-! ### The condition -/

/-- The two hits tie in the body view. -/
def TiedBody (left right : VectorHit) : Prop := 0 < left.score ∧ left.score = right.score

/-- The two hits tie in the disclosure view. -/
def TiedDisc (left right : VectorHit) : Prop := left.discloses = true ∧ left.disc = right.disc

/-- No disclosure counts, or no hit above the floor ties with another one, except that the only hit above the floor
may tie with others in the body view. -/
def OrderFree (vecScores : JsMap JsStr VectorHit) : Prop :=
  (∀ entry ∈ vecScores.entries, entry.2.discloses = false) ∨
    ∀ first ∈ vecScores.entries, first.2.aboveFloor = true → ∀ second ∈ vecScores.entries, second.1 ≠ first.1 →
      ¬TiedDisc first.2 second.2 ∧ (TiedBody first.2 second.2 →
        ∀ other ∈ vecScores.entries, other.2.aboveFloor = true → other.1 = first.1)

section Condition

variable {vecScores permuted : JsMap JsStr VectorHit}

theorem bodyView_ties {first second : JsStr × VectorHit} (hfirst : first ∈ vecScores.entries)
    (hsnd : second ∈ vecScores.entries) : (bodyView vecScores).Ties first.1 second.1 ↔ TiedBody first.2 second.2 := by
  simp only [View.Ties, bodyView, bodyScore, JsMap.get?_eq_some.mpr hfirst, JsMap.get?_eq_some.mpr hsnd,
    Option.any_some, decide_eq_true_eq, TiedBody]
  constructor
  · rintro ⟨hpos, -, heq⟩
    exact ⟨hpos, heq.symm⟩
  · rintro ⟨hpos, heq⟩
    exact ⟨hpos, heq ▸ hpos, heq.symm⟩

theorem discView_ties {first second : JsStr × VectorHit} (hfirst : first ∈ vecScores.entries)
    (hsnd : second ∈ vecScores.entries) : (discView vecScores).Ties first.1 second.1 ↔ TiedDisc first.2 second.2 := by
  simp only [View.Ties, discView, JsMap.get?_eq_some.mpr hfirst, JsMap.get?_eq_some.mpr hsnd,
    Option.any_some, Option.bind_some, TiedDisc, VectorHit.discloses]
  cases first.2.disc <;> cases second.2.disc <;> simp
  intro hfloor
  constructor
  · rintro ⟨-, heq⟩
    exact heq.symm
  · rintro rfl
    exact ⟨hfloor, rfl⟩

theorem above_iff {entry : JsStr × VectorHit} (hentry : entry ∈ vecScores.entries) :
    Above vecScores entry.1 ↔ entry.2.aboveFloor = true := by
  rw [Above, JsMap.get?_eq_some.mpr hentry, Option.any_some]

theorem fusedValue_congr (hget : vecScores.get? = permuted.get?) : fusedValue vecScores = fusedValue permuted := by
  have hbody : bodyView vecScores = bodyView permuted := by
    have hscore : bodyScore vecScores = bodyScore permuted := by
      funext id
      rw [bodyScore, bodyScore, hget]
    rw [bodyView, bodyView, hscore, hget]
  have hdisc : discView vecScores = discView permuted := by rw [discView, discView, hget]
  have hshare : fusedShare vecScores = fusedShare permuted := by
    funext ids id
    rw [fusedShare, fusedShare, hbody, hdisc, hget]
  funext ids id
  rw [fusedValue, fusedValue, mostShare, mostShare, hshare]

theorem fuseVectorViews_eq_none_perm (hperm : vecScores.entries.Perm permuted.entries) :
    fuseVectorViews vecScores = none ↔ fuseVectorViews permuted = none := by
  rw [fuseVectorViews_eq_none, fuseVectorViews_eq_none]
  exact forall_congr' fun entry => by rw [hperm.mem_iff]

theorem vectorOf_of_fused {fused : JsMap JsStr ℚ} (hfused : fuseVectorViews vecScores = some fused)
    (id : JsStr) : vectorOf (some vecScores) .vector id =
      ((vecScores.get? id).map fun _ => fusedValue vecScores vecScores.keys id).getD 0 := by
  rw [← get?_fuseVectorViews hfused id, vectorOf, hfused]

theorem vectorOf_of_perm (hperm : vecScores.entries.Perm permuted.entries) (hloud : fuseVectorViews vecScores ≠ none)
    {entry : JsStr × VectorHit} (hentry : entry ∈ vecScores.entries) :
    vectorOf (some permuted) .vector entry.1 = fusedValue vecScores permuted.keys entry.1 := by
  obtain ⟨fused, hfused⟩ := Option.ne_none_iff_exists'.mp (mt (fuseVectorViews_eq_none_perm hperm).mpr hloud)
  rw [vectorOf_of_fused hfused, ← get?_perm hperm, JsMap.get?_eq_some.mpr hentry, fusedValue_congr (get?_perm hperm)]
  rfl

theorem OrderFree.vectorOf_perm (hfree : OrderFree vecScores) (hperm : vecScores.entries.Perm permuted.entries)
    (mode : RecallMode) (id : JsStr) : vectorOf (some vecScores) mode id = vectorOf (some permuted) mode id := by
  have hget := get?_perm hperm
  have hnone := fuseVectorViews_eq_none_perm hperm
  cases mode with
  | keyword => rfl
  | vector =>
    cases hfused : fuseVectorViews vecScores with
    | none =>
      rw [vectorOf, vectorOf, hfused, hnone.mp hfused, bodyScore, bodyScore, hget]
    | some fused =>
      obtain ⟨fused', hfused'⟩ := Option.ne_none_iff_exists'.mp fun heq => by
        rw [hnone.mpr heq] at hfused
        exact nomatch hfused
      have hties := hfree.resolve_left fun hquiet => by
        rw [fuseVectorViews_eq_none.mpr hquiet] at hfused
        exact nomatch hfused
      rw [vectorOf_of_fused hfused, vectorOf_of_fused hfused', ← fusedValue_congr hget, ← hget]
      cases hhit : vecScores.get? id with
      | none => rfl
      | some hit =>
        have hentry := JsMap.get?_eq_some.mp hhit
        refine fusedValue_perm vecScores.nodup (hperm.map Prod.fst) (fun firstId hid habove secondId hid' hne => ?_)
          (mem_map_of_mem hentry)
        obtain ⟨first, hfirst, rfl⟩ := mem_map.mp hid
        obtain ⟨second, hsnd, rfl⟩ := mem_map.mp hid'
        obtain ⟨hdisc, hbody⟩ := hties first hfirst ((above_iff hfirst).mp habove) second hsnd hne
        refine ⟨mt (discView_ties hfirst hsnd).mp hdisc, fun htie otherId hid habove' => ?_⟩
        obtain ⟨other, hother, rfl⟩ := mem_map.mp hid
        exact hbody ((bodyView_ties hfirst hsnd).mp htie) other hother ((above_iff hother).mp habove')

theorem VectorHit.aboveFloor_of_discloses {hit : VectorHit} (hdis : hit.discloses = true) :
    hit.aboveFloor = true := by
  rw [discloses] at hdis
  rw [aboveFloor, decide_eq_true_eq, le_max_iff]
  cases hdisc : hit.disc with
  | none =>
    rw [hdisc] at hdis
    exact nomatch hdis
  | some disc =>
    rw [hdisc] at hdis
    exact .inr (of_decide_eq_true hdis)

theorem exists_tie (hfree : ¬OrderFree vecScores) :
    ∃ first ∈ vecScores.entries, ∃ second ∈ vecScores.entries, ∃ other ∈ vecScores.entries,
      first.2.aboveFloor = true ∧ other.2.aboveFloor = true ∧ second.1 ≠ first.1 ∧ other.1 ≠ first.1 ∧
        (TiedBody first.2 second.2 ∨ TiedDisc first.2 second.2) := by
  by_contra hnone
  refine hfree (.inr fun first hfirst habove second hsnd hne => ⟨fun htie => ?_, fun htie other hother hother' => ?_⟩)
  · have hdis : second.2.discloses = true := by
      rw [VectorHit.discloses, ← htie.2]
      exact htie.1
    exact hnone ⟨first, hfirst, second, hsnd, second, hsnd, habove,
      VectorHit.aboveFloor_of_discloses hdis, hne, hne, .inr htie⟩
  · by_contra hne'
    exact hnone ⟨first, hfirst, second, hsnd, other, hother, habove, hother', hne, hne', .inl htie⟩

theorem exists_vectorOf_ne (hfree : ¬OrderFree vecScores) :
    ∃ left right : JsMap JsStr VectorHit, vecScores.entries.Perm left.entries ∧ vecScores.entries.Perm right.entries ∧
        ∃ id, vectorOf (some left) .vector id ≠ vectorOf (some right) .vector id := by
  have hloud : fuseVectorViews vecScores ≠ none := fun hnone => hfree (.inl (fuseVectorViews_eq_none.mp hnone))
  obtain ⟨first, hfirst, second, hsnd, other, hother, habove, habove', hne, hne', htie⟩ := exists_tie hfree
  have hsnd' : second ∈ vecScores.entries.erase first :=
    (mem_erase_of_ne fun heq => hne (congrArg Prod.fst heq)).mpr hsnd
  have hleft : vecScores.entries.Perm (first :: second :: (vecScores.entries.erase first).erase second) :=
    (perm_cons_erase hfirst).trans ((perm_cons_erase hsnd').cons first)
  have hright := hleft.trans (List.Perm.swap second first _)
  have hnodup := (hleft.map Prod.fst).nodup_iff.mp vecScores.nodup
  refine ⟨⟨_, hnodup⟩, ⟨_, (hright.map Prod.fst).nodup_iff.mp vecScores.nodup⟩, hleft, hright, ?_⟩
  have hmem : other.1 ∈ second.1 :: ((vecScores.entries.erase first).erase second).map Prod.fst :=
    (mem_cons.mp ((hleft.map Prod.fst).mem_iff.mp (mem_map_of_mem hother))).resolve_left hne'
  have hties := htie.imp (bodyView_ties hfirst hsnd).mpr (discView_ties hfirst hsnd).mpr
  rcases fusedValue_swap_ne hnodup ((above_iff hfirst).mpr habove) ((above_iff hother).mpr habove') hmem hties
    with hdif | hdif
  · refine ⟨first.1, ?_⟩
    rwa [vectorOf_of_perm hleft hloud hfirst, vectorOf_of_perm hright hloud hfirst]
  · refine ⟨other.1, ?_⟩
    rwa [vectorOf_of_perm hleft hloud hother, vectorOf_of_perm hright hloud hother]

end Condition

/-- **When the ranking ignores the order of the candidates.** It does so for every pool of distinct nodes, all options
and all other maps if and only if the hits, where there are any, meet the condition. -/
theorem rank_perm_iff (vecScores : Option (JsMap JsStr VectorHit)) :
    (∀ (pool others : List MemoryNode) (options : SearchOptions) (permuted : Option (JsMap JsStr VectorHit))
        (mode : RecallMode) (bm25 : Option (JsMap JsStr ℚ)) (glossaryTerms : Option (JsMap JsStr JsStr)),
      (pool.map MemoryNode.nodeId).Nodup → (pool.map MemoryNode.uri).Nodup → pool.Perm others →
        Option.Rel (fun left right => left.entries.Perm right.entries) vecScores permuted →
          rank options vecScores mode bm25 glossaryTerms pool = rank options permuted mode bm25 glossaryTerms others) ↔
      ∀ hits, vecScores = some hits → OrderFree hits := by
  constructor
  · rintro hrank hits rfl
    by_contra hfree
    obtain ⟨left, right, hleft, hright, id, hne⟩ := exists_vectorOf_ne hfree
    have hsame : ∀ permuted : JsMap JsStr VectorHit, hits.entries.Perm permuted.entries →
        vectorOf (some hits) .vector id = vectorOf (some permuted) .vector id := fun permuted hperm =>
      vectorOf_eq_of_rank (fun options pool hids huris =>
        hrank pool pool options (some permuted) .vector none none hids huris (.refl pool) (.some hperm)) id
    exact hne ((hsame left hleft).symm.trans (hsame right hright))
  · intro hfree pool others options permuted mode bm25 glossaryTerms hids huris hpool hhits
    cases hhits with
    | none => exact rank_perm (fun _ => rfl) (fun _ => rfl) hids huris hpool
    | some hperm =>
      refine rank_perm (fun id => ?_) ((hfree _ rfl).vectorOf_perm hperm mode) hids huris hpool
      rw [Option.bind_some, Option.bind_some, get?_perm hperm]

/-! ### Examples -/

/-- A node with a disclosure. -/
def disclosedNode (id : JsStr) : MemoryNode where
  nodeId := id
  uri := js "history://" ++ id
  content := id
  disclosure := some (js "allergies")
  importance := 5
  worldTs := none
  updatedTs := js "2026-01-01"

/-- The hit of a node whose disclosure is as close as that of the other one. -/
def equalHit : VectorHit where
  score := 1 / 2
  segIndex := 0
  disc := some (3 / 5)

/-- Two nodes with the same cosines: the one that the map has first is ranked first. -/
theorem rank_order_matters : ∃ (pool others : List MemoryNode) (hits permuted : JsMap JsStr VectorHit),
      (pool.map MemoryNode.nodeId).Nodup ∧ (pool.map MemoryNode.uri).Nodup ∧ pool.Perm others ∧
        hits.entries.Perm permuted.entries ∧ rank (showAll 0) (some hits) .vector none none pool ≠
            rank (showAll 0) (some permuted) .vector none none others :=
  ⟨[disclosedNode (js "a"), disclosedNode (js "b")], [disclosedNode (js "b"), disclosedNode (js "a")],
    ⟨[(js "a", equalHit), (js "b", equalHit)], by decide⟩, ⟨[(js "b", equalHit), (js "a", equalHit)], by decide⟩,
    by decide, by decide, .swap _ _ [], .swap _ _ [], by decide +kernel⟩

end PiRp.Recall

import PiRp.MemoryAddressing
import PiRp.ParentForest

/-! The subtrees that a relocation moves. A walk that ends has met every node below its start exactly
once; the plans of a batch have no node in common. -/

namespace PiRp.Memory

open List ParentForest

/-- The parent links of the nodes. -/
def link (tables : Tables) (nodeId : JsStr) : Option (Option JsStr) :=
  (tables.nodes.get? nodeId).map NodeRow.parentId

variable {tables : Tables}

theorem link_eq_child {child nodeId : JsStr} : link tables child = some (some nodeId) ↔
    ∃ row, (child, row) ∈ childNodes tables nodeId := by
  simp only [childNodes, (Sql.orderByText_perm _ _).mem_iff, NodeTable.mem_children, link, Option.map_eq_some_iff]

/-! ### The walk -/

section Collect

variable {α β ε : Type} {visit : α → Except ε (List β)}

/-- What the visit of an item gives. -/
def part (visit : α → Except ε (List β)) (item : α) : List β := (visit item).toOption.getD []

theorem part_of_ok {item : α} {found : List β} (hvisit : visit item = .ok found) : part visit item = found := by
  rw [part, hvisit]
  rfl

theorem collect_eq_ok {items : List α} {all : List β} : collect visit items = .ok all ↔
    (∀ item ∈ items, visit item = .ok (part visit item)) ∧ all = items.flatMap (part visit) := by
  induction items generalizing all with
  | nil =>
    rw [collect]
    constructor
    · intro hall
      exact ⟨nofun, (Except.ok.inj hall).symm⟩
    · rintro ⟨_, rfl⟩
      rfl
  | cons item rest ih =>
    rw [collect, bind_eq_ok]
    simp only [bind_eq_ok, forall_mem_cons, flatMap_cons]
    constructor
    · rintro ⟨first, hfirst, others, hoth, hall⟩
      obtain ⟨hrest, rfl⟩ := ih.mp hoth
      rw [part_of_ok hfirst]
      exact ⟨⟨hfirst, hrest⟩, (Except.ok.inj hall).symm⟩
    · rintro ⟨⟨hfirst, hrest⟩, rfl⟩
      exact ⟨_, hfirst, _, ih.mpr ⟨hrest, rfl⟩, rfl⟩

end Collect

/-- The visit of a child in the walk. -/
def visitChild (tables : Tables) (depth : Nat) (rel : JsStr) (child : JsStr × NodeRow) :
    Except JsStr (List Member) := do
  let below ← walk tables depth child.1 (childRel rel child.2.uri)
  return ⟨child.1, child.2, childRel rel child.2.uri⟩ :: below

theorem walk_succ (depth : Nat) (nodeId rel : JsStr) : walk tables (depth + 1) nodeId rel =
    collect (visitChild tables depth rel) (childNodes tables nodeId) := rfl

theorem visitChild_eq_ok {depth : Nat} {rel : JsStr} {child : JsStr × NodeRow}
    {members : List Member} : visitChild tables depth rel child = .ok members ↔
      ∃ below, walk tables depth child.1 (childRel rel child.2.uri) = .ok below ∧
        members = ⟨child.1, child.2, childRel rel child.2.uri⟩ :: below := by
  rw [visitChild, bind_eq_ok]
  refine exists_congr fun below => and_congr_right fun _ => ?_
  exact ⟨fun heq => (Except.ok.inj heq).symm, fun heq => congrArg Except.ok heq.symm⟩

variable {depth : Nat} {nodeId rel : JsStr} {members : List Member}

theorem walk_child (hwalk : walk tables (depth + 1) nodeId rel = .ok members)
    {child : JsStr × NodeRow} (hchild : child ∈ childNodes tables nodeId) :
    ∃ below, walk tables depth child.1 (childRel rel child.2.uri) = .ok below ∧
      ∀ member ∈ ⟨child.1, child.2, childRel rel child.2.uri⟩ :: below, member ∈ members := by
  rw [walk_succ, collect_eq_ok] at hwalk
  obtain ⟨below, hbelow, hpart⟩ := visitChild_eq_ok.mp (hwalk.1 child hchild)
  refine ⟨below, hbelow, fun member hmemb => ?_⟩
  rw [hwalk.2, mem_flatMap]
  exact ⟨child, hchild, hpart ▸ hmemb⟩

theorem walk_member (hwalk : walk tables (depth + 1) nodeId rel = .ok members) {member : Member}
    (hmemb : member ∈ members) : ∃ child ∈ childNodes tables nodeId, ∃ below,
      walk tables depth child.1 (childRel rel child.2.uri) = .ok below ∧
        member ∈ ⟨child.1, child.2, childRel rel child.2.uri⟩ :: below := by
  rw [walk_succ, collect_eq_ok] at hwalk
  rw [hwalk.2, mem_flatMap] at hmemb
  obtain ⟨child, hchild, hpart⟩ := hmemb
  obtain ⟨below, hbelow, heq⟩ := visitChild_eq_ok.mp (hwalk.1 child hchild)
  exact ⟨child, hchild, below, hbelow, heq ▸ hpart⟩

theorem walk_zero : walk tables 0 nodeId rel ≠ .ok members := nofun

section

variable (hwalk : walk tables depth nodeId rel = .ok members)

include hwalk

theorem mem_walk {member : Member} (hmemb : member ∈ members) : tables.nodes.get? member.nodeId = some member.node ∧
      ∃ child, link tables child = some (some nodeId) ∧ Inside (link tables) child member.nodeId := by
  induction depth generalizing nodeId rel members with
  | zero => exact absurd hwalk walk_zero
  | succ depth ih =>
    obtain ⟨child, hchild, below, hbelow, hmemb⟩ := walk_member hwalk hmemb
    have hlink := link_eq_child.mpr ⟨child.2, hchild⟩
    rcases mem_cons.mp hmemb with rfl | hmemb
    · rw [childNodes, (Sql.orderByText_perm _ _).mem_iff, NodeTable.mem_children] at hchild
      exact ⟨hchild.1, child.1, hlink, .self⟩
    · obtain ⟨hrow, grandchild, hgran, hins⟩ := ih hbelow hmemb
      exact ⟨hrow, child.1, hlink, Inside.trans (.under hgran .self) hins⟩

theorem mem_walk_of_inside {child item : JsStr}
    (hchild : link tables child = some (some nodeId)) (hins : Inside (link tables) child item) :
    item ∈ members.map Member.nodeId := by
  induction depth generalizing nodeId rel members child with
  | zero => exact absurd hwalk walk_zero
  | succ depth ih =>
    obtain ⟨row, hrow⟩ := link_eq_child.mp hchild
    obtain ⟨below, hbelow, hsub⟩ := walk_child hwalk hrow
    rcases hins.eq_or_child with rfl | ⟨grandchild, hgran, hitem⟩
    · exact mem_map.mpr ⟨_, hsub _ mem_cons_self, rfl⟩
    · obtain ⟨member, hmemb, hid⟩ := mem_map.mp (ih hbelow hgran hitem)
      exact mem_map.mpr ⟨member, hsub _ (mem_cons_of_mem _ hmemb), hid⟩

theorem walk_reaches {item : JsStr} (hins : Inside (link tables) nodeId item) :
    ∃ less ≤ depth, ∃ rel members, walk tables less item rel = .ok members := by
  induction hins with
  | self => exact ⟨depth, le_rfl, rel, members, hwalk⟩
  | @under item parent hpar _ ih =>
    obtain ⟨less, hless, rel, members, hparen⟩ := ih
    obtain ⟨row, hrow⟩ := link_eq_child.mp hpar
    cases less with
    | zero => exact absurd hparen walk_zero
    | succ less =>
      obtain ⟨below, hbelow, _⟩ := walk_child hparen hrow
      exact ⟨less, by omega, _, below, hbelow⟩

theorem walk_acyclic {child : JsStr}
    (hchild : link tables child = some (some nodeId)) : ¬ Inside (link tables) child nodeId := by
  -- Around a cycle the walk would meet its start again with less depth.
  induction depth using Nat.strong_induction_on generalizing nodeId rel members child with
  | _ depth ih =>
    intro hcycle
    obtain ⟨row, hrow⟩ := link_eq_child.mp hchild
    cases depth with
    | zero => exact absurd hwalk walk_zero
    | succ depth =>
      obtain ⟨below, hbelow, _⟩ := walk_child hwalk hrow
      obtain ⟨less, hless, rel, members, hagain⟩ := walk_reaches hbelow hcycle
      exact ih less (by omega) hagain hchild hcycle

end

theorem nodup_childNodes (nodeId : JsStr) : ((childNodes tables nodeId).map Prod.fst).Nodup := by
  refine ((Sql.orderByText_perm _ _).map Prod.fst).nodup_iff.mpr ?_
  exact tables.nodes.rows.nodup.sublist (List.Sublist.map _ filter_sublist)

theorem children_apart {left right item : JsStr} (hleft : link tables left = some (some nodeId))
    (hright : link tables right = some (some nodeId)) (hne : left ≠ right)
    (hacyc : ∀ child, link tables child = some (some nodeId) → ¬ Inside (link tables) child nodeId)
    (hinl : Inside (link tables) left item) : ¬ Inside (link tables) right item := by
  have hup : ∀ {top below : JsStr}, link tables below = some (some nodeId) → top ≠ below →
      Inside (link tables) top below → Inside (link tables) top nodeId := by
    intro top below hbelow hne hins
    cases hins with
    | self => exact absurd rfl hne
    | under hpar hins =>
      rw [hbelow] at hpar
      exact Option.some.inj (Option.some.inj hpar) ▸ hins
  intro hinr
  rcases hinl.total hinr with hins | hins
  · exact hacyc left hleft (hup hright hne hins)
  · exact hacyc right hright (hup hleft hne.symm hins)

theorem nodup_walk (hwalk : walk tables depth nodeId rel = .ok members) : (members.map Member.nodeId).Nodup := by
  induction depth generalizing nodeId rel members with
  | zero => exact absurd hwalk walk_zero
  | succ depth ih =>
    have hacyc := fun child => @walk_acyclic _ _ _ _ _ hwalk child
    rw [walk_succ, collect_eq_ok] at hwalk
    obtain ⟨hvisit, rfl⟩ := hwalk
    have hins : ∀ child ∈ childNodes tables nodeId, ∀ id,
        id ∈ (part (visitChild tables depth rel) child).map Member.nodeId →
          Inside (link tables) child.1 id := by
      intro child hchild id hid
      obtain ⟨below, hbelow, heq⟩ := visitChild_eq_ok.mp (hvisit child hchild)
      rw [heq, map_cons, mem_cons] at hid
      rcases hid with rfl | hid
      · exact .self
      · obtain ⟨member, hmemb, rfl⟩ := mem_map.mp hid
        obtain ⟨_, grandchild, hgran, hins⟩ := mem_walk hbelow hmemb
        exact Inside.trans (.under hgran .self) hins
    rw [map_flatMap, nodup_flatMap]
    refine ⟨fun child hchild => ?_, ?_⟩
    · obtain ⟨below, hbelow, heq⟩ := visitChild_eq_ok.mp (hvisit child hchild)
      rw [heq, map_cons, nodup_cons]
      refine ⟨fun hmem => ?_, ih hbelow⟩
      obtain ⟨member, hmemb, hid⟩ := mem_map.mp hmem
      obtain ⟨_, grandchild, hgran, hins⟩ := mem_walk hbelow hmemb
      have hid : member.nodeId = child.1 := hid
      exact walk_acyclic hbelow hgran (hid ▸ hins)
    · have hids := pairwise_map.mp (@nodup_childNodes tables nodeId)
      refine hids.imp_of_mem fun {left right} hleft hright hne => ?_
      intro id hinl hinr
      exact children_apart (link_eq_child.mpr ⟨_, hleft⟩) (link_eq_child.mpr ⟨_, hright⟩) hne hacyc
        (hins left hleft id hinl) (hins right hright id hinr)

/-! ### Subtrees -/

variable {root : JsStr × NodeRow}

theorem subtreeMembers_eq_ok : subtreeMembers tables root = .ok members ↔
    ∃ below, walk tables (tables.nodes.rows.entries.length + 1) root.1 [] = .ok below ∧
      members = ⟨root.1, root.2, []⟩ :: below := by
  rw [subtreeMembers, bind_eq_ok]
  refine exists_congr fun below => and_congr_right fun _ => ?_
  exact ⟨fun heq => (Except.ok.inj heq).symm, fun heq => congrArg Except.ok heq.symm⟩

theorem subtreeMembers_spec (hroot : tables.nodes.get? root.1 = some root.2)
    (hmembs : subtreeMembers tables root = .ok members) :
    (∀ member ∈ members, tables.nodes.get? member.nodeId = some member.node) ∧ (members.map Member.nodeId).Nodup ∧
        ∀ id, Inside (link tables) root.1 id ↔ id ∈ members.map Member.nodeId := by
  obtain ⟨below, hbelow, rfl⟩ := subtreeMembers_eq_ok.mp hmembs
  refine ⟨?_, ?_, fun id => ?_⟩
  · rw [forall_mem_cons]
    exact ⟨hroot, fun member hmemb => (mem_walk hbelow hmemb).1⟩
  · rw [map_cons, nodup_cons]
    refine ⟨fun hmem => ?_, nodup_walk hbelow⟩
    obtain ⟨member, hmemb, hid⟩ := mem_map.mp hmem
    obtain ⟨_, child, hchild, hins⟩ := mem_walk hbelow hmemb
    have hid : member.nodeId = root.1 := hid
    exact walk_acyclic hbelow hchild (hid ▸ hins)
  · rw [map_cons, mem_cons]
    constructor
    · intro hins
      rcases hins.eq_or_child with rfl | ⟨child, hchild, hins⟩
      · exact .inl rfl
      · exact .inr (mem_walk_of_inside hbelow hchild hins)
    · rintro (rfl | hmem)
      · exact .self
      · obtain ⟨member, hmemb, rfl⟩ := mem_map.mp hmem
        obtain ⟨_, child, hchild, hins⟩ := mem_walk hbelow hmemb
        exact Inside.trans (.under hchild .self) hins

/-! ### Plans -/

/-- The plan moves the subtree of a node of the tables. -/
def Planned (tables : Tables) (plan : Plan) : Prop :=
  ∃ root : JsStr × NodeRow, tables.nodes.get? root.1 = some root.2 ∧ plan.fromUri = root.2.uri ∧
    subtreeMembers tables root = .ok plan.members

theorem Planned.get? {plan : Plan} (hplann : Planned tables plan) {member : Member}
    (hmemb : member ∈ plan.members) : tables.nodes.get? member.nodeId = some member.node := by
  obtain ⟨root, hroot, _, hmembs⟩ := hplann
  exact (subtreeMembers_spec hroot hmembs).1 member hmemb

theorem Planned.nodup {plan : Plan} (hplann : Planned tables plan) : (plan.members.map Member.nodeId).Nodup := by
  obtain ⟨root, hroot, _, hmembs⟩ := hplann
  exact (subtreeMembers_spec hroot hmembs).2.1

theorem movedIds_append (left right : List Plan) :
    movedIds (left ++ right) = movedIds left ++ movedIds right := flatMap_append

theorem movedIds_singleton (plan : Plan) : movedIds [plan] = plan.members.map Member.nodeId :=
  flatMap_singleton ..

theorem planMoves_eq_ok {moves : List Move} {plans result : List Plan}
    (hplans : planMoves tables moves plans = .ok result) (hplann : ∀ plan ∈ plans, Planned tables plan)
    (hnodup : (movedIds plans).Nodup) : (∀ plan ∈ result, Planned tables plan) ∧ (movedIds result).Nodup ∧
        ∀ plan ∈ result, plan ∈ plans ∨ ∃ move ∈ moves, plan.condition = move.condition := by
  induction moves generalizing plans with
  | nil =>
    obtain rfl := Except.ok.inj hplans
    exact ⟨hplann, hnodup, fun plan hplan => .inl hplan⟩
  | cons move rest ih =>
    rw [planMoves] at hplans
    cases hnode : resolveUri tables move.fromUri with
    | none =>
      rw [hnode] at hplans
      cases hplans
    | some node =>
      rw [hnode] at hplans
      obtain ⟨members, hmembs, hplans⟩ := bind_eq_ok.mp hplans
      cases hover : members.find? fun member => member.nodeId ∈ movedIds plans with
      | some member =>
        rw [hover] at hplans
        cases hplans
      | none =>
        rw [hover] at hplans
        have hnew : Planned tables ⟨node.2.uri, move.toUri, move.condition, members⟩ :=
          ⟨node, (resolveUri_eq_some.mp hnode).1, rfl, hmembs⟩
        have hall : ∀ plan ∈ plans ++ [⟨node.2.uri, move.toUri, move.condition, members⟩],
            Planned tables plan := by
          intro plan hplan
          rcases mem_append.mp hplan with hplan | hplan
          · exact hplann plan hplan
          · exact mem_singleton.mp hplan ▸ hnew
        have hids : (movedIds (plans ++
            [⟨node.2.uri, move.toUri, move.condition, members⟩])).Nodup := by
          rw [movedIds_append, movedIds_singleton]
          refine nodup_append'.mpr ⟨hnodup, hnew.nodup, fun id hold hid => ?_⟩
          obtain ⟨member, hmemb, rfl⟩ := mem_map.mp hid
          have hapart := find?_eq_none.mp hover member hmemb
          exact hapart (decide_eq_true hold)
        obtain ⟨hres, hresul, hcon⟩ := ih hplans hall hids
        refine ⟨hres, hresul, fun plan hplan => ?_⟩
        rcases hcon plan hplan with hplan | ⟨source, hsrc, hcond⟩
        · rcases mem_append.mp hplan with hplan | hplan
          · exact .inl hplan
          · exact .inr ⟨move, mem_cons_self, by rw [mem_singleton.mp hplan]⟩
        · exact .inr ⟨source, mem_cons_of_mem _ hsrc, hcond⟩

theorem checkTargets_eq_ok {sources rewritten uris : List JsStr}
    (hcheck : checkTargets sources rewritten uris = .ok ()) : uris.Nodup ∧ ∀ uri ∈ uris, uri ∉ rewritten := by
  induction uris generalizing rewritten with
  | nil => exact ⟨nodup_nil, nofun⟩
  | cons uri rest ih =>
    rw [checkTargets] at hcheck
    split_ifs at hcheck with hmem
    cases hsrc : sources.find? (isInSubtree uri) with
    | some source =>
      rw [hsrc] at hcheck
      exact nomatch hcheck
    | none =>
      rw [hsrc] at hcheck
      obtain ⟨hnodup, hnew⟩ := ih hcheck
      refine ⟨nodup_cons.mpr ⟨fun hagain => ?_, hnodup⟩, ?_⟩
      · exact hnew uri hagain mem_cons_self
      · rw [forall_mem_cons]
        exact ⟨hmem, fun other hother => fun hold =>
          hnew other hother (mem_cons_of_mem _ hold)⟩

theorem checkPlans_eq_ok {plans : List Plan} (hcheck : checkPlans tables plans = .ok ()) :
    ((plans.filter Plan.changed).flatMap Plan.newUris).Nodup := by
  obtain ⟨_, htar, _⟩ := bind_eq_ok.mp hcheck
  exact (checkTargets_eq_ok htar).1

end PiRp.Memory

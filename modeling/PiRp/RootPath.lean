import PiRp.SqlRelation

/-! Paths in a forest of parent links. The nodes are a list; a node names its parent by the parent's
key, and a parent has a lower rank. Every node has one path from its root, the ranks along a path
increase, and a path can be cut off at any of its nodes. -/

namespace PiRp

open List

/-- How a node names itself and its parent, and its rank. -/
structure ParentLinks (α κ : Type*) where
  key : α → κ
  parent : α → Option κ
  rank : α → Nat

namespace ParentLinks

variable {α κ : Type*} {links : ParentLinks α κ}

/-- The keys are distinct and every parent is a node of a lower rank. -/
structure Rooted (links : ParentLinks α κ) (nodes : List α) : Prop where
  keys : (nodes.map links.key).Nodup
  parents : ∀ node ∈ nodes, ∀ key, links.parent node = some key →
    ∃ parent ∈ nodes, links.key parent = key ∧ links.rank parent < links.rank node

/-- The path from the root to the node with the key. -/
inductive RootPath (links : ParentLinks α κ) (nodes : List α) : Option κ → List α → Prop
  | nil : RootPath links nodes none []
  | concat {node : α} {path : List α} (hnode : node ∈ nodes)
      (hpath : RootPath links nodes (links.parent node) path) :
      RootPath links nodes (some (links.key node)) (path ++ [node])

variable {nodes : List α}

namespace Rooted

theorem eq_of_key (hroot : links.Rooted nodes) {left right : α} (hleft : left ∈ nodes)
    (hright : right ∈ nodes) (hkey : links.key left = links.key right) : left = right :=
  inj_on_of_nodup_map hroot.keys hleft hright hkey

theorem exists_path (hroot : links.Rooted nodes) {node : α} (hnode : node ∈ nodes) :
    ∃ path, links.RootPath nodes (some (links.key node)) path := by
  induction hrank : links.rank node using Nat.strong_induction_on generalizing node with
  | _ rank ih =>
    cases hpar : links.parent node with
    | none => exact ⟨[node], @RootPath.concat _ _ _ _ _ [] hnode (hpar.symm ▸ .nil)⟩
    | some key =>
      obtain ⟨parent, hmem, rfl, hlt⟩ := hroot.parents node hnode key hpar
      obtain ⟨path, hpath⟩ := ih _ (hrank ▸ hlt) hmem rfl
      exact ⟨path ++ [node], .concat hnode (hpar.symm ▸ hpath)⟩

end Rooted

namespace RootPath

variable {leaf : Option κ} {path : List α}

theorem subset (hpath : links.RootPath nodes leaf path) : ∀ node ∈ path, node ∈ nodes := by
  induction hpath with
  | nil => exact fun _ hnode => absurd hnode not_mem_nil
  | concat hnode _ ih =>
    intro other hother
    rcases mem_append.mp hother with hother | hother
    · exact ih other hother
    · exact mem_singleton.mp hother ▸ hnode

theorem mono (hpath : links.RootPath nodes leaf path) {more : List α}
    (hsub : ∀ node ∈ nodes, node ∈ more) : links.RootPath more leaf path := by
  induction hpath with
  | nil => exact .nil
  | concat hnode _ ih => exact .concat (hsub _ hnode) ih

theorem exists_concat {key : κ} (hpath : links.RootPath nodes (some key) path) :
    ∃ node ∈ nodes, ∃ front, path = front ++ [node] ∧ links.key node = key ∧
      links.RootPath nodes (links.parent node) front := by
  cases hpath with
  | concat hnode hfront => exact ⟨_, hnode, _, rfl, rfl, hfront⟩

variable (hroot : links.Rooted nodes)

include hroot

section

variable (hpath : links.RootPath nodes leaf path)

include hpath

theorem increasing : Sql.Increasing links.rank path ∧
      ∀ child ∈ nodes, links.parent child = leaf → ∀ node ∈ path, links.rank node < links.rank child := by
  induction hpath with
  | nil => exact ⟨.nil, fun _ _ _ _ hnode => absurd hnode not_mem_nil⟩
  | @concat node front hnode _ ih =>
    refine ⟨pairwise_append.mpr ⟨ih.1, pairwise_singleton _ _, ?_⟩, ?_⟩
    · intro before hbef last hlast
      exact mem_singleton.mp hlast ▸ ih.2 node hnode rfl before hbef
    · intro child hchild hpar before hbef
      obtain ⟨parent, hmem, hkey, hlt⟩ := hroot.parents child hchild _ hpar
      obtain rfl := hroot.eq_of_key hmem hnode hkey
      rcases mem_append.mp hbef with hbef | hbef
      · exact (ih.2 parent hnode rfl before hbef).trans hlt
      · exact mem_singleton.mp hbef ▸ hlt

theorem keys_nodup : (path.map links.key).Nodup := by
  refine List.Nodup.map_on ?_ (List.Nodup.of_map _ (hpath.increasing hroot).1.nodup_keys)
  intro left hleft right hright hkey
  exact hroot.eq_of_key (hpath.subset left hleft) (hpath.subset right hright) hkey

theorem length_le : path.length ≤ nodes.length :=
  (subperm_of_subset (List.Nodup.of_map _ (hpath.keys_nodup hroot)) hpath.subset).length_le

end

omit hroot in
theorem parent_mem (hpath : links.RootPath nodes leaf path) {node : α} (hnode : node ∈ path)
    {key : κ} (hpar : links.parent node = some key) : ∃ parent ∈ path, links.key parent = key := by
  induction hpath with
  | nil => exact absurd hnode not_mem_nil
  | @concat last front _ hfront ih =>
    have hfound : ∃ parent ∈ front, links.key parent = key := by
      rcases mem_append.mp hnode with hnode | hnode
      · exact ih hnode
      · obtain rfl := mem_singleton.mp hnode
        obtain ⟨parent, _, rest, rfl, hkey, _⟩ := (hpar ▸ hfront).exists_concat
        exact ⟨parent, mem_append_right _ (mem_singleton_self _), hkey⟩
    obtain ⟨parent, hmem, hkey⟩ := hfound
    exact ⟨parent, mem_append_left _ hmem, hkey⟩

theorem rooted (hpath : links.RootPath nodes leaf path) : links.Rooted path where
  keys := hpath.keys_nodup hroot
  parents := by
    intro node hnode key hpar
    obtain ⟨parent, hmem, hkey⟩ := hpath.parent_mem hnode hpar
    obtain ⟨found, hfound, hsame, hlt⟩ := hroot.parents node (hpath.subset node hnode) key hpar
    obtain rfl := hroot.eq_of_key hfound (hpath.subset parent hmem) (hsame.trans hkey.symm)
    exact ⟨found, hmem, hkey, hlt⟩

end RootPath

end ParentLinks

end PiRp

import Mathlib.Data.List.Nodup
import Mathlib.Data.Finset.Card
import Mathlib.Order.Lattice.Nat
import Mathlib.Logic.Function.Iterate

/-! # Rooted trees

A rooted tree given by the parent of each node, and trees with ordered children. A tree
with ordered children spans a node when it lists the nodes below it, each once and each
under its parent.
-/

namespace Checkc.Forest

universe u

variable {α : Type u}

/-- Finitely many nodes that all reach the root along their parents. The root is its own
parent. -/
structure ParentTree (α : Type u) where
  nodes : Finset α
  root : α
  parent : α → α
  root_mem : root ∈ nodes
  parent_root : parent root = root
  parent_mem : ∀ a ∈ nodes, parent a ∈ nodes
  reaches : ∀ a ∈ nodes, ∃ n, parent^[n] a = root

namespace ParentTree

variable (T : ParentTree α) {a b c x : α}

/-- The first node is the second one or one of its ancestors. -/
def Above (a b : α) : Prop := ∃ n, T.parent^[n] b = a

/-- The number of steps to the root. -/
noncomputable def depth (a : α) : ℕ := sInf {n | T.parent^[n] a = T.root}

variable {T}

theorem Above.refl (a : α) : T.Above a a := ⟨0, rfl⟩

theorem Above.step (h : T.Above a (T.parent b)) : T.Above a b :=
  let ⟨n, hn⟩ := h
  ⟨n + 1, hn⟩

theorem above_root (ha : a ∈ T.nodes) : T.Above T.root a := T.reaches a ha

theorem iterate_mem (ha : a ∈ T.nodes) (n : ℕ) : T.parent^[n] a ∈ T.nodes := by
  induction n generalizing a with
  | zero => exact ha
  | succ n ih => exact ih (T.parent_mem a ha)

theorem Above.mem (h : T.Above a b) (hb : b ∈ T.nodes) : a ∈ T.nodes := by
  obtain ⟨n, rfl⟩ := h
  exact iterate_mem hb n

theorem iterate_depth (ha : a ∈ T.nodes) : T.parent^[T.depth a] a = T.root :=
  Nat.sInf_mem (T.reaches a ha)

theorem depth_le {n : ℕ} (h : T.parent^[n] a = T.root) : T.depth a ≤ n := Nat.sInf_le h

@[simp] theorem depth_root : T.depth T.root = 0 := Nat.le_zero.mp (depth_le rfl)

/-- A step to the parent of a node that is not the root decreases the depth by one. -/
theorem depth_parent (ha : a ∈ T.nodes) (hr : a ≠ T.root) :
    T.depth a = T.depth (T.parent a) + 1 := by
  have hd := iterate_depth ha
  refine le_antisymm (depth_le ?_) ?_
  · exact iterate_depth (T.parent_mem a ha)
  · cases h : T.depth a with
    | zero => rw [h] at hd; exact absurd hd hr
    | succ n =>
      rw [h] at hd
      exact Nat.succ_le_succ (depth_le hd)

theorem eq_root_of_parent_eq (ha : a ∈ T.nodes) (h : T.parent a = a) : a = T.root := by
  by_contra hr
  have := depth_parent ha hr
  rw [h] at this
  omega

theorem depth_iterate (ha : a ∈ T.nodes) (n : ℕ) : T.depth (T.parent^[n] a) = T.depth a - n := by
  induction n generalizing a with
  | zero => rfl
  | succ n ih =>
    rw [Function.iterate_succ_apply, ih (T.parent_mem a ha)]
    by_cases hr : a = T.root
    · subst hr; simp [T.parent_root]
    · rw [depth_parent ha hr]; omega

theorem Above.depth_le (h : T.Above a b) (hb : b ∈ T.nodes) : T.depth a ≤ T.depth b := by
  obtain ⟨n, rfl⟩ := h
  rw [depth_iterate hb]
  exact Nat.sub_le _ _

theorem iterate_of_root {m n : ℕ} (h : T.parent^[m] a = T.root) (hmn : m ≤ n) :
    T.parent^[n] a = T.root := by
  obtain ⟨j, rfl⟩ := Nat.exists_eq_add_of_le hmn
  rw [Nat.add_comm, Function.iterate_add_apply, h]
  exact Function.iterate_fixed T.parent_root j

/-- Two ancestors of a node at the same depth are equal. -/
theorem Above.eq_of_depth (ha : T.Above a x) (hb : T.Above b x) (hx : x ∈ T.nodes)
    (h : T.depth a = T.depth b) : a = b := by
  obtain ⟨m, rfl⟩ := ha
  obtain ⟨n, rfl⟩ := hb
  rw [depth_iterate hx, depth_iterate hx] at h
  by_cases hd : m < T.depth x ∨ n < T.depth x
  · rw [show m = n by omega]
  · rw [iterate_of_root (iterate_depth hx) (by omega : _ ≤ m),
      iterate_of_root (iterate_depth hx) (by omega : _ ≤ n)]

/-- A node below another one is that node or lies below one of its children. -/
theorem Above.cases (h : T.Above a x) :
    x = a ∨ ∃ c, c ≠ T.root ∧ T.parent c = a ∧ T.Above c x := by
  obtain ⟨n, hn⟩ := h
  induction n generalizing a with
  | zero => exact Or.inl hn
  | succ n ih =>
    rw [Function.iterate_succ_apply'] at hn
    by_cases hr : T.parent^[n] x = T.root
    · rw [hr, T.parent_root] at hn
      exact ih (hr.trans hn)
    · exact Or.inr ⟨_, hr, hn, n, rfl⟩

/-- A child does not lie above its parent. -/
theorem not_above_parent (hc : c ∈ T.nodes) (hr : c ≠ T.root) : ¬ T.Above c (T.parent c) := by
  intro h
  have := h.depth_le (T.parent_mem c hc)
  rw [depth_parent hc hr] at this
  omega

theorem Above.trans (h : T.Above a b) (h' : T.Above b c) : T.Above a c := by
  obtain ⟨m, rfl⟩ := h
  obtain ⟨n, rfl⟩ := h'
  exact ⟨m + n, Function.iterate_add_apply _ _ _ _⟩

/-- The way to the root visits as many nodes as it has steps, and the root. -/
theorem depth_lt_card (ha : a ∈ T.nodes) : T.depth a < T.nodes.card := by
  have hinj : Set.InjOn (fun n => T.parent^[n] a) (Finset.range (T.depth a + 1)) := by
    intro m hm n hn h
    have hd := congrArg T.depth h
    simp only [depth_iterate ha] at hd
    rw [Finset.mem_coe, Finset.mem_range] at hm hn
    omega
  have := Finset.card_le_card_of_injOn _ (fun n _ => iterate_mem ha n) hinj
  rwa [Finset.card_range] at this

/-- A set of nodes that contains the ancestors of its nodes. -/
structure Closed (T : ParentTree α) (S : α → Prop) : Prop where
  mem : ∀ a, S a → a ∈ T.nodes
  above : ∀ a b, T.Above a b → S b → S a

end ParentTree

/-- Trees with ordered children. -/
inductive OrderedTree (α : Type u) where
  | node (label : α) (children : List (OrderedTree α))

namespace OrderedTree

def label : OrderedTree α → α
  | node a _ => a

def children : OrderedTree α → List (OrderedTree α)
  | node _ cs => cs

/-- The labels in preorder. -/
def labels : OrderedTree α → List α
  | node a cs => a :: cs.flatMap labels

/-- The pairs of a label and a label directly below it. -/
def edges : OrderedTree α → List (α × α)
  | node a cs => cs.map (fun c => (a, c.label)) ++ cs.flatMap edges

theorem labels_node (a : α) (cs : List (OrderedTree α)) :
    (node a cs).labels = a :: cs.flatMap labels := by
  rw [labels]

theorem edges_node (a : α) (cs : List (OrderedTree α)) :
    (node a cs).edges = cs.map (fun c => (a, c.label)) ++ cs.flatMap edges := by
  rw [edges]

/-- Every label but the first is directly below some label. -/
theorem exists_edge_of_mem_labels : (t : OrderedTree α) → ∀ x ∈ t.labels,
    x = t.label ∨ ∃ p, (p, x) ∈ t.edges
  | node a cs, x, hx => by
    rw [labels_node, List.mem_cons, List.mem_flatMap] at hx
    rcases hx with rfl | ⟨t, ht, hx⟩
    · exact Or.inl rfl
    · right
      rw [edges_node]
      rcases exists_edge_of_mem_labels t x hx with rfl | ⟨p, hp⟩
      · exact ⟨a, List.mem_append_left _ (List.mem_map_of_mem ht)⟩
      · exact ⟨p, List.mem_append_right _ (List.mem_flatMap.mpr ⟨t, ht, hp⟩)⟩

/-- The tree lists the nodes with property `S` below `a`. -/
structure Spans (T : ParentTree α) (S : α → Prop) (a : α) (t : OrderedTree α) : Prop where
  label_eq : t.label = a
  nodup : t.labels.Nodup
  mem_labels : ∀ x, x ∈ t.labels ↔ S x ∧ T.Above a x
  edges : ∀ p c, (p, c) ∈ t.edges → p = T.parent c ∧ c ≠ T.root

theorem Spans.parent_edge {T : ParentTree α} {S : α → Prop} {t : OrderedTree α}
    (h : t.Spans T S T.root) {c : α} (hc : c ∈ t.labels) (hr : c ≠ T.root) :
    (T.parent c, c) ∈ t.edges := by
  rcases exists_edge_of_mem_labels t c hc with rfl | ⟨p, hp⟩
  · exact absurd h.label_eq hr
  · rwa [← (h.edges p c hp).1]

/-! ## Spanning a node from its children -/

section

variable {T : ParentTree α} {S : α → Prop} (hS : T.Closed S) {a : α} {cs : List (OrderedTree α)}
  (hmem : ∀ c, c ∈ cs.map label ↔ S c ∧ c ≠ T.root ∧ T.parent c = a)
  (hcs : ∀ t ∈ cs, t.Spans T S t.label)

include hmem in
theorem child_of_mem {t : OrderedTree α} (ht : t ∈ cs) :
    S t.label ∧ t.label ≠ T.root ∧ T.parent t.label = a :=
  (hmem t.label).mp (List.mem_map_of_mem ht)

include hS hmem in
theorem depth_child {t : OrderedTree α} (ht : t ∈ cs) : T.depth t.label = T.depth a + 1 := by
  obtain ⟨hs, hr, hp⟩ := child_of_mem hmem ht
  rw [ParentTree.depth_parent (hS.mem _ hs) hr, hp]

include hS hmem hcs

/-- No node is listed twice, since nodes of equal depth have no common descendant. -/
theorem nodup_labels_node (hnd : (cs.map label).Nodup) : (node a cs).labels.Nodup := by
  rw [labels_node, List.nodup_cons, List.mem_flatMap, List.nodup_flatMap]
  refine ⟨?_, fun t ht => (hcs t ht).nodup, ?_⟩
  · rintro ⟨t, ht, hat⟩
    obtain ⟨hs, hr, hp⟩ := child_of_mem hmem ht
    exact ParentTree.not_above_parent (hS.mem _ hs) hr (hp ▸ (((hcs t ht).mem_labels a).mp hat).2)
  · refine (List.pairwise_map.mp hnd).imp_of_mem fun {t t'} ht ht' hne x hx hx' => hne ?_
    obtain ⟨hs, hab⟩ := ((hcs t ht).mem_labels x).mp hx
    obtain ⟨-, hab'⟩ := ((hcs t' ht').mem_labels x).mp hx'
    apply hab.eq_of_depth hab' (hS.mem x hs)
    rw [depth_child hS hmem ht, depth_child hS hmem ht']

theorem mem_labels_node (ha : S a) (x : α) : x ∈ (node a cs).labels ↔ S x ∧ T.Above a x := by
  rw [labels_node, List.mem_cons, List.mem_flatMap]
  constructor
  · rintro (rfl | ⟨t, ht, hx⟩)
    · exact ⟨ha, .refl _⟩
    · obtain ⟨hs, n, hn⟩ := ((hcs t ht).mem_labels x).mp hx
      refine ⟨hs, n + 1, ?_⟩
      rw [Function.iterate_succ_apply', hn, (child_of_mem hmem ht).2.2]
  · rintro ⟨hs, hab⟩
    rcases hab.cases with rfl | ⟨c, hr, hp, hc⟩
    · exact Or.inl rfl
    · have hSc : S c := hS.above c x hc hs
      obtain ⟨t, ht, rfl⟩ := List.mem_map.mp ((hmem c).mpr ⟨hSc, hr, hp⟩)
      exact Or.inr ⟨t, ht, ((hcs t ht).mem_labels x).mpr ⟨hs, hc⟩⟩

/-- Trees that span the children of a node make a tree that spans the node. -/
theorem Spans.node (ha : S a) (hnd : (cs.map label).Nodup) :
    (OrderedTree.node a cs).Spans T S a where
  label_eq := rfl
  nodup := nodup_labels_node hS hmem hcs hnd
  mem_labels := mem_labels_node hS hmem hcs ha
  edges p c h := by
    rw [edges_node, List.mem_append, List.mem_map, List.mem_flatMap] at h
    rcases h with ⟨t, ht, he⟩ | ⟨t, ht, he⟩
    · obtain ⟨rfl, rfl⟩ := Prod.mk.inj he
      obtain ⟨-, hr, hp⟩ := child_of_mem hmem ht
      exact ⟨hp.symm, hr⟩
    · exact (hcs t ht).edges p c he

end

end OrderedTree

end Checkc.Forest

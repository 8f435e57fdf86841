import Checkc.Forest.Basic
import Mathlib.Data.List.Chain

/-! # Simple paths

The paths of a tree are the sequences of labels on the ways from its root down to its nodes.
A tree unfolds a relation when its paths are the simple paths along the relation, that is,
those without repetition.
-/

namespace Checkc.Forest

universe u

variable {α : Type u}

/-- A path from `a` along the relation on which nothing occurs twice. -/
structure SimplePath (r : α → α → Prop) (a : α) (p : List α) : Prop where
  head : p.head? = some a
  chain : p.IsChain r
  nodup : p.Nodup

/-- The relation without the pairs that lead to `a`. -/
def Avoiding (r : α → α → Prop) (a x y : α) : Prop := r x y ∧ y ≠ a

section

variable {r : α → α → Prop} {a c : α} {p : List α}

theorem isChain_avoiding_iff :
    (c :: p).IsChain (Avoiding r a) ↔ (c :: p).IsChain r ∧ a ∉ p := by
  induction p generalizing c with
  | nil => simp
  | cons b p ih =>
    rw [List.isChain_cons_cons, List.isChain_cons_cons, ih, List.mem_cons, Avoiding]
    have hab : b ≠ a ↔ ¬ a = b := ne_comm
    tauto

/-- A simple path is a single node, or a step followed by a simple path that avoids it. -/
theorem simplePath_cons_iff : SimplePath r a (a :: p) ↔
    p = [] ∨ ∃ c, Avoiding r a a c ∧ SimplePath (Avoiding r a) c p := by
  cases p with
  | nil => exact iff_of_true ⟨rfl, .singleton a, List.nodup_singleton a⟩ (Or.inl rfl)
  | cons c p =>
    constructor
    · rintro ⟨-, hc, hn⟩
      rw [List.isChain_cons_cons] at hc
      rw [List.nodup_cons, List.mem_cons, not_or] at hn
      refine Or.inr ⟨c, ⟨hc.1, Ne.symm hn.1.1⟩, rfl, ?_, hn.2⟩
      exact isChain_avoiding_iff.mpr ⟨hc.2, hn.1.2⟩
    · rintro (h | ⟨c', ⟨hr, hne⟩, hh, hc, hn⟩)
      · cases h
      · obtain rfl : c = c' := Option.some.inj hh
        rw [isChain_avoiding_iff] at hc
        refine ⟨rfl, .cons_cons hr hc.1, List.nodup_cons.mpr ⟨?_, hn⟩⟩
        rw [List.mem_cons, not_or]
        exact ⟨Ne.symm hne, hc.2⟩

theorem SimplePath.exists_eq_cons (h : SimplePath r a p) : ∃ q, p = a :: q := by
  cases p with
  | nil => cases h.head
  | cons b q =>
    obtain rfl : b = a := Option.some.inj h.head
    exact ⟨q, rfl⟩

end

namespace OrderedTree

/-- The labels on the ways from the root to each node. -/
def paths : OrderedTree α → List (List α)
  | node a cs => [a] :: (cs.flatMap paths).map (a :: ·)

theorem paths_node (a : α) (cs : List (OrderedTree α)) :
    (node a cs).paths = [a] :: (cs.flatMap paths).map (a :: ·) := by
  rw [paths]

/-- Siblings have distinct labels everywhere in the tree. -/
inductive SiblingsDistinct : OrderedTree α → Prop
  | node {a : α} {cs : List (OrderedTree α)} : (cs.map label).Nodup →
      (∀ t ∈ cs, SiblingsDistinct t) → SiblingsDistinct (node a cs)

theorem siblingsDistinct_node_iff {a : α} {cs : List (OrderedTree α)} :
    (node a cs).SiblingsDistinct ↔ (cs.map label).Nodup ∧ ∀ t ∈ cs, t.SiblingsDistinct :=
  ⟨fun | .node hnd hcs => ⟨hnd, hcs⟩, fun ⟨hnd, hcs⟩ => .node hnd hcs⟩

theorem head?_of_mem_paths : (t : OrderedTree α) → ∀ p ∈ t.paths, p.head? = some t.label
  | node a cs, p, hp => by
    rw [paths_node, List.mem_cons, List.mem_map] at hp
    rcases hp with rfl | ⟨q, -, rfl⟩ <;> rfl

theorem nil_notMem_paths (t : OrderedTree α) : [] ∉ t.paths :=
  fun h => by cases head?_of_mem_paths t [] h

/-- If siblings are distinct, then different nodes are reached on different ways. -/
theorem SiblingsDistinct.nodup_paths {t : OrderedTree α} (h : t.SiblingsDistinct) :
    t.paths.Nodup := by
  induction h with
  | @node a cs hnd _ ih =>
    rw [paths_node, List.nodup_cons, List.mem_map]
    refine ⟨?_, List.Nodup.map List.cons_injective (List.nodup_flatMap.mpr ⟨ih, ?_⟩)⟩
    · rintro ⟨q, hq, he⟩
      obtain ⟨t, -, ht⟩ := List.mem_flatMap.mp hq
      obtain rfl : q = [] := (List.cons.inj he).2
      exact t.nil_notMem_paths ht
    · refine (List.pairwise_map.mp hnd).imp fun hne p hp hp' => hne ?_
      rw [← Option.some.injEq, ← head?_of_mem_paths _ p hp, ← head?_of_mem_paths _ p hp']

/-- The paths of the tree are the simple paths from `a` along the relation. -/
structure Unfolds (r : α → α → Prop) (a : α) (t : OrderedTree α) : Prop where
  distinct : t.SiblingsDistinct
  mem_paths : ∀ p, p ∈ t.paths ↔ SimplePath r a p

/-- Trees that unfold the steps from a node without the way back make a tree that unfolds the
relation from the node. -/
theorem Unfolds.node {r : α → α → Prop} {a : α} {cs : List (OrderedTree α)}
    (hnd : (cs.map label).Nodup) (hmem : ∀ c, c ∈ cs.map label ↔ Avoiding r a a c)
    (hcs : ∀ t ∈ cs, t.Unfolds (Avoiding r a) t.label) : (node a cs).Unfolds r a where
  distinct := .node hnd fun t ht => (hcs t ht).distinct
  mem_paths p := by
    rw [paths_node, List.mem_cons, List.mem_map]
    constructor
    · rintro (rfl | ⟨q, hq, rfl⟩)
      · exact simplePath_cons_iff.mpr (Or.inl rfl)
      · obtain ⟨t, ht, hq⟩ := List.mem_flatMap.mp hq
        exact simplePath_cons_iff.mpr (Or.inr ⟨t.label,
          (hmem _).mp (List.mem_map_of_mem ht), ((hcs t ht).mem_paths q).mp hq⟩)
    · intro h
      obtain ⟨q, rfl⟩ := h.exists_eq_cons
      rcases simplePath_cons_iff.mp h with rfl | ⟨c, hc, hq⟩
      · exact Or.inl rfl
      · obtain ⟨t, ht, rfl⟩ := List.mem_map.mp ((hmem c).mpr hc)
        exact Or.inr ⟨q, List.mem_flatMap.mpr ⟨t, ht, ((hcs t ht).mem_paths q).mpr hq⟩, rfl⟩

end OrderedTree

end Checkc.Forest

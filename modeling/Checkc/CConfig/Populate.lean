import Checkc.CConfig.Hierarchy
import Checkc.Forest.Paths

/-! # Hierarchies of arbitrary pairs

Whatever the pairs of a parent and a namespace are, populating a hierarchy ends and lists the
simple paths along them. The pairs may be repeated, name several parents for one namespace,
or lead in circles.
-/

namespace Checkc.Ns.Internal

open Forest

/-- The relation that a list of pairs of a parent and a namespace stands for. -/
def Listed (idMap : List (Id × Id)) (parent child : Id) : Prop := (parent, child) ∈ idMap

theorem listed_removeId (self : Id) (idMap : List (Id × Id)) :
    Listed (removeId self idMap) = Avoiding (Listed idMap) self := by
  ext parent child
  exact mem_removeId

/-- Each level removes the pairs that lead back, so that the branches unfold what is left. -/
theorem populate_unfolds (env : Env) (self : Id) (idMap : List (Id × Id)) :
    (populate env self idMap).Unfolds (Listed idMap) self := by
  induction hn : (removeId self idMap).length using Nat.strong_induction_on
    generalizing self idMap with
  | _ n ih =>
  have hnd := HashSet.nodup_iter env.σ "populate" (childIds self (removeId self idMap))
  rw [populate_eq, collect_of_nodup (by rwa [map_label_populate])]
  apply OrderedTree.Unfolds.node
  · rwa [map_label_populate]
  · intro c
    rw [map_label_populate, HashSet.mem_iter, mem_childIds, ← listed_removeId, Listed]
  · intro t ht
    obtain ⟨c, hc, rfl⟩ := List.mem_map.mp ht
    rw [HashSet.mem_iter] at hc
    rw [label_populate, ← listed_removeId]
    refine ih _ ?_ c (removeId self idMap) rfl
    rw [← hn]
    exact List.length_filter_lt_length_iff_exists.mpr ⟨_, mem_childIds.mp hc, by simp⟩

/-- Populating lists exactly the simple paths from the root, each at a node of its own. -/
theorem populate_paths (env : Env) (root : Id) (idMap : List (Id × Id)) :
    (populate env root idMap).SiblingsDistinct ∧ (populate env root idMap).paths.Nodup ∧
      ∀ p, p ∈ (populate env root idMap).paths ↔
        p.head? = some root ∧ p.IsChain (fun parent child => (parent, child) ∈ idMap) ∧
          p.Nodup := by
  have h := populate_unfolds env root idMap
  refine ⟨h.distinct, h.distinct.nodup_paths, fun p => (h.mem_paths p).trans ?_⟩
  exact ⟨fun hp => ⟨hp.head, hp.chain, hp.nodup⟩, fun ⟨hh, hc, hn⟩ => ⟨hh, hc, hn⟩⟩

end Checkc.Ns.Internal

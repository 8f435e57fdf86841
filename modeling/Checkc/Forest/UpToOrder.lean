import Checkc.Rust.Outcome
import Checkc.Forest.Paths
import Mathlib.Data.List.Perm.Basic
import Mathlib.Data.List.Nodup

/-! # Trees up to the order of children

Two trees correspond if related labels stand at corresponding nodes, where the children of a
node may be permuted. A permutation moves past a correspondence, so that correspondences
compose.
-/

namespace Checkc.Forest

universe u

variable {α β γ : Type u}

/-- Relations element by element compose if the steps do at each element of the first list. -/
theorem forall₂_trans_of_mem {R : α → β → Prop} {S : β → γ → Prop} {T : α → γ → Prop}
    {l : List α} {m : List β} {n : List γ} (hlm : List.Forall₂ R l m) (hmn : List.Forall₂ S m n)
    (hT : ∀ a ∈ l, ∀ b c, R a b → S b c → T a c) : List.Forall₂ T l n := by
  induction hlm generalizing n with
  | nil =>
    cases hmn
    exact .nil
  | cons hab _ ih =>
    obtain ⟨c, n, hbc, hn, rfl⟩ := List.forall₂_cons_left_iff.mp hmn
    rw [List.forall_mem_cons] at hT
    exact .cons (hT.1 _ _ hab hbc) (ih hn hT.2)

theorem forall₂_imp_of_mem {R S : α → β → Prop} {l : List α} {m : List β}
    (h : List.Forall₂ R l m) (hS : ∀ a ∈ l, ∀ b, R a b → S a b) : List.Forall₂ S l m := by
  refine forall₂_trans_of_mem (List.forall₂_same.mpr fun a _ => rfl) h fun a ha b c hab hbc => ?_
  subst hab
  exact hS a ha c hbc

namespace OrderedTree

/-- The trees have related labels, up to the order of the children of each node. -/
inductive UpToOrder (R : α → β → Prop) : OrderedTree α → OrderedTree β → Prop
  | node {a : α} {b : β} {cs ds : List (OrderedTree α)} {es : List (OrderedTree β)} :
      R a b → cs.Perm ds → List.Forall₂ (UpToOrder R) ds es →
      UpToOrder R (node a cs) (node b es)

namespace UpToOrder

variable {R : α → β → Prop}

/-- The children may just as well be permuted in the second tree. -/
theorem of_forall₂_perm {a : α} {b : β} {cs : List (OrderedTree α)} {ds es : List (OrderedTree β)}
    (hab : R a b) (hcs : List.Forall₂ (UpToOrder R) cs ds) (hp : ds.Perm es) :
    UpToOrder R (.node a cs) (.node b es) := by
  have hcomp : Relation.Comp (List.Forall₂ (UpToOrder R)) List.Perm cs es := ⟨ds, hcs, hp⟩
  rw [List.forall₂_comp_perm_eq_perm_comp_forall₂] at hcomp
  obtain ⟨cs', hp', hcs'⟩ := hcomp
  exact .node hab hp' hcs'

theorem label {t : OrderedTree α} {u : OrderedTree β} (h : UpToOrder R t u) :
    R t.label u.label := by
  cases h with
  | node hab _ _ => exact hab

theorem forall₂_label {ts : List (OrderedTree α)} {us : List (OrderedTree β)}
    (h : List.Forall₂ (UpToOrder R) ts us) :
    List.Forall₂ R (ts.map OrderedTree.label) (us.map OrderedTree.label) := by
  rw [List.forall₂_map_left_iff, List.forall₂_map_right_iff]
  exact h.imp fun _ _ => label

theorem trans {S : β → γ → Prop} {T : α → γ → Prop} (hT : ∀ a b c, R a b → S b c → T a c) :
    (t : OrderedTree α) → ∀ {u v}, UpToOrder R t u → UpToOrder S u v → UpToOrder T t v
  | .node a cs, _, _, .node hab hcs hds, .node hbc hes hfs => by
    obtain ⟨ds, hds', hp⟩ := List.perm_comp_forall₂ hes.symm hds.flip
    refine .node (hT _ _ _ hab hbc) (hcs.trans hp.symm)
      (forall₂_trans_of_mem hds'.flip hfs fun c hc _ _ h h' => ?_)
    have hmem : c ∈ cs := (hcs.trans hp.symm).mem_iff.mpr hc
    exact trans hT c h h'

/-- Each label of the second tree is related to one of the first tree. -/
theorem exists_mem_labels : (t : OrderedTree α) → ∀ {u}, UpToOrder R t u →
    ∀ b ∈ u.labels, ∃ a ∈ t.labels, R a b
  | .node a cs, _, .node hab hcs hds, x, hx => by
    rw [labels_node, List.mem_cons, List.mem_flatMap] at hx
    simp only [labels_node, List.mem_cons, List.mem_flatMap]
    rcases hx with rfl | ⟨u, hu, hx⟩
    · exact ⟨a, Or.inl rfl, hab⟩
    · obtain ⟨c, hc, hcu⟩ := exists_mem_of_forall₂ hds hu
      have hmem : c ∈ cs := hcs.mem_iff.mpr hc
      obtain ⟨y, hy, hyx⟩ := exists_mem_labels c hcu x hx
      exact ⟨y, Or.inr ⟨c, hmem, hy⟩, hyx⟩

/-- Siblings stay distinct when labels correspond one to one. -/
theorem siblingsDistinct (hR : Relator.BiUnique R) : (t : OrderedTree α) → ∀ {u},
    UpToOrder R t u → t.SiblingsDistinct → u.SiblingsDistinct
  | .node a cs, _, .node hab hcs hds, .node hnd hdistinct => by
    constructor
    · rw [(hcs.map OrderedTree.label).nodup_iff] at hnd
      exact (List.rel_nodup hR (forall₂_label hds)).mp hnd
    · intro u hu
      obtain ⟨c, hc, hcu⟩ := exists_mem_of_forall₂ hds hu
      have hmem : c ∈ cs := hcs.mem_iff.mpr hc
      exact siblingsDistinct hR c hcu (hdistinct c hmem)

end UpToOrder

end OrderedTree

end Checkc.Forest

import Checkc.CConfig.Populate
import Checkc.Forest.UpToOrder

/-! # Reading hierarchies back

The hierarchies of a report are converted back to sets of hierarchies, in which siblings with
the same `parent_id` are taken for equal. If siblings differ, then nothing is lost on either
way.
-/

namespace Checkc.Ns

open Forest OrderedTree

open Outcome (bind_eq_ok pure_eq_ok)

/-- `HashSet::insert`: a hierarchy with the `parent_id` of an element is not inserted. -/
def Internal.insert (set : List Internal.Hierarchy) (h : Internal.Hierarchy) :
    List Internal.Hierarchy :=
  if h.label ∈ set.map OrderedTree.label then set else set ++ [h]

namespace Hierarchy

/-- A node of the message without its `parent`. -/
def parentNotSet : Error := .conversionFailed "c_config::ns::hierarchy: field parent not set"

mutual

/-- `Hierarchy::try_into`. -/
def tryInto : Hierarchy → Result Internal.Hierarchy
  | .mk (some parentId) children => do
    let set ← insertAll [] children
    pure (.node parentId set)
  | .mk none _ => .err parentNotSet

/-- The loop over the children. -/
def insertAll (set : List Internal.Hierarchy) : List Hierarchy → Result (List Internal.Hierarchy)
  | [] => pure set
  | child :: children => do
    let h ← tryInto child
    insertAll (Internal.insert set h) children

end

/-- The tree of the `parent` fields. -/
def toTree : Hierarchy → OrderedTree (Option Id)
  | .mk parent children => .node parent (children.map toTree)

theorem toTree_mk (parent : Option Id) (children : List Hierarchy) :
    (mk parent children).toTree = .node parent (children.map toTree) := by
  rw [toTree]

theorem fromInternal_node (env : Env) (parentId : Id) (children : List Internal.Hierarchy) :
    fromInternal env (.node parentId children) =
      .mk (some parentId) (env.σ.order "hierarchy" (children.map (fromInternal env))) := by
  rw [fromInternal]

theorem insertAll_eq_foldlM (children : List Hierarchy) (set : List Internal.Hierarchy) :
    insertAll set children = children.foldlM (fun set child => do
      let h ← child.tryInto
      pure (Internal.insert set h)) set := by
  induction children generalizing set with
  | nil => rfl
  | cons child children ih =>
    rw [insertAll, List.foldlM_cons]
    cases tryInto child with
    | ok h => exact ih _
    | err e => rfl
    | panic m => rfl
    | outOfFuel => rfl

/-- The children are converted one by one and collected. -/
theorem tryInto_eq_ok {parentId : Id} {children : List Hierarchy} {t : Internal.Hierarchy} :
    (mk (some parentId) children).tryInto = .ok t ↔
      ∃ hs, List.Forall₂ (fun c h => tryInto c = .ok h) children hs ∧
        t = .node parentId (Internal.collect hs) := by
  simp only [tryInto, insertAll_eq_foldlM, bind_eq_ok, pure_eq_ok, foldlM_bind_eq_ok]
  constructor
  · rintro ⟨_, ⟨hs, hhs, rfl⟩, rfl⟩
    exact ⟨hs, hhs, rfl⟩
  · rintro ⟨hs, hhs, rfl⟩
    exact ⟨_, ⟨hs, hhs, rfl⟩, rfl⟩

/-- Reading back succeeds if every node has its `parent`, and fails otherwise. -/
theorem tryInto_ok_or_err : (h : Hierarchy) →
    (none ∉ h.toTree.labels ∧ ∃ t, h.tryInto = .ok t) ∨
      (none ∈ h.toTree.labels ∧ h.tryInto = .err parentNotSet)
  | .mk none children => Or.inr ⟨by simp [toTree_mk, labels_node], by rw [tryInto]⟩
  | .mk (some parentId) children => by
    have ih : ∀ c ∈ children, (none ∉ c.toTree.labels ∧ ∃ t, c.tryInto = .ok t) ∨
        (none ∈ c.toTree.labels ∧ c.tryInto = .err parentNotSet) :=
      fun c _ => tryInto_ok_or_err c
    have hnone : none ∈ (mk (some parentId) children).toTree.labels ↔
        ∃ c ∈ children, none ∈ c.toTree.labels := by
      simp [toTree_mk, labels_node]
    rw [hnone]
    by_cases h : ∃ c ∈ children, none ∈ c.toTree.labels
    · refine Or.inr ⟨h, ?_⟩
      obtain ⟨c, hc, hmem⟩ := h
      have herr := ((ih c hc).resolve_left fun hn => hn.1 hmem).2
      rw [tryInto, insertAll_eq_foldlM, foldlM_bind_eq_err
        (fun c hc => (ih c hc).imp And.right And.right) ⟨c, hc, herr⟩]
      rfl
    · refine Or.inl ⟨h, ?_⟩
      push Not at h
      obtain ⟨hs, hhs⟩ := exists_forall₂ fun c hc =>
        ((ih c hc).resolve_right fun hn => h c hc hn.1).2
      exact ⟨_, tryInto_eq_ok.mpr ⟨hs, hhs, rfl⟩⟩

theorem biUnique_some : Relator.BiUnique fun (a : Id) (o : Option Id) => o = some a :=
  ⟨fun _ _ _ h h' => Option.some.inj (h.symm.trans h'), fun _ _ _ h h' => h.trans h'.symm⟩

/-- If siblings differ, then none of them is taken for another. -/
theorem toTree_upToOrder : (h : Hierarchy) → ∀ {t}, h.toTree.SiblingsDistinct →
    h.tryInto = .ok t → UpToOrder (fun o a => o = some a) h.toTree t
  | .mk none children, t, _, ht => by
    rw [tryInto] at ht
    cases ht
  | .mk (some parentId) children, t, hd, ht => by
    obtain ⟨hs, hhs, rfl⟩ := tryInto_eq_ok.mp ht
    rw [toTree_mk] at hd ⊢
    obtain ⟨hnd, hdistinct⟩ := siblingsDistinct_node_iff.mp hd
    rw [List.forall_mem_map] at hdistinct
    have hall : List.Forall₂ (UpToOrder fun o a => o = some a) (children.map toTree) hs := by
      rw [List.forall₂_map_left_iff]
      exact forall₂_imp_of_mem hhs fun c hc h hch => toTree_upToOrder c (hdistinct c hc) hch
    have hnd' : (hs.map OrderedTree.label).Nodup :=
      (List.rel_nodup biUnique_some (UpToOrder.forall₂_label hall).flip).mpr hnd
    rw [Internal.collect_of_nodup hnd']
    exact .of_forall₂_perm rfl hall (.refl hs)

/-- The message lists the same tree. -/
theorem upToOrder_fromInternal (env : Env) : (t : Internal.Hierarchy) →
    UpToOrder (fun a o => o = some a) t (fromInternal env t).toTree
  | .node parentId children => by
    rw [fromInternal_node, toTree_mk]
    have hchildren : List.Forall₂ (UpToOrder fun a o => o = some a) children
        ((children.map (fromInternal env)).map toTree) := by
      rw [List.map_map, List.forall₂_map_right_iff, List.forall₂_same]
      exact fun c _ => upToOrder_fromInternal env c
    exact .of_forall₂_perm rfl hchildren ((env.σ.perm "hierarchy" _).map toTree).symm

/-- Hierarchies whose siblings differ survive the way to the message and back, and messages whose
siblings differ the way back and forth, up to the order of children. A message is read back unless
some node has no `parent`. -/
theorem round_trips (env : Env) :
    (∀ t : Internal.Hierarchy, t.SiblingsDistinct →
      ∃ t', (fromInternal env t).tryInto = .ok t' ∧ t.UpToOrder (· = ·) t') ∧
    (∀ h : Hierarchy, (none ∉ h.toTree.labels → ∃ t, h.tryInto = .ok t) ∧
      (none ∈ h.toTree.labels → h.tryInto = .err parentNotSet)) ∧
    ∀ (h : Hierarchy) (t : Internal.Hierarchy), h.toTree.SiblingsDistinct → h.tryInto = .ok t →
      h.toTree.UpToOrder (· = ·) (fromInternal env t).toTree := by
  refine ⟨fun t ht => ?_, fun h => ⟨fun hn => ?_, fun hn => ?_⟩, fun h t hd ht => ?_⟩
  · have hmsg := upToOrder_fromInternal env t
    have hset : none ∉ (fromInternal env t).toTree.labels := by
      intro hn
      obtain ⟨a, -, ha⟩ := hmsg.exists_mem_labels _ _ hn
      cases ha
    obtain ⟨t', ht'⟩ := ((tryInto_ok_or_err _).resolve_right fun h => hset h.1).2
    have hback := toTree_upToOrder _ (hmsg.siblingsDistinct biUnique_some _ ht) ht'
    exact ⟨t', ht', hmsg.trans (fun a o b h h' => Option.some.inj (h.symm.trans h')) _ hback⟩
  · exact ((tryInto_ok_or_err h).resolve_right fun h' => hn h'.1).2
  · exact ((tryInto_ok_or_err h).resolve_left fun h' => h'.1 hn).2
  · exact (toTree_upToOrder h hd ht).trans (fun o a o' h h' => h.trans h'.symm) _
      (upToOrder_fromInternal env t)

/-- Two namespaces below the root, one of which has a namespace below it. -/
def forked : Internal.Hierarchy := .node ⟨4, 1⟩ [.node ⟨4, 2⟩ [.node ⟨4, 4⟩ []], .node ⟨4, 3⟩ []]

/-- The message of two namespaces below the root. -/
def forkedMessage : Hierarchy := .mk (some ⟨4, 1⟩) [.mk (some ⟨4, 2⟩) [], .mk (some ⟨4, 3⟩) []]

theorem round_trips_forked :
    (∃ t', (fromInternal .reversing forked).tryInto = .ok t' ∧ forked.UpToOrder (· = ·) t') ∧
    (∃ t, forkedMessage.tryInto = .ok t) ∧
    (mk (some ⟨4, 1⟩) [.mk none []]).tryInto = .err parentNotSet ∧
    forkedMessage.toTree.UpToOrder (· = ·) (fromInternal .reversing
      (.node ⟨4, 1⟩ [.node ⟨4, 2⟩ [], .node ⟨4, 3⟩ []])).toTree := by
  have hdistinct : forked.SiblingsDistinct := by
    simp [forked, siblingsDistinct_node_iff, OrderedTree.label]
  have hmessage : forkedMessage.toTree.SiblingsDistinct := by
    simp [forkedMessage, toTree_mk, siblingsDistinct_node_iff, OrderedTree.label]
  exact ⟨(round_trips .reversing).1 forked hdistinct,
    ((round_trips .reversing).2.1 forkedMessage).1 (by
      simp [forkedMessage, toTree_mk, labels_node]),
    ((round_trips .reversing).2.1 _).2 (by simp [toTree_mk, labels_node]),
    (round_trips .reversing).2.2 forkedMessage _ hmessage rfl⟩

end Hierarchy

end Checkc.Ns

import Checkc.Rust.Outcome
import Mathlib.Data.List.AList
import Mathlib.Data.List.Dedup
import Mathlib.Data.Finset.Dedup
import Mathlib.Data.Finset.Lattice.Basic

/-! # Hash sets and hash maps

A hash set is a list without repetition and a hash map is an association list
with distinct keys. The order in which such a collection is traversed is not
specified, so every traversal goes through a `Traversal`, which may permute the
elements in any way and differently at every place of the program.
-/

namespace Checkc

variable {α β κ : Type}

/-- The iteration orders of the hash collections of one run, by the place of the traversal. -/
structure Traversal where
  order : String → {α : Type} → List α → List α
  perm : ∀ site {α : Type} (l : List α), (order site l).Perm l

/-- The traversal in order of insertion. -/
def Traversal.insertion : Traversal where
  order _ _ l := l
  perm _ _ l := .refl l

/-- The traversal against the order of insertion. -/
def Traversal.reversing : Traversal where
  order _ _ l := l.reverse
  perm _ _ l := l.reverse_perm

theorem exists_of_rel_some {R : α → β → Prop} {a : α} {o : Option β}
    (h : Option.Rel R (some a) o) : ∃ b, o = some b ∧ R a b := by
  cases h with
  | some h => exact ⟨_, rfl, h⟩

theorem exists_of_some_rel {R : α → β → Prop} {b : β} {o : Option α}
    (h : Option.Rel R o (some b)) : ∃ a, o = some a ∧ R a b := by
  cases h with
  | some h => exact ⟨_, rfl, h⟩

theorem exists_mem_iff_of_rel {R : α → β → Prop} {P : α → Prop} {Q : β → Prop} {o : Option α}
    {o' : Option β} (h : Option.Rel R o o') (hPQ : ∀ a b, R a b → (P a ↔ Q b)) :
    (∃ a ∈ o, P a) ↔ ∃ b ∈ o', Q b := by
  cases h with
  | none => simp
  | some h => simpa using hPQ _ _ h

/-- Lists that are related element by element are related as multisets. -/
theorem rel_of_forall₂ {R : α → β → Prop} {l : List α} {l' : List β} (h : List.Forall₂ R l l') :
    Multiset.Rel R (l : Multiset α) (l' : Multiset β) := by
  induction h with
  | nil => exact .zero
  | cons hab _ ih => exact .cons hab ih

/-- A set of distinct elements. -/
structure HashSet (α : Type) where
  elems : List α
  nodup : elems.Nodup

namespace HashSet

instance : Membership α (HashSet α) := ⟨fun s a => a ∈ s.elems⟩

theorem mem_def {s : HashSet α} {a : α} : a ∈ s ↔ a ∈ s.elems := Iff.rfl

instance [DecidableEq α] (a : α) (s : HashSet α) : Decidable (a ∈ s) :=
  inferInstanceAs (Decidable (a ∈ s.elems))

instance : EmptyCollection (HashSet α) := ⟨⟨[], List.nodup_nil⟩⟩

@[simp] theorem not_mem_empty (a : α) : a ∉ (∅ : HashSet α) := List.not_mem_nil

/-- `HashSet::is_empty`. -/
def isEmpty (s : HashSet α) : Bool := s.elems.isEmpty

@[simp] theorem isEmpty_iff {s : HashSet α} : s.isEmpty = true ↔ ∀ a, a ∉ s := by
  simp [isEmpty, mem_def, List.eq_nil_iff_forall_not_mem]

variable [DecidableEq α]

/-- `HashSet::insert`: an element that is already present stays as it is. -/
def insert (s : HashSet α) (a : α) : HashSet α :=
  if h : a ∈ s.elems then s
  else ⟨s.elems ++ [a], List.nodup_append.mpr ⟨s.nodup, List.nodup_singleton a, by
    rintro b hb _ hc rfl
    exact h (List.mem_singleton.mp hc ▸ hb)⟩⟩

@[simp] theorem mem_insert {s : HashSet α} {a b : α} : b ∈ s.insert a ↔ b ∈ s ∨ b = a := by
  unfold insert
  split
  · case isTrue h => exact ⟨Or.inl, fun hb => hb.elim id (fun he => he ▸ h)⟩
  · simp [mem_def]

/-- `HashSet::extend`. -/
def extend (s : HashSet α) (l : List α) : HashSet α := l.foldl insert s

@[simp] theorem mem_extend {s : HashSet α} {l : List α} {a : α} :
    a ∈ s.extend l ↔ a ∈ s ∨ a ∈ l := by
  induction l generalizing s with
  | nil => simp [extend]
  | cons b l ih =>
    change a ∈ (s.insert b).extend l ↔ _
    rw [ih, mem_insert, List.mem_cons, or_assoc]

/-- `HashSet::from` and `collect`. -/
def ofList (l : List α) : HashSet α := (∅ : HashSet α).extend l

@[simp] theorem mem_ofList {l : List α} {a : α} : a ∈ ofList l ↔ a ∈ l := by
  simp [ofList]

/-- `HashSet::intersection`. -/
def inter (s t : HashSet α) : HashSet α :=
  ⟨s.elems.filter (· ∈ t), s.nodup.filter _⟩

@[simp] theorem mem_inter {s t : HashSet α} {a : α} : a ∈ s.inter t ↔ a ∈ s ∧ a ∈ t := by
  simp [inter, mem_def]

/-- `HashSet::difference`. -/
def difference (s t : HashSet α) : HashSet α :=
  ⟨s.elems.filter (· ∉ t), s.nodup.filter _⟩

@[simp] theorem mem_difference {s t : HashSet α} {a : α} :
    a ∈ s.difference t ↔ a ∈ s ∧ a ∉ t := by
  simp [difference, mem_def]

/-- `HashSet::is_subset`. -/
def isSubset (s t : HashSet α) : Bool := s.elems.all (· ∈ t)

@[simp] theorem isSubset_iff {s t : HashSet α} : s.isSubset t = true ↔ ∀ a ∈ s, a ∈ t := by
  simp [isSubset, mem_def]

/-- The elements as a finite set. -/
def toFinset (s : HashSet α) : Finset α := s.elems.toFinset

@[simp] theorem mem_toFinset {s : HashSet α} {a : α} : a ∈ s.toFinset ↔ a ∈ s := by
  simp [toFinset, mem_def]

end HashSet

/-- The elements of a set in the order of its traversal. -/
def HashSet.iter (σ : Traversal) (site : String) (s : HashSet α) : List α :=
  σ.order site s.elems

@[simp] theorem HashSet.mem_iter {σ : Traversal} {site : String} {s : HashSet α} {a : α} :
    a ∈ s.iter σ site ↔ a ∈ s :=
  (σ.perm site s.elems).mem_iff

theorem HashSet.nodup_iter (σ : Traversal) (site : String) (s : HashSet α) :
    (s.iter σ site).Nodup :=
  (σ.perm site s.elems).nodup_iff.mpr s.nodup

theorem HashSet.iter_perm {s t : HashSet α} (h : ∀ a, a ∈ s ↔ a ∈ t) (σ σ' : Traversal)
    (site site' : String) : (s.iter σ site).Perm (t.iter σ' site') := by
  apply (List.perm_ext_iff_of_nodup (s.nodup_iter σ site) (t.nodup_iter σ' site')).mpr
  intro a
  rw [mem_iter, mem_iter, h]

@[simp] theorem HashSet.iter_eq_nil_iff {σ : Traversal} {site : String} {s : HashSet α} :
    s.iter σ site = [] ↔ ∀ a, a ∉ s := by
  simp [List.eq_nil_iff_forall_not_mem]

theorem HashSet.iter_of_elems_singleton {σ : Traversal} {site : String} {s : HashSet α} {a : α}
    (h : s.elems = [a]) : s.iter σ site = [a] := by
  rw [iter, h]
  exact List.perm_singleton.mp (σ.perm site [a])

/-- A map with distinct keys. -/
abbrev HashMap (κ β : Type) := AList fun _ : κ => β

namespace HashMap

/-- The entries of a map in the order of its traversal. -/
def iter (σ : Traversal) (site : String) (m : HashMap κ β) : List (κ × β) :=
  (σ.order site m.entries).map fun e => (e.1, e.2)

theorem nodup_keys_iter (σ : Traversal) (site : String) (m : HashMap κ β) :
    ((m.iter σ site).map Prod.fst).Nodup := by
  rw [iter, List.map_map]
  exact ((σ.perm site m.entries).map Sigma.fst).nodup_iff.mpr m.nodupKeys

variable [DecidableEq κ]

/-- `HashMap::get`. -/
def get (m : HashMap κ β) (k : κ) : Option β := m.lookup k

@[simp] theorem get_empty (k : κ) : get (∅ : HashMap κ β) k = none := AList.lookup_empty k

theorem get_insert (m : HashMap κ β) (k k' : κ) (v : β) :
    get (m.insert k v) k' = if k' = k then some v else get m k' := by
  by_cases h : k' = k
  · subst h; simp [get]
  · rw [if_neg h, get, AList.lookup_insert_ne h, get]

@[simp] theorem mem_iter {σ : Traversal} {site : String} {m : HashMap κ β} {k : κ} {v : β} :
    (k, v) ∈ m.iter σ site ↔ get m k = some v := by
  have hl : get m k = some v ↔ Sigma.mk k v ∈ m.entries := AList.mem_lookup_iff
  rw [hl, iter, ← (σ.perm site m.entries).mem_iff]
  simp only [List.mem_map, Prod.mk.injEq]
  constructor
  · rintro ⟨⟨_, _⟩, he, rfl, rfl⟩; exact he
  · intro he; exact ⟨_, he, rfl, rfl⟩

theorem exists_mem_iter_iff {σ : Traversal} {site : String} {m : HashMap κ β} {P : β → Prop} :
    (∃ e ∈ m.iter σ site, P e.2) ↔ ∃ k, ∃ v ∈ get m k, P v := by
  simp only [Prod.exists, mem_iter, Option.mem_def]

/-- Traversals of maps with related values under the same keys visit related entries. -/
theorem rel_iter {γ : Type} {R : β → γ → Prop} {m : HashMap κ β} {m' : HashMap κ γ}
    (h : ∀ k, Option.Rel R (get m k) (get m' k)) (σ σ' : Traversal) (site site' : String) :
    Multiset.Rel (fun e e' => e.1 = e'.1 ∧ R e.2 e'.2) (m.iter σ site : Multiset (κ × β))
      (m'.iter σ' site' : Multiset (κ × γ)) := by
  have hstep : ∀ e ∈ m.iter σ site,
      ∃ e' : κ × γ, get m' e'.1 = some e'.2 ∧ e.1 = e'.1 ∧ R e.2 e'.2 := by
    intro e he
    obtain ⟨v, hv, hR⟩ := exists_of_rel_some (mem_iter.mp he ▸ h e.1)
    exact ⟨(e.1, v), hv, rfl, hR⟩
  obtain ⟨l, hl⟩ := exists_forall₂ hstep
  have hkeys : (m.iter σ site).map Prod.fst = l.map Prod.fst := by
    rw [← List.forall₂_eq_eq_eq, List.forall₂_map_left_iff, List.forall₂_map_right_iff]
    exact hl.imp fun _ _ h => h.2.1
  have hnodup : l.Nodup := .of_map Prod.fst (hkeys ▸ nodup_keys_iter σ site m)
  -- the entries found under the keys of the one map are all entries of the other
  have hperm : l.Perm (m'.iter σ' site') := by
    refine (List.perm_ext_iff_of_nodup hnodup
      (.of_map Prod.fst (nodup_keys_iter σ' site' m'))).mpr fun (k, v) => ?_
    rw [mem_iter]
    constructor
    · intro hm
      obtain ⟨e, -, hv, -⟩ := exists_mem_of_forall₂ hl hm
      exact hv
    · intro hv
      obtain ⟨v₀, hv₀, -⟩ := exists_of_some_rel (hv ▸ h k)
      have hk : k ∈ l.map Prod.fst :=
        hkeys ▸ List.mem_map_of_mem (f := Prod.fst) (mem_iter.mpr hv₀)
      obtain ⟨⟨k', v'⟩, hm, rfl⟩ := List.mem_map.mp hk
      obtain ⟨e, -, hv', -⟩ := exists_mem_of_forall₂ hl hm
      obtain rfl := Option.some.inj (hv'.symm.trans hv)
      exact hm
  rw [← Multiset.coe_eq_coe.mpr hperm]
  exact rel_of_forall₂ (hl.imp fun _ _ h => h.2)

/-- `collect` into a map: a later entry replaces an earlier one with the same key. -/
def ofList (l : List (κ × β)) : HashMap κ β := l.foldl (fun m e => m.insert e.1 e.2) ∅

theorem get_foldl_insert (l : List (κ × β)) (m : HashMap κ β) (k : κ) :
    get (l.foldl (fun m e => m.insert e.1 e.2) m) k =
      ((l.reverse.find? (·.1 = k)).map Prod.snd).or (get m k) := by
  induction l generalizing m with
  | nil => simp
  | cons e l ih =>
    rw [List.foldl_cons, ih, get_insert, List.reverse_cons, List.find?_append]
    by_cases h : e.1 = k
    · cases hf : l.reverse.find? (·.1 = k) <;> simp [h]
    · cases hf : l.reverse.find? (·.1 = k) <;> simp [h, Ne.symm h]

/-- A collected map holds the last entry of each key. -/
theorem get_ofList (l : List (κ × β)) (k : κ) :
    get (ofList l) k = (l.reverse.find? (·.1 = k)).map Prod.snd := by
  simp [ofList, get_foldl_insert]

theorem ofList_append_singleton (l : List (κ × β)) (e : κ × β) :
    ofList (l ++ [e]) = (ofList l).insert e.1 e.2 := by
  rw [ofList, List.foldl_append]; rfl

theorem entries_ofList {l : List (κ × β)} (h : (l.map Prod.fst).Nodup) :
    (ofList l).entries = (l.map fun e => Sigma.mk e.1 e.2).reverse := by
  induction l using List.reverseRecOn with
  | nil => rfl
  | append_singleton l e ih =>
    rw [List.map_append, List.nodup_append] at h
    have ih := ih h.1
    have he : e.1 ∉ ofList l := by
      change e.1 ∉ (ofList l).entries.keys
      rw [ih, List.keys, List.map_reverse, List.mem_reverse, List.map_map]
      exact fun hm => h.2.2 e.1 hm e.1 (List.mem_singleton.mpr rfl) rfl
    rw [ofList_append_singleton, AList.entries_insert_of_notMem he, ih, List.map_append,
      List.reverse_append]
    rfl

/-- A traversal of a map collected from distinct keys visits the collected entries. -/
theorem iter_ofList_perm (σ : Traversal) (site : String) {l : List (κ × β)}
    (h : (l.map Prod.fst).Nodup) : ((ofList l).iter σ site).Perm l := by
  have hp := ((σ.perm site (ofList l).entries).trans (.of_eq (entries_ofList h))).trans
    (List.reverse_perm _)
  have hm := hp.map fun e => (e.1, e.2)
  rwa [List.map_map, show ((fun e : (_ : κ) × β => (e.1, e.2)) ∘ fun e : κ × β => ⟨e.1, e.2⟩) = id
    from rfl, List.map_id] at hm

theorem get_ofList_eq_some_iff {l : List (κ × β)} (h : (l.map Prod.fst).Nodup) {k : κ} {v : β} :
    get (ofList l) k = some v ↔ (k, v) ∈ l := by
  have hm : (k, v) ∈ iter .insertion "" (ofList l) ↔ get (ofList l) k = some v := mem_iter
  rw [← hm, (iter_ofList_perm .insertion "" h).mem_iff]

/-- A loop that stores the answer to a question under each key leaves the answers of the
keys it visits in the map. -/
theorem get_foldlM_insert {ε : Type} {q : κ → Outcome ε β} {l : List κ} {m r : HashMap κ β}
    (h : l.foldlM (fun m k => q k >>= fun v => pure (m.insert k v)) m = .ok r) (k : κ) :
    (k ∈ l → ∃ v, q k = .ok v ∧ get r k = some v) ∧ (k ∉ l → get r k = get m k) := by
  induction l generalizing m with
  | nil => obtain rfl := Outcome.ok.inj h; simp
  | cons a l ih =>
    simp only [List.foldlM_cons, Outcome.bind_eq_ok, Outcome.pure_eq_ok] at h
    obtain ⟨m', ⟨v, hv, rfl⟩, h⟩ := h
    obtain ⟨hin, hout⟩ := ih h
    constructor
    · intro hk
      by_cases hl : k ∈ l
      · exact hin hl
      · obtain rfl : k = a := (List.mem_cons.mp hk).resolve_right hl
        exact ⟨v, hv, by rw [hout hl, get_insert, if_pos rfl]⟩
    · intro hk
      rw [List.mem_cons, not_or] at hk
      rw [hout hk.2, get_insert, if_neg hk.1]

end HashMap

end Checkc

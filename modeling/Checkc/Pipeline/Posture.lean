import Checkc.Assessment.Report
import Mathlib.Data.Finset.Lattice.Fold
import Mathlib.Order.BoundedOrder.Lattice

/-! # Security postures

A posture is what the four goals depend on: the isolation that is missing and the powers
that the container has. Postures are ordered by weakness, and the verdict on each goal is
monotone in this order. The verdict on goal S1 is `ok` or `error` although the capability
table also knows `info` and `warn`.
-/

namespace Checkc

open Criticality

structure Posture where
  missing : Finset NsType
  permitted : Finset Capability
  rootShared : Bool
  mapsToRoot : Bool
  mappingShared : Bool
  hostLeak : Bool
  refcontainerLeak : Bool
  devOffending : Bool
  mknodOffending : Bool
  cpuUnlimited : Bool
  memoryUnlimited : Bool

namespace Posture

/-- The second posture is at least as weak as the first. -/
structure Weaker (p q : Posture) : Prop where
  missing : p.missing ⊆ q.missing
  permitted : p.permitted ⊆ q.permitted
  rootShared : p.rootShared ≤ q.rootShared
  mapsToRoot : p.mapsToRoot ≤ q.mapsToRoot
  mappingShared : p.mappingShared ≤ q.mappingShared
  hostLeak : p.hostLeak ≤ q.hostLeak
  refcontainerLeak : p.refcontainerLeak ≤ q.refcontainerLeak
  devOffending : p.devOffending ≤ q.devOffending
  mknodOffending : p.mknodOffending ≤ q.mknodOffending
  cpuUnlimited : p.cpuUnlimited ≤ q.cpuUnlimited
  memoryUnlimited : p.memoryUnlimited ≤ q.memoryUnlimited

instance : Preorder Posture where
  le := Weaker
  le_refl p := by constructor <;> exact le_rfl
  le_trans p q r h h' := by
    constructor
    · exact h.missing.trans h'.missing
    · exact h.permitted.trans h'.permitted
    · exact h.rootShared.trans h'.rootShared
    · exact h.mapsToRoot.trans h'.mapsToRoot
    · exact h.mappingShared.trans h'.mappingShared
    · exact h.hostLeak.trans h'.hostLeak
    · exact h.refcontainerLeak.trans h'.refcontainerLeak
    · exact h.devOffending.trans h'.devOffending
    · exact h.mknodOffending.trans h'.mknodOffending
    · exact h.cpuUnlimited.trans h'.cpuUnlimited
    · exact h.memoryUnlimited.trans h'.memoryUnlimited

variable (p : Posture)

/-- The criticality of a capability with the given record. -/
def recordVerdict (r : CapabilityRecord) : Criticality :=
  if ¬ r.ok.isEmpty ∧ Disjoint r.ok.toFinset p.missing then .ok
  else if ¬ r.warn.isEmpty ∧ Disjoint r.warn.toFinset p.missing then .warn
  else r.default

def verdictS2 : Criticality := errorIf (p.devOffending ∨ p.mknodOffending)

/-- The criticality of a capability. -/
def capabilityVerdict (cap : Capability) : Criticality :=
  if cap = .capSysChroot then
    errorIf (.user ∈ p.missing ∨ .mount ∈ p.missing ∨ p.rootShared) ⊔ p.verdictS2
  else (capMap.get cap).elim .error p.recordVerdict

/-- The verdict on each goal. -/
def verdict : Goal → Criticality
  | .s1 =>
      errorIf (p.missing.Nonempty ∨ p.rootShared ∨ p.mapsToRoot) ⊔
        p.permitted.sup p.capabilityVerdict
  | .s2 => p.verdictS2
  | .s3 => errorIf (p.mappingShared ∨ p.refcontainerLeak ∨ p.hostLeak)
  | .s4 => errorIf (.cgroup ∈ p.missing ∨ p.cpuUnlimited ∨ p.memoryUnlimited)

variable {p} {q : Posture}

/-! ## Monotonicity -/

theorem recordVerdict_mono {r : CapabilityRecord} (hr : r.WellGraded) (h : p ≤ q) :
    p.recordVerdict r ≤ q.recordVerdict r := by
  have hd : ∀ s : Finset NsType, Disjoint s q.missing → Disjoint s p.missing :=
    fun s hs => hs.mono_right h.missing
  have hok : ok ≤ q.recordVerdict r := by
    unfold recordVerdict
    split_ifs
    · exact le_rfl
    · decide
    · exact hr.ok_lt_default.le
  by_cases h1 : ¬ r.ok.isEmpty ∧ Disjoint r.ok.toFinset p.missing
  · rwa [recordVerdict, if_pos h1]
  have h1' : ¬ (¬ r.ok.isEmpty ∧ Disjoint r.ok.toFinset q.missing) :=
    fun hq => h1 ⟨hq.1, hd _ hq.2⟩
  by_cases h2 : ¬ r.warn.isEmpty ∧ Disjoint r.warn.toFinset p.missing
  · rw [recordVerdict, recordVerdict, if_neg h1, if_pos h2, if_neg h1']
    split
    · exact le_rfl
    · exact hr.warn_le_default (Bool.eq_false_of_not_eq_true h2.1)
  · have h2' : ¬ (¬ r.warn.isEmpty ∧ Disjoint r.warn.toFinset q.missing) :=
      fun hq => h2 ⟨hq.1, hd _ hq.2⟩
    rw [recordVerdict, recordVerdict, if_neg h1, if_neg h2, if_neg h1', if_neg h2']

theorem imp_of_le {a b : Bool} (h : a ≤ b) : a = true → b = true := Bool.le_iff_imp.mp h

theorem verdictS2_mono (h : p ≤ q) : p.verdictS2 ≤ q.verdictS2 :=
  errorIf_mono (Or.imp (imp_of_le h.devOffending) (imp_of_le h.mknodOffending))

theorem capabilityVerdict_mono (h : p ≤ q) (cap : Capability) :
    p.capabilityVerdict cap ≤ q.capabilityVerdict cap := by
  unfold capabilityVerdict
  split
  · refine sup_le_sup (errorIf_mono ?_) (verdictS2_mono h)
    exact Or.imp (@h.missing _) (Or.imp (@h.missing _) (imp_of_le h.rootShared))
  · cases hc : capMap.get cap with
    | none => exact le_rfl
    | some r => exact recordVerdict_mono (wellGraded_of_get hc) h

/-- A weaker posture never has a better verdict. -/
theorem verdict_mono (g : Goal) (h : p ≤ q) : p.verdict g ≤ q.verdict g := by
  cases g with
  | s1 =>
    refine sup_le_sup (errorIf_mono ?_) (Finset.sup_le fun cap hc => ?_)
    · exact Or.imp (Finset.Nonempty.mono h.missing)
        (Or.imp (imp_of_le h.rootShared) (imp_of_le h.mapsToRoot))
    · exact (capabilityVerdict_mono h cap).trans (Finset.le_sup (h.permitted hc))
  | s2 => exact verdictS2_mono h
  | s3 =>
    exact errorIf_mono (Or.imp (imp_of_le h.mappingShared)
      (Or.imp (imp_of_le h.refcontainerLeak) (imp_of_le h.hostLeak)))
  | s4 =>
    exact errorIf_mono (Or.imp (@h.missing _)
      (Or.imp (imp_of_le h.cpuUnlimited) (imp_of_le h.memoryUnlimited)))

/-! ## Exact verdicts -/

/-- The verdict is `ok` or `error`. -/
def Binary (c : Criticality) : Prop := c = ok ∨ c = error

theorem eq_of_binary {c d : Criticality} (hc : Binary c) (hd : Binary d)
    (h : c = ok ↔ d = ok) : c = d := by
  rcases hc with rfl | rfl <;> rcases hd with rfl | rfl <;> simp_all

theorem binary_errorIf (P : Prop) [Decidable P] : Binary (errorIf P) := by
  unfold Binary errorIf
  split
  · exact Or.inr rfl
  · exact Or.inl rfl

theorem errorIf_sup_eq_ok {P : Prop} [Decidable P] {c : Criticality} :
    errorIf P ⊔ c = ok ↔ ¬ P ∧ c ≤ ok := by
  rw [← errorIf_eq_ok]
  constructor
  · intro h
    have hP : errorIf P ≤ ok := h ▸ le_sup_left
    exact ⟨hP.antisymm (ok_le_errorIf P), h ▸ le_sup_right⟩
  · rintro ⟨hP, hc⟩
    rw [hP, sup_eq_left.mpr hc]

theorem recordVerdict_eq_ok {r : CapabilityRecord} (hr : r.ok.isEmpty = false)
    (hm : p.missing = ∅) : p.recordVerdict r = ok := by
  rw [recordVerdict, if_pos ⟨by simp [hr], by rw [hm]; exact Finset.disjoint_empty_right _⟩]

theorem capabilityVerdict_sysChroot (hm : p.missing = ∅) (hr : p.rootShared = false) :
    p.capabilityVerdict .capSysChroot = p.verdictS2 := by
  rw [capabilityVerdict, if_pos rfl, errorIf, if_neg (by simp [hm, hr])]
  exact sup_eq_right.mpr (ok_le_errorIf _)

/-- With all namespaces active, only `capSysChroot` can be worse than `ok`. -/
theorem capabilityVerdict_eq_ok {cap : Capability} (hm : p.missing = ∅) (hc : cap ≠ .unspecified)
    (hs : cap ≠ .capSysChroot) : p.capabilityVerdict cap = ok := by
  obtain ⟨r, hr⟩ := Option.isSome_iff_exists.mp (capMap_isSome_iff.mpr hc)
  rw [capabilityVerdict, if_neg hs, hr]
  refine recordVerdict_eq_ok ?_ hm
  rwa [← Bool.not_eq_true, ok_isEmpty_iff_of_get hr]

/-- The verdict on goal S1 is `ok` exactly when nothing is missing, the root directory is
separate, no user is mapped to root, and `capSysChroot` is only held with goal S2. -/
theorem verdict_s1_eq_ok_iff (hp : .unspecified ∉ p.permitted) :
    p.verdict .s1 = ok ↔ p.missing = ∅ ∧ p.rootShared = false ∧ p.mapsToRoot = false ∧
      (.capSysChroot ∈ p.permitted → p.verdict .s2 = ok) := by
  rw [verdict, errorIf_sup_eq_ok, Finset.sup_le_iff]
  simp only [not_or, Finset.not_nonempty_iff_eq_empty, Bool.not_eq_true, and_assoc]
  refine and_congr_right fun hm => and_congr_right fun hr => and_congr_right fun _ => ?_
  constructor
  · intro h hc
    have := h _ hc
    rw [capabilityVerdict_sysChroot hm hr] at this
    exact this.antisymm (ok_le_errorIf _)
  · intro h cap hc
    by_cases hs : cap = .capSysChroot
    · subst hs
      rw [capabilityVerdict_sysChroot hm hr]
      exact (h hc).le
    · exact (capabilityVerdict_eq_ok hm (fun he => hp (he ▸ hc)) hs).le

/-- The verdict on each goal is `ok` or `error`. -/
theorem binary_verdict (hp : .unspecified ∉ p.permitted) (g : Goal) : Binary (p.verdict g) := by
  cases g with
  | s1 =>
    by_cases h : p.missing.Nonempty ∨ p.rootShared ∨ p.mapsToRoot
    · rw [verdict, errorIf, if_pos h]
      exact Or.inr (top_sup_eq _)
    · simp only [not_or, Finset.not_nonempty_iff_eq_empty, Bool.not_eq_true] at h
      by_cases hs : .capSysChroot ∈ p.permitted → p.verdict .s2 = ok
      · exact Or.inl ((verdict_s1_eq_ok_iff hp).mpr ⟨h.1, h.2.1, h.2.2, hs⟩)
      · push Not at hs
        have he : p.verdictS2 = error := (binary_errorIf _).resolve_left hs.2
        have hc := Finset.le_sup (f := p.capabilityVerdict) hs.1
        rw [capabilityVerdict_sysChroot h.1 h.2.1, he] at hc
        exact Or.inr (eq_error_of_le (hc.trans le_sup_right))
  | s2 => exact binary_errorIf _
  | s3 => exact binary_errorIf _
  | s4 => exact binary_errorIf _

end Posture

end Checkc

import Checkc.Evaluation.Message
import Mathlib.Order.Lattice

/-! # The assessment report

A goal is graded by the worst criticality of its findings. A result that has not
been graded yet is `unspecified`, which lies below every grade.
-/

namespace Checkc

/-- `assessment.Criticality`. -/
inductive Criticality where
  | unspecified | ok | info | warn | error
  deriving DecidableEq, Repr

namespace Criticality

instance : ProtoEnum Criticality where
  variants := [unspecified, ok, info, warn, error]
  toI32 | unspecified => 0 | ok => 1 | info => 2 | warn => 3 | error => 4
  mem_variants c := by cases c <;> decide
  nodup_codes := by decide

/-- The identifiers of the proto file. -/
def asStrName : Criticality → String
  | unspecified => "CRITICALITY_UNSPECIFIED"
  | ok => "CRITICALITY_OK"
  | info => "CRITICALITY_INFO"
  | warn => "CRITICALITY_WARN"
  | error => "CRITICALITY_ERROR"

/-- The derived `Debug` text. -/
def debug : Criticality → String
  | unspecified => "Unspecified"
  | ok => "Ok"
  | info => "Info"
  | warn => "Warn"
  | error => "Error"

/-- Criticalities are ordered by their numbers. -/
instance : LinearOrder Criticality :=
  LinearOrder.lift' (ProtoEnum.toI32 : Criticality → Int) ProtoEnum.toI32_injective

theorem toI32_le_toI32 {c d : Criticality} : ProtoEnum.toI32 c ≤ ProtoEnum.toI32 d ↔ c ≤ d :=
  Iff.rfl

theorem toI32_max (c d : Criticality) :
    ProtoEnum.toI32 (max c d) = max (ProtoEnum.toI32 c) (ProtoEnum.toI32 d) :=
  Monotone.map_max fun _ _ h => toI32_le_toI32.mpr h

instance : BoundedOrder Criticality where
  top := error
  le_top c := by cases c <;> decide
  bot := unspecified
  bot_le c := by cases c <;> decide

theorem le_error (c : Criticality) : c ≤ error := le_top

theorem eq_error_of_le {c : Criticality} (h : error ≤ c) : c = error := le_antisymm c.le_error h

/-- The worst of some criticalities, and `ok` if none is above it. -/
def worst (l : List Criticality) : Criticality := l.foldr max ok

section

variable {c d : Criticality} {l l' : List Criticality}

@[simp] theorem worst_nil : worst [] = ok := rfl

@[simp] theorem worst_cons : worst (c :: l) = max c (worst l) := rfl

theorem worst_le_iff : worst l ≤ d ↔ ok ≤ d ∧ ∀ c ∈ l, c ≤ d := by
  induction l with
  | nil => simp
  | cons c l ih => simp only [worst_cons, max_le_iff, ih, List.forall_mem_cons]; tauto

theorem ok_le_worst : ok ≤ worst l := (worst_le_iff.mp le_rfl).1

@[simp] theorem worst_append : worst (l ++ l') = max (worst l) (worst l') :=
  eq_of_forall_ge_iff fun d => by
    simp only [worst_le_iff, max_le_iff, List.forall_mem_append]
    tauto

theorem worst_eq_ok_iff : worst l = ok ↔ ∀ c ∈ l, c ≤ ok := by
  rw [← ok_le_worst.ge_iff_eq', worst_le_iff]
  simp

end

/-- `error` if something is wrong. -/
def errorIf (p : Prop) [Decidable p] : Criticality := if p then error else ok

theorem ok_le_errorIf (p : Prop) [Decidable p] : ok ≤ errorIf p := by
  unfold errorIf; split <;> decide

theorem errorIf_eq_ok {p : Prop} [Decidable p] : errorIf p = ok ↔ ¬ p := by
  unfold errorIf; split <;> simp_all

theorem errorIf_congr {p q : Prop} [Decidable p] [Decidable q] (h : p ↔ q) :
    errorIf p = errorIf q := by
  simp only [errorIf, h]

theorem max_errorIf {p q : Prop} [Decidable p] [Decidable q] :
    max (errorIf p) (errorIf q) = errorIf (p ∨ q) := by
  unfold errorIf
  by_cases hp : p <;> by_cases hq : q <;> simp only [hp, hq] <;> decide

theorem errorIf_mono {p q : Prop} [Decidable p] [Decidable q] (h : p → q) :
    errorIf p ≤ errorIf q := by
  unfold errorIf
  by_cases hp : p
  · rw [if_pos hp, if_pos (h hp)]
  · rw [if_neg hp]; split <;> decide

end Criticality

/-- A grade with the lines that explain it. -/
structure SecResult where
  state : Int
  info : List String
  deriving DecidableEq, Repr

/-- `SecResult::default`. -/
def SecResult.default : SecResult := { state := 0, info := [] }

structure GoalS1GlobalResourceModification where
  description : String
  result : Option SecResult
  namespaceConf : Option Namespaces
  capabilities : List Int
  chrootConf : Option Chroot
  deriving DecidableEq, Repr

structure GoalS2RestrictedDeviceAccess where
  description : String
  result : Option SecResult
  deriving DecidableEq, Repr

structure GoalS3NoContainerDataLeak where
  description : String
  result : Option SecResult
  deriving DecidableEq, Repr

structure Cgroups where
  active : List Int
  desired : List Int
  deriving DecidableEq, Repr

structure GoalS4NoAvaiabilityImpact where
  description : String
  result : Option SecResult
  cgroupsNamespaceUsed : Bool
  usedCgroupControllers : Option Cgroups
  deriving DecidableEq, Repr

structure AssessmentReport where
  unprivileged : Bool
  goalS1 : Option GoalS1GlobalResourceModification
  goalS2 : Option GoalS2RestrictedDeviceAccess
  goalS3 : Option GoalS3NoContainerDataLeak
  goalS4 : Option GoalS4NoAvaiabilityImpact
  deriving DecidableEq, Repr

end Checkc

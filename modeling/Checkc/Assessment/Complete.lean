import Checkc.Assessment.Report
import Mathlib.Data.Set.List

/-! # Complete reports

An assessment returns exactly when the evaluation report has all that the goals look up and
all of its numbers have names. The order in which the categories are traversed does not
matter for this.
-/

namespace Checkc

open Outcome (bind_eq_ok)

/-- The tests on which a goal is based, with their categories. -/
def Goal.tests : Goal → List (String × String)
  | .s1 => [("access_control", "user_ns_maps_to_non_root_user")]
  | .s2 => [("devices", "dev_whitelist_compliance"), ("devices", "mknod_whitelist_compliance")]
  | .s3 => [("access_control", "user_ns_mapping_unique"),
      ("filesystem", "flag_matches_refcontainer"), ("filesystem", "flag_matches_host")]
  | .s4 => [("resource_control", "cpu_max_limited"), ("resource_control", "memory_max_limited")]

/-! ## Numbers with names -/

/-- The numbers are numbers of variants. -/
def Known (α : Type) [ProtoEnum α] (codes : List Int) : Prop :=
  ∀ code ∈ codes, ∃ a : α, ProtoEnum.toI32 a = code

theorem known_iff {α : Type} [ProtoEnum α] {codes : List Int} :
    Known α codes ↔ ∃ l : List α, codes = l.map ProtoEnum.toI32 := by
  have h := Set.ext_iff.mp (Set.range_list_map (ProtoEnum.toI32 : α → Int)) codes
  simp only [Set.mem_range, Set.mem_ofPred_eq] at h
  rw [Known, ← h]
  exact exists_congr fun l => eq_comm

theorem known_map {α : Type} [ProtoEnum α] (l : List α) : Known α (l.map ProtoEnum.toI32) :=
  known_iff.mpr ⟨l, rfl⟩

/-- The numbers of a category have names, which are not those of missing values for its
capabilities. -/
structure Category.Named (c : Category) : Prop where
  active : ∀ n ∈ c.namespaces, Known NsType n.active
  desired : ∀ n ∈ c.namespaces, Known NsType n.desired
  capabilities : Known Capability c.capabilities
  unspecified : ProtoEnum.toI32 Capability.unspecified ∉ c.capabilities

/-- The report has all that the goals look up. -/
structure EvalResult.Complete (e : EvalResult) : Prop where
  tests : ∀ g : Goal, ∀ p ∈ g.tests, ∃ t, e.getTest p.1 p.2 = .ok t
  named : ∀ label c, e.categories.get label = some c → c.Named
  root : ∃ c, e.categories.get "filesystem" = some c ∧
    ∃ i, c.isolation = some i ∧ ∃ chroot, i.chroot = some chroot
  cgroup : ∃ c, e.categories.get "resource_control" = some c ∧
    ∃ i, c.isolation = some i ∧ ∃ n, i.namespaces = some n

theorem Category.namespaces_eq_some {c : Category} {i : IsolationMechanisms} {n : Namespaces}
    (hi : c.isolation = some i) (hn : i.namespaces = some n) : c.namespaces = some n := by
  rw [namespaces, hi, Option.bind_some, hn]

variable {env : Env} {e : EvalResult}

/-! ## Assessments return -/

namespace Assessment

theorem mem_iter {label : String} {c : Category} (h : e.categories.get label = some c)
    (site : String) : (label, c) ∈ e.categories.iter env.σ site :=
  HashMap.mem_iter.mpr h

theorem named (x : Assessment env e) {label : String} {c : Category}
    (h : e.categories.get label = some c) : c.Named := by
  obtain ⟨ns, ns', hns⟩ := exists_of_foldlM x.namespaces_eq (mem_iter h _)
  obtain ⟨caps, caps', hcaps⟩ := exists_of_foldlM x.capabilities_eq (mem_iter h _)
  have hknown : ∀ n ∈ c.namespaces, Known NsType n.active ∧ Known NsType n.desired := by
    intro n hn
    rw [collectNamespaces, Option.mem_def.mp hn] at hns
    simp only [bind_eq_ok, decodeAll_eq_ok] at hns
    obtain ⟨active, ha, desired, hd, -⟩ := hns
    exact ⟨known_iff.mpr ⟨active, ha⟩, known_iff.mpr ⟨desired, hd⟩⟩
  simp only [collectCapabilities, bind_eq_ok, decodeAll_eq_ok] at hcaps
  obtain ⟨named, hc, -⟩ := hcaps
  refine ⟨fun n hn => (hknown n hn).1, fun n hn => (hknown n hn).2, known_iff.mpr ⟨named, hc⟩,
    fun hu => ?_⟩
  -- a capability without a name is collected, and the lookup of its record panics
  have hmem : ProtoEnum.toI32 Capability.unspecified ∈ x.capabilities.map ProtoEnum.toI32 := by
    rw [map_collectCapabilities x.capabilities_eq, List.map_nil, List.nil_append,
      List.mem_flatMap]
    exact ⟨_, mem_iter h _, hu⟩
  rw [List.mem_map_of_injective ProtoEnum.toI32_injective] at hmem
  obtain ⟨s, s', hs⟩ := exists_of_foldlM x.resultCaps_eq hmem
  simp only [assessCapability, bind_eq_ok, unwrap_eq_ok] at hs
  obtain ⟨record, hr, -⟩ := hs
  exact capMap_isSome_iff.mp (Option.isSome_of_eq_some hr) rfl

theorem complete (x : Assessment env e) : e.Complete where
  tests g := by
    cases g with
    | s1 => exact List.forall_mem_singleton.mpr ⟨_, x.nonRoot_eq⟩
    | s2 =>
      exact List.forall_mem_cons.mpr ⟨⟨_, x.dev_eq⟩, List.forall_mem_singleton.mpr ⟨_, x.mknod_eq⟩⟩
    | s3 =>
      exact List.forall_mem_cons.mpr ⟨⟨_, x.unique_eq⟩, List.forall_mem_cons.mpr
        ⟨⟨_, x.refcontainer_eq⟩, List.forall_mem_singleton.mpr ⟨_, x.host_eq⟩⟩⟩
    | s4 =>
      exact List.forall_mem_cons.mpr ⟨⟨_, x.cpu_eq⟩, List.forall_mem_singleton.mpr ⟨_, x.memory_eq⟩⟩
  named _ _ h := x.named h
  root := ⟨_, x.filesystem_eq, _, x.fsIsolation_eq, _, x.chrootConf_eq⟩
  cgroup := ⟨_, x.resourceControl_eq, _, x.cgroupIsolation_eq, _, x.cgroupNamespaces_eq⟩

end Assessment

namespace EvalResult.Complete

theorem named_of_mem (h : e.Complete) {site : String} {entry : String × Category}
    (he : entry ∈ e.categories.iter env.σ site) : entry.2.Named :=
  h.named entry.1 entry.2 (HashMap.mem_iter.mp he)

theorem exists_namespaces (h : e.Complete) (env : Env) (site : String) :
    ∃ ns, (e.categories.iter env.σ site).foldlM collectNamespaces (∅, ∅) = .ok ns := by
  refine collectNamespaces_isOk (fun entry he n hn => ?_) (∅, ∅)
  obtain ⟨active, ha⟩ := known_iff.mp ((h.named_of_mem he).active n hn)
  obtain ⟨desired, hd⟩ := known_iff.mp ((h.named_of_mem he).desired n hn)
  exact ⟨active, desired, ha, hd⟩

/-- The capabilities of a complete report all have records. -/
theorem exists_capabilities (h : e.Complete) (env : Env) (site : String) :
    ∃ caps, (e.categories.iter env.σ site).foldlM collectCapabilities [] = .ok caps ∧
      ∀ cap ∈ caps, cap ≠ .unspecified := by
  obtain ⟨caps, hcaps⟩ := collectCapabilities_isOk
    (fun entry he => known_iff.mp (h.named_of_mem he).capabilities) []
  refine ⟨caps, hcaps, ?_⟩
  rintro cap hc rfl
  have hm := List.mem_map_of_mem (f := ProtoEnum.toI32) hc
  rw [map_collectCapabilities hcaps, List.map_nil, List.nil_append, List.mem_flatMap] at hm
  obtain ⟨entry, he, hm⟩ := hm
  exact (h.named_of_mem he).unspecified hm

/-- A complete report is assessed, in whatever order it is traversed. -/
theorem exists_assessment (h : e.Complete) (env : Env) : Nonempty (Assessment env e) := by
  obtain ⟨nonRoot, hnr⟩ := h.tests .s1 _ (.head _)
  obtain ⟨dev, hdev⟩ := h.tests .s2 _ (.head _)
  obtain ⟨mknod, hmknod⟩ := h.tests .s2 _ (.tail _ (.head _))
  obtain ⟨unique, hu⟩ := h.tests .s3 _ (.head _)
  obtain ⟨refcontainer, href⟩ := h.tests .s3 _ (.tail _ (.head _))
  obtain ⟨host, hhost⟩ := h.tests .s3 _ (.tail _ (.tail _ (.head _)))
  obtain ⟨cpu, hcpu⟩ := h.tests .s4 _ (.head _)
  obtain ⟨memory, hmem⟩ := h.tests .s4 _ (.tail _ (.head _))
  obtain ⟨filesystem, hfs, fsIsolation, hiso, chrootConf, hch⟩ := h.root
  obtain ⟨resourceControl, hrc, cgroupIsolation, hci, namespaces, hn⟩ := h.cgroup
  obtain ⟨⟨activeNs, desiredNs⟩, hns⟩ := h.exists_namespaces env "assess_goal_s1.namespaces"
  obtain ⟨caps, hcaps, hspecified⟩ := h.exists_capabilities env "assess_goal_s1.capabilities"
  obtain ⟨resultCaps, hres⟩ :=
    assessCapabilities_isOk env activeNs (grade (findingsS2 dev mknod)) chrootConf hspecified
  obtain ⟨stateCaps, -, hstate, -⟩ := (records_assessCapabilities (ok_le_grade _) hres).state
  have hgroup := h.named _ _ hrc
  have hnamespaces := Category.namespaces_eq_some hci hn
  obtain ⟨active, ha⟩ := known_iff.mp (hgroup.active _ hnamespaces)
  obtain ⟨desired, hd⟩ := known_iff.mp (hgroup.desired _ hnamespaces)
  obtain ⟨⟨used, resultCgroup⟩, hcg⟩ := assessCgroupNamespaces_isOk ha hd
  exact ⟨⟨dev, mknod, unique, refcontainer, host, nonRoot, cpu, memory, activeNs, desiredNs, caps,
    filesystem, fsIsolation, chrootConf, resultCaps, stateCaps, resourceControl, cgroupIsolation,
    namespaces, used, resultCgroup, hdev, hmknod, hu, href, hhost, hnr, hcpu, hmem, hns, hcaps,
    hfs, hiso, hch, hres, by rw [hstate, ProtoEnum.fromI32_toI32], hrc, hci, hn, hcg⟩⟩

end EvalResult.Complete

/-- The assessment returns exactly for complete reports. -/
theorem assessEvalResult_isOk_iff :
    (∃ r, assessEvalResult env e = .ok r) ↔ e.Complete := by
  constructor
  · rintro ⟨r, hr⟩
    obtain ⟨x, -⟩ := assessEvalResult_eq_ok.mp hr
    exact x.complete
  · intro h
    obtain ⟨x⟩ := h.exists_assessment env
    exact ⟨x.report, x.assessEvalResult_eq⟩

end Checkc

import Checkc.CConfig.FlagFiles
import Checkc.CConfig.Mknod
import Checkc.CConfig.Seccomp
import Checkc.Pipeline.Tests

/-! # Verdicts on what the system answers

The tests and the verdicts about devices, flag files and system calls, from the answers that the
system gives to the collectors.
-/

namespace Checkc

open Outcome (bind_eq_ok pure_eq_ok)

open Criticality

section

variable {env env₀ : Env} {config : Config} {root : PathBuf} {e : EvalResult}

/-! ## System calls -/

/-- The test of the seccomp mode passes exactly if the kernel prints the mode of a filter or the
strict one, whatever the name of the process is. -/
theorem seccompEnabled_passed_iff {s : StatusFile} {n : ℕ} (hn : s.PrintsSeccomp n)
    {mount : Except String Unit} {c : Seccomp.Message}
    (hc : Seccomp.seccompConfig (.ok s.lines) mount = .ok c)
    (hconf : config.seccompConfig = some c.toConfig)
    (h : EvalResult.fromConfig env config root = .ok e) :
    ∃ t, e.getTest "access_control" "seccomp_enabled" = .ok t ∧ t.valid = true ∧
      (t.passed = true ↔ n = 1 ∨ n = 2) := by
  obtain ⟨x, rfl⟩ := fromConfig_eq_ok.mp h
  obtain ⟨m, hm, rfl⟩ := (StatusFile.seccompConfig_eq_ok_iff hn mount c).mp hc
  have hx : x.input.seccomp = ⟨ProtoEnum.toI32 m⟩ := by
    rw [x.config_eq] at hconf
    exact Option.some.inj hconf
  have hmode : x.input.seccomp.getMode = m := by
    rw [hx, Seccomp.Config.getMode, ProtoEnum.getter_toI32]
  refine ⟨_, rfl, rfl, ?_⟩
  change decide (x.input.seccomp.getMode = .filter ∨ x.input.seccomp.getMode = .strict) = true ↔ _
  rw [hmode, decide_eq_true_iff]
  cases m with
  | unspecified => cases hm
  | disabled | strict | filter =>
    obtain rfl := Option.some.inj hm
    decide

/-! ## Devices -/

/-- The id of a node below `/dev`. -/
def DevTree.idOf {π ι : Type} (T : DevTree π ι) (a : ι) (t : DeviceType) : Device.Id where
  type := ProtoEnum.toI32 t
  major := T.major (T.rdev a)
  minor := T.minor (T.rdev a)

/-- The id of a node that is made. -/
def NodeKind.idOf (k : NodeKind) (i j : ℕ) : Device.Id where
  type := ProtoEnum.toI32 k.type
  major := i.toUInt64.toUInt32
  minor := j.toUInt64.toUInt32

theorem not_offending_iff_of_type {dev : Device} {id : Device.Id} {t : DeviceType} {u : Bool}
    (hid : dev.id = some id) (ht : id.type = ProtoEnum.toI32 t) :
    ¬ dev.Offending u ↔ (t = .char ∨ t = .block → id.Whitelisted u) := by
  rw [Device.offending_iff hid, Device.Id.getType_eq ht.symm, not_and, not_not]

section

variable {π ι : Type} [DecidableEq ι] {T : DevTree π ι} {nodes : ι → Device.Inode}
  {S : MknodSystem} {c : Device.Config}

/-- All devices that paths below `/dev` lead to are whitelisted. -/
def DevTree.Compliant (T : DevTree π ι) (nodes : ι → Device.Inode) (u : Bool) : Prop :=
  ∀ p ∈ T.files, ∀ path a t, T.locate nodes p = .ok (path, a, t) → (T.toStr path).isSome = true →
    t = .char ∨ t = .block → (T.idOf a t).Whitelisted u

/-- All devices that can be made and opened are whitelisted, up to the largest numbers. -/
def MknodSystem.Compliant (S : MknodSystem) (u : Bool) : Prop :=
  ∀ dir, S.tempdirIn = .ok dir → ∀ (k : NodeKind) (i j : ℕ), i ≤ MknodSystem.majorMax →
    j ≤ MknodSystem.minorMax → S.Makes dir k i j → (k.idOf i j).Whitelisted u

theorem compliant_dev_iff {devices : List Device} {u : Bool}
    (h : T.parseDev env₀ nodes = .ok devices) :
    (∀ dev ∈ devices, ¬ dev.Offending u) ↔ T.Compliant nodes u := by
  obtain rfl := pure_eq_ok.mp h
  simp only [HashSet.mem_iter, DevTree.mem_foldl_collect]
  constructor
  · intro h p hp path a t hlocate hstr ht
    obtain ⟨i, hi⟩ := List.mem_iff_getElem?.mp hp
    obtain ⟨file, hfile⟩ := Option.isSome_iff_exists.mp hstr
    exact (not_offending_iff_of_type rfl rfl).mp (h _ ⟨i, p, path, a, t, file, hi, hlocate, hfile,
      rfl⟩) ht
  · rintro h _ ⟨i, p, path, a, t, file, hi, hlocate, hfile, rfl⟩
    refine (not_offending_iff_of_type rfl rfl).mpr ?_
    exact h p (List.mem_of_getElem? hi) path a t hlocate (by rw [hfile]; rfl)

theorem compliant_mknod_iff {devices : List Device} {u : Bool}
    (h : S.mknodBruteForce = .ok devices) :
    (∀ dev ∈ devices, ¬ dev.Offending u) ↔ S.Compliant u := by
  obtain ⟨dir, hdir, -, hd⟩ := MknodSystem.mknodBruteForce_eq_ok.mp h
  rw [hd]
  simp only [MknodSystem.mem_filterMap_listed]
  constructor
  · intro h dir' hdir' k i j hi hj hmakes
    obtain rfl := Except.ok.inj (hdir.symm.trans hdir')
    refine (not_offending_iff_of_type (t := k.type) rfl rfl).mp
      (h _ ⟨k, i, j, hi, hj, hmakes, rfl⟩) ?_
    cases k
    · exact Or.inl rfl
    · exact Or.inr rfl
  · rintro h _ ⟨k, i, j, hi, hj, hmakes, rfl⟩
    exact (not_offending_iff_of_type (t := k.type) rfl rfl).mpr fun _ =>
      h dir hdir k i j hi hj hmakes

theorem compliant_iff {u : Bool} (h : deviceConfig env₀ T nodes S = .ok c) :
    (∀ dev ∈ c.devDevices ++ c.mknodDevices, ¬ dev.Offending u) ↔
      T.Compliant nodes u ∧ S.Compliant u := by
  simp only [deviceConfig, bind_eq_ok, pure_eq_ok] at h
  obtain ⟨devDevices, hdev, mknodDevices, hmknod, rfl⟩ := h
  rw [List.forall_mem_append, compliant_dev_iff hdev, compliant_mknod_iff hmknod]

end

/-! ## Flag files -/

namespace Fs

/-- A mount namespace has a process by way of which the path is found. -/
def HostAnswers.FindsIn (host : HostAnswers) (mountNamespaces : List MountNamespace)
    (path : String) : Prop :=
  ∃ mountns ∈ mountNamespaces, ∃ pid, mountns.nsPids.find? host.usable = some pid ∧
    host.Finds pid mountns path

variable {procDir : Ns.ProcDir} {answers : ℕ → Answers} {pidCfg : Option (List PidT × Bool)}
  {host : HostAnswers} {r : List MountNamespace}

/-- A run on the host that returns has searched all of its mount namespaces. -/
theorem searched_of_processMountpointsHost
    (h : processMountpointsHost procDir answers host pidCfg = .ok r) :
    ∃ mountNamespaces, getMountinfos procDir answers pidCfg = .ok mountNamespaces ∧
      List.Forall₂ (Searched host) mountNamespaces r := by
  rw [processMountpointsHost, bind_eq_ok] at h
  obtain ⟨mountNamespaces, hm, h⟩ := h
  refine ⟨mountNamespaces, hm, ?_⟩
  have hboth := (List.forall₂_and_left _ _).mpr ⟨unsearched_getMountinfos hm, mapM_eq_ok.mp h⟩
  refine hboth.imp fun mountns mountns' h => ?_
  obtain ⟨hu, hs⟩ := h
  obtain ⟨flagFiles, hf, hnd, hfound, hnone⟩ :=
    searchNamespace_of_tried hu (tried_of_searchNamespace hs)
  obtain rfl := Outcome.ok_unique hf hs
  exact ⟨rfl, hnd, hfound, hnone⟩

theorem exists_flag_iff_findsIn {mountNamespaces : List MountNamespace} {path : String}
    (h : List.Forall₂ (Searched host) mountNamespaces r) :
    (∃ mountns ∈ r, path ∈ mountns.flagFiles) ↔ host.FindsIn mountNamespaces path := by
  refine (exists_mem_iff_of_forall₂ h fun mountns mountns' hs => ?_).symm
  cases hf : mountns.nsPids.find? host.usable with
  | none => simp [hs.unsearched hf]
  | some pid => simp [hs.found pid hf]

end Fs

/-- Goal S3 is met exactly if the user mapping is unique, the search of the reference container
finds nothing, and the search of the host finds flags with a UUID only below the root of the
container. -/
theorem goalS3_found {procDir refProcDir : Ns.ProcDir} {answers refAnswers : ℕ → Fs.Answers}
    {host refHost : Fs.HostAnswers} {pidCfg refPidCfg : Option (List PidT × Bool)} {fs : Fs.Config}
    (hconf : config.fsConfig = some fs)
    (hhost : Fs.processMountpointsHost procDir answers host pidCfg = .ok fs.hostNamespaces)
    (href : Fs.processMountpointsHost refProcDir refAnswers refHost refPidCfg =
      .ok fs.refContainerNamespaces)
    (h : EvalResult.fromConfig env config root = .ok e) :
    ∃ k r hostNamespaces refNamespaces, config = Collected.toConfig k ∧
      assessEvalResult env e = .ok r ∧
      Fs.getMountinfos procDir answers pidCfg = .ok hostNamespaces ∧
      Fs.getMountinfos refProcDir refAnswers refPidCfg = .ok refNamespaces ∧
      (r.Graded .s3 .ok ↔ k.userNs.uniqueMapping = true ∧
        (∀ path, ¬ refHost.FindsIn refNamespaces path) ∧
        ∀ path, host.FindsIn hostNamespaces path → ContainsUuid path → Path.Below path root) := by
  obtain ⟨x, y, rfl, hr, hg⟩ := exists_report h
  obtain ⟨hostNamespaces, hhn, hhs⟩ := Fs.searched_of_processMountpointsHost hhost
  obtain ⟨refNamespaces, hrn, hrs⟩ := Fs.searched_of_processMountpointsHost href
  refine ⟨x.input, y.report, hostNamespaces, refNamespaces, x.config_eq, hr, hhn, hrn, ?_⟩
  have hx : x.input.fs = fs := by
    rw [x.config_eq] at hconf
    exact Option.some.inj hconf
  rw [(hg .s3).unique, Evaluation.verdict_s3_eq_ok_iff, hx]
  refine and_congr_right fun _ => and_congr ?_ ?_
  · simp only [← Fs.exists_flag_iff_findsIn hrs, List.eq_nil_iff_forall_not_mem, not_exists,
      not_and]
    exact ⟨fun h path mountns hm => h mountns hm path, fun h mountns hm path => h path mountns hm⟩
  · simp only [← Fs.exists_flag_iff_findsIn hhs, Leaks, not_and, not_not]
    constructor
    · rintro h path ⟨mountns, hm, hf⟩
      exact h mountns hm path hf
    · exact fun h mountns hm path hf => h path ⟨mountns, hm, hf⟩

end

end Checkc

import Checkc.Evaluation.Limits
import Checkc.Main.Commands
import Checkc.Pipeline.Capabilities

/-! # Runs on both sides

A run on the host and a run in the container return reports. These are evaluated together, whatever
the system answered in the runs.
-/

namespace Checkc

open Outcome (bind_eq_ok pure_eq_ok)

open Fs

/-! ## Two systems -/

/-- The mount namespace of the host has a flag file on its mount point, and that of the third
process has none. -/
def leakyMounts : MountKernel where
  alloc := Descriptors.lowestFree
  ownPid := 1
  currentDir := .ok ()
  procDir _ := threeProcesses
  answers _ := mountedAnswers
  openNs _ pid := .ok (if pid = 3 then ⟨4, 20⟩ else ⟨4, 10⟩)
  cmdline _ _ := .ok (.ok "sh")
  rejoin _ := .ok ()
  join _ := .ok ()
  closeJoined _ := .ok ()
  search ns _ location :=
    if ns = ⟨4, 10⟩ then
      [location, location ++ "/xyz_checkc_flag_01234567-89ab-cdef-0123-456789abcdef"]
    else []
  restore := .ok ()
  closeOwn := .ok ()
  chdir := .ok ()

/-- A host on which the second process is the container and the third one the reference
container. -/
def leakyHost : HostSystem where
  env := .logging
  fuel := 4
  alloc := Descriptors.lowestFree
  kernel := .withContainer
  procDir := .withContainer
  status _ := .ok statusLines
  cgroup := Cgroup.nestedSystem (.ok (.ok "max 100000\n"))
  hostname := .ok "host"
  domainname := .ok ""
  overflowChecks := true
  idMaps _ :=
    { uidMap := .ok ⟨[.ok "0 100000 65536"], true⟩, gidMap := .ok ⟨[.ok "0 100000 65536"], true⟩ }
  roots := { metadata pid := .ok (2, if pid = 1 then 1 else 5), readLink _ := .ok "/" }
  listed _ _ := threeProcesses
  stat _ _ _ _ pid := .ok (.ok (if pid = 1 then "1 (init) S 0 " else "2 (sh) S 1 "))
  mounts _ := leakyMounts

/-- A tree with the null device only. -/
def nullTree : DevTree String Unit :=
  { linkedDisk with
    walk := [.ok ("/dev/null", false)]
    canonicalize := .ok
    readLink := .ok
    rdev := fun _ => 0x103
    openAs := fun _ _ _ => .ok () }

/-- A container with the null device and with a filter of system calls. -/
def restricted : ContainerSystem String Unit where
  env := .logging
  euid := 0
  hostname := .ok "c"
  domainname := .ok ""
  devTree := nullTree
  nodes _ := ⟨0o020666, 0, 0⟩
  mknod := MknodSystem.nullOnly
  status := .ok StatusFile.forgedFile.lines
  mount := .error "EPERM"
  mounts := leakyMounts
  os := keepsFiles
  uuid := "01234567-89ab-cdef-0123-456789abcdef"

theorem exists_leakyHost : ∃ host s',
    (leakyHost.hostReport ⟨1, 2, 3⟩).run startProcess = (.ok host, s') := ⟨_, _, rfl⟩

theorem exists_restricted : ∃ container t',
    restricted.containerReport.run startProcess = (.ok container, t') := ⟨_, _, rfl⟩

section

variable {env : Env} {root : PathBuf} {e : EvalResult} {S : HostSystem} {args : HostArgs}
  {π ι : Type} [DecidableEq ι] {C : ContainerSystem π ι} {s s' t t' : Process}
  {host container config : Config}

/-! ## The reports -/

theorem HostSystem.exists_report (h : (S.hostReport args).run s = (.ok host, s')) :
    ∃ p : HostPart, host = p.report ∧ S.Reports args
      (fun i pid l => ∃ ns, S.pids i ns pid = .ok l)
      (fun _ pidList includeMode r => ∀ n ∈ r, Fs.Listed (some (pidList, includeMode)) n) p := by
  refine (S.yields_hostReport args (I := fun _ => True) (J := fun _ => True) (fun _ _ h => h)
    (fun _ _ _ h => h) (fun i pid => ?_) ?_).of_run trivial trivial h |>.1
  · exact Session.yields_read fun s _ l hl => ⟨s.mntns, hl⟩
  · exact fun i l includeMode => yields_fsConfigHostview l includeMode

theorem ContainerSystem.exists_report (h : C.containerReport.run t = (.ok container, t')) :
    ∃ c : ContainerPart, container = c.report ∧ C.Reports c :=
  (C.yields_containerReport.of_run trivial trivial h).1

theorem HostSystem.mem_pids {i : ℕ} {ns : Ns.Id} {pid : PidT} {l : List PidT}
    (h : S.pids i ns pid = .ok l) : pid ∈ l := by
  have hl := h
  rw [HostSystem.pids, getContainerPids, bind_eq_ok] at h
  obtain ⟨pids, hpids, -⟩ := h
  rw [((getContainerPids_eq_ok hpids).mp hl).2]
  exact List.mem_cons_self

/-- The processes of the views. A process that is left out of one of them is not in it, however the
processes move and wherever the run is when it lists them. -/
theorem hostReport_separates (h : (S.hostReport args).run s = (.ok host, s')) :
    ∃ fs, host.fsConfig = some fs ∧
      (∃ ns test, S.pids 0 ns args.pidContainer = .ok test ∧
        ∀ n ∈ fs.containerNamespaces, ∀ p ∈ n.nsPids, p ∈ test) ∧
      (∃ ns ref, S.pids 1 ns args.pidRefContainer = .ok ref ∧
        ∀ n ∈ fs.refContainerNamespaces, ∀ p ∈ n.nsPids, p ∈ ref) ∧
      ∃ ns ns' test ref, S.pids 2 ns args.pidContainer = .ok test ∧
        S.pids 3 ns' args.pidRefContainer = .ok ref ∧
        args.pidContainer ∈ test ∧ args.pidRefContainer ∈ ref ∧
        ∀ n ∈ fs.hostNamespaces, ∀ p ∈ n.nsPids, p ∉ test ∧ p ∉ ref := by
  obtain ⟨p, rfl, hp⟩ := HostSystem.exists_report h
  obtain ⟨test, ref, ⟨ns, htest⟩, ⟨ns', href⟩, hv, hv'⟩ := hp.containers
  obtain ⟨test', ref', ⟨ns₂, htest'⟩, ⟨ns₃, href'⟩, hv₂⟩ := hp.others
  refine ⟨p.fs, rfl, ⟨ns, test, htest, fun n hn q hq => ?_⟩, ⟨ns', ref, href, fun n hn q hq => ?_⟩,
    ns₂, ns₃, test', ref', htest', href', S.mem_pids htest', S.mem_pids href',
    fun n hn q hq => ?_⟩
  · exact skips_include.mp ((hv n hn).nsPids q hq)
  · exact skips_include.mp ((hv' n hn).nsPids q hq)
  · rw [← not_or, ← List.mem_append]
    exact skips_exclude.mp ((hv₂ n hn).nsPids q hq)

theorem hostReport_separates_leakyHost : ∃ host s' fs,
    (leakyHost.hostReport ⟨1, 2, 3⟩).run startProcess = (.ok host, s') ∧ host.fsConfig = some fs ∧
      ∀ n ∈ fs.hostNamespaces, 2 ∉ n.nsPids ∧ 3 ∉ n.nsPids := by
  obtain ⟨host, s', hrun⟩ := exists_leakyHost
  obtain ⟨fs, hfs, -, -, _, _, test, ref, -, -, htest, href, hviews⟩ := hostReport_separates hrun
  refine ⟨host, s', fs, hrun, hfs, fun n hn => ⟨fun h2 => ?_, fun h3 => ?_⟩⟩
  · exact (hviews n hn 2 h2).1 htest
  · exact (hviews n hn 3 h3).2 href

/-- Where each call of a run on the host may look up what, after these accesses. -/
def HostSystem.Accessed (S : HostSystem) (own : Ns.Id) (base : List (Access × Ns.Id))
    (s : Process) : Prop :=
  ∃ new, s.accesses = base ++ new ∧ ∀ p ∈ new, ∃ i, p.1.Allowed (S.mounts i) own p.2

theorem HostSystem.Accessed.append {own : Ns.Id} {base new : List (Access × Ns.Id)} {i : ℕ}
    (hs : S.Accessed own base s) (ht : t.accesses = s.accesses ++ new)
    (hnew : ∀ p ∈ new, p.1.Allowed (S.mounts i) own p.2) : S.Accessed own base t := by
  obtain ⟨old, hold, hall⟩ := hs
  refine ⟨old ++ new, by rw [ht, hold, List.append_assoc], ?_⟩
  rw [List.forall_mem_append]
  exact ⟨hall, fun p hp => ⟨i, hnew p hp⟩⟩

/-- Whatever the system answers, a run on the host looks up processes in another mount namespace
than its own only if it could not join that one, and it searches a location only in the mount
namespace of the process by way of which it does. If it reports, then it has its own mount namespace
again. It has all its descriptors, and no other ones if each query about a namespace gives back what
it opens. -/
theorem hostReport_accesses {own : Ns.Id} (hs : s.mntns = own)
    (hown : ∀ i ns, (S.mounts i).openNs own (S.mounts i).ownPid = .ok ns → ns = own)
    (hrestore : ∀ i, (S.mounts i).restore = .ok ()) (args : HostArgs) :
    S.Accessed own s.accesses ((S.hostReport args).run s).2 ∧
      ∀ config s', (S.hostReport args).run s = (.ok config, s') →
        s'.mntns = own ∧ s.table.Grows s'.table ∧
          (Descriptors.Answered S.kernel → s'.table = s.table) := by
  have hyields := S.yields_hostReport args (I := S.Accessed own s.accesses)
    (J := fun s' => s'.mntns = own ∧ Descriptors.Kept S.kernel s.table s'.table)
    (L := fun _ _ _ => True) (V := fun _ _ _ _ => True) (fun _ _ h => h) ?_
    (fun _ _ => Session.yields_read fun _ _ _ _ => trivial) ?_
  · have hstart : S.Accessed own s.accesses s := ⟨[], by simp⟩
    have hkept := refl_of (Descriptors.Kept S.kernel) s.table
    exact ⟨hyields.kept hstart ⟨hs, hkept⟩,
      fun config s' hr => (hyields.of_run hstart ⟨hs, hkept⟩ hr).2⟩
  · rintro s' t ht ⟨hmntns, hkept⟩
    exact ⟨hmntns, trans_of (Descriptors.Kept S.kernel) hkept ht⟩
  rintro i l includeMode s' ⟨hacc, rfl, hkept⟩
  obtain ⟨⟨new, hnew, hall⟩, hback⟩ := leaves_fsConfigHostview (hown i) l includeMode
  have hafter := hacc.append hnew hall
  cases hr : ((fsConfigHostview (S.mounts i) l includeMode).run s').1 with
  | ok r =>
    have hgiven := hback (by rw [hr]; trivial)
    exact ⟨trivial, hafter, hgiven.mntns (hrestore i), hgiven.table.symm ▸ hkept⟩
  | err e | panic msg | outOfFuel => exact hafter

theorem hostReport_accesses_leakyHost : ∃ host s',
    (leakyHost.hostReport ⟨1, 2, 3⟩).run startProcess = (.ok host, s') ∧
      leakyHost.Accessed ⟨4, 10⟩ [] s' ∧ s'.mntns = ⟨4, 10⟩ ∧
      s'.table = Descriptors.standardTable := by
  obtain ⟨host, s', hrun⟩ := exists_leakyHost
  have hown : ∀ i ns, (leakyHost.mounts i).openNs ⟨4, 10⟩ (leakyHost.mounts i).ownPid = .ok ns →
      ns = ⟨4, 10⟩ := fun _ _ h => (Except.ok.inj h).symm
  obtain ⟨hacc, hback⟩ := hostReport_accesses (s := startProcess) rfl hown (fun _ => rfl) ⟨1, 2, 3⟩
  rw [hrun] at hacc
  obtain ⟨hmntns, -, htable⟩ := hback host s' hrun
  exact ⟨host, s', hrun, hacc, hmntns, htable Descriptors.answered_withContainer⟩

/-! ## The evaluation -/

theorem wellFormed_combined {L : ℕ → PidT → List PidT → Prop} {p : HostPart} {c : ContainerPart}
    (hp : S.Reports args L
      (fun _ pidList includeMode r => ∀ n ∈ r, Fs.Listed (some (pidList, includeMode)) n) p)
    (hc : C.Reports c) : (p.combined c).WellFormed where
  devices := typed_of_deviceConfig hc.device
  mounts := by
    obtain ⟨test, ref, -, -, -, hv⟩ := hp.containers
    obtain ⟨test', ref', -, -, hv'⟩ := hp.others
    obtain ⟨ns, tried, hmounts⟩ := hc.mounts
    have hlisted := listed_processMountpointsContainer hmounts
    simp only [List.forall_mem_append]
    exact ⟨⟨fun n hn => (hlisted n hn).nsId, fun n hn => (hv n hn).nsId⟩,
      fun n hn => (hv' n hn).nsId⟩

theorem exists_evaluate (hh : (S.hostReport args).run s = (.ok host, s'))
    (hc : C.containerReport.run t = (.ok container, t')) (env : Env) (root : PathBuf) :
    ∃ e, evaluate env container host root = .ok e := by
  obtain ⟨p, rfl, hp⟩ := HostSystem.exists_report hh
  obtain ⟨c, rfl, hreports⟩ := ContainerSystem.exists_report hc
  obtain ⟨x⟩ := (wellFormed_combined hp hreports).exists_evaluation hp.ns env root
  exact ⟨x.result, fromConfig_eq_ok.mpr ⟨x, rfl⟩⟩

theorem exists_evaluated : ∃ host s' container t' e,
    (leakyHost.hostReport ⟨1, 2, 3⟩).run startProcess = (.ok host, s') ∧
    restricted.containerReport.run startProcess = (.ok container, t') ∧
    evaluate .logging container host "/c" = .ok e := by
  obtain ⟨host, s', hh⟩ := exists_leakyHost
  obtain ⟨container, t', hc⟩ := exists_restricted
  obtain ⟨e, he⟩ := exists_evaluate hh hc .logging "/c"
  exact ⟨host, s', container, t', e, hh, hc, he⟩

theorem exists_grades (h : EvalResult.fromConfig env config root = .ok e) :
    ∃ r, assessEvalResult env e = .ok r ∧ ∀ g, r.Graded g .ok ∨ r.Graded g .error := by
  obtain ⟨x, y, rfl, hr, hg⟩ := Checkc.exists_report h
  refine ⟨y.report, hr, fun g => ?_⟩
  rcases Posture.binary_verdict Evaluation.unspecified_notMem_permitted g with hv | hv
  · exact Or.inl (hv ▸ hg g)
  · exact Or.inr (hv ▸ hg g)

/-- Whatever the system answers, the reports of two runs that return are evaluated and assessed, and
each goal is met or not. Reports that are mixed up are not evaluated. -/
theorem reports_evaluated (hh : (S.hostReport args).run s = (.ok host, s'))
    (hc : C.containerReport.run t = (.ok container, t')) (env : Env) (root : PathBuf) :
    (∃ e r, evaluate env container host root = .ok e ∧ assessEvalResult env e = .ok r ∧
      ∀ g, r.Graded g .ok ∨ r.Graded g .error) ∧
    evaluate env host container root = .panic "host part does not contain ns_config" ∧
    evaluate env container container root = .panic "host part does not contain ns_config" ∧
    evaluate env host host root = .panic "container part does not contain seccomp_config" := by
  obtain ⟨e, he⟩ := exists_evaluate hh hc env root
  obtain ⟨p, rfl, -⟩ := HostSystem.exists_report hh
  obtain ⟨c, rfl, -⟩ := ContainerSystem.exists_report hc
  refine ⟨?_, rfl, rfl, rfl⟩
  obtain ⟨config, -, hconfig⟩ := evaluate_eq_ok.mp he
  obtain ⟨r, hr, hg⟩ := exists_grades hconfig
  exact ⟨e, r, he, hr, hg⟩

theorem reports_evaluated_restricted : ∃ host s' container t' e r,
    (leakyHost.hostReport ⟨1, 2, 3⟩).run startProcess = (.ok host, s') ∧
    restricted.containerReport.run startProcess = (.ok container, t') ∧
    evaluate .logging container host "/c" = .ok e ∧ assessEvalResult .logging e = .ok r ∧
    ∀ g, r.Graded g .ok ∨ r.Graded g .error := by
  obtain ⟨host, s', hh⟩ := exists_leakyHost
  obtain ⟨container, t', hc⟩ := exists_restricted
  obtain ⟨⟨e, r, he, hr, hg⟩, -⟩ := reports_evaluated hh hc .logging "/c"
  exact ⟨host, s', container, t', e, r, hh, hc, he, hr, hg⟩

end

end Checkc

import Checkc.Main.Runs

/-! # Goals of runs

The verdicts on the goals are traced back to what the system answered in the runs on the host and in
the container.
-/

namespace Checkc

open Outcome (bind_eq_ok pure_eq_ok)

open Criticality Fs

section

variable {env : Env} {root : PathBuf} {e : EvalResult} {S : HostSystem} {args : HostArgs}
  {π ι : Type} [DecidableEq ι] {C : ContainerSystem π ι} {s s' t t' : Process}
  {host container config : Config}

/-! ## Devices and system calls -/

/-- Whatever the host reports, goal S2 is met exactly if the run in the container neither finds a
device on a path that is text, nor can make and open one up to the largest numbers, that is not
whitelisted. -/
theorem goalS2_of_containerReport (hc : C.containerReport.run t = (.ok container, t'))
    (h : evaluate env container host root = .ok e) :
    ∃ ns r, host.nsConfig = some ns ∧ assessEvalResult env e = .ok r ∧
      (r.Graded .s2 .ok ↔ C.devTree.Compliant C.nodes (decide ns.OwnUserNs) ∧
        C.mknod.Compliant (decide ns.OwnUserNs)) := by
  obtain ⟨c, rfl, hreports⟩ := ContainerSystem.exists_report hc
  obtain ⟨config, hcombine, he⟩ := evaluate_eq_ok.mp h
  have hcombined := combined_of_combine hcombine
  obtain ⟨x, y, rfl, hr, hg⟩ := exists_report he
  have hdevice : c.device = x.input.device :=
    Option.some.inj (hcombined.deviceConfig.symm.trans (congrArg Config.deviceConfig x.config_eq))
  refine ⟨x.input.ns, y.report, ?_, hr, ?_⟩
  · exact hcombined.nsConfig.symm.trans (congrArg Config.nsConfig x.config_eq)
  · rw [(hg .s2).unique, Evaluation.verdict_s2_eq_ok_iff, ← hdevice, compliant_iff hreports.device]

theorem compliant_nullTree (u : Bool) : nullTree.Compliant (fun _ => ⟨0o020666, 0, 0⟩) u := by
  intro p hp path a t hlocate _ _
  obtain rfl := List.mem_singleton.mp hp
  cases hlocate
  decide +revert

theorem MknodSystem.compliant_nullOnly (u : Bool) : nullOnly.Compliant u := by
  rintro dir hdir k i j - - ⟨hmade, -⟩
  obtain rfl := Except.ok.inj hdir
  simp only [nullOnly] at hmade
  split_ifs at hmade with h
  obtain ⟨rfl, rfl, rfl⟩ := nodePath_injective h.1
  decide +revert

theorem goalS2_of_containerReport_restricted : ∃ host s' container t' e r,
    (leakyHost.hostReport ⟨1, 2, 3⟩).run startProcess = (.ok host, s') ∧
    restricted.containerReport.run startProcess = (.ok container, t') ∧
    evaluate .logging container host "/c" = .ok e ∧ assessEvalResult .logging e = .ok r ∧
    r.Graded .s2 .ok := by
  obtain ⟨host, s', container, t', e, hh, hc, he⟩ := exists_evaluated
  obtain ⟨ns, r, -, hr, hiff⟩ := goalS2_of_containerReport hc he
  refine ⟨host, s', container, t', e, r, hh, hc, he, hr, hiff.mpr ⟨?_, ?_⟩⟩
  · exact compliant_nullTree _
  · exact MknodSystem.compliant_nullOnly _

/-- Whatever the host reports and whatever the name of the process in the container is, the test of
the seccomp mode passes exactly if the kernel prints the mode of a filter or the strict one. -/
theorem seccompEnabled_of_containerReport {f : StatusFile} {n : ℕ} (hf : f.PrintsSeccomp n)
    (hstatus : C.status = .ok f.lines) (hc : C.containerReport.run t = (.ok container, t'))
    (h : evaluate env container host root = .ok e) :
    ∃ test, e.getTest "access_control" "seccomp_enabled" = .ok test ∧ test.valid = true ∧
      (test.passed = true ↔ n = 1 ∨ n = 2) := by
  obtain ⟨c, rfl, hreports⟩ := ContainerSystem.exists_report hc
  obtain ⟨config, hcombine, he⟩ := evaluate_eq_ok.mp h
  obtain ⟨m, hm, hmode⟩ := hreports.seccomp
  rw [hstatus] at hm
  refine seccompEnabled_passed_iff hf hm ?_ he
  rw [(combined_of_combine hcombine).seccompConfig, ← hmode]
  rfl

/-- The name of the process imitates the line of a process without a filter. -/
theorem seccompEnabled_of_containerReport_restricted : ∃ host s' container t' e test,
    StatusFile.forgedFile.nameLine = some "Name:\t\\nSeccomp:\t0" ∧
    (leakyHost.hostReport ⟨1, 2, 3⟩).run startProcess = (.ok host, s') ∧
    restricted.containerReport.run startProcess = (.ok container, t') ∧
    evaluate .logging container host "/c" = .ok e ∧
    e.getTest "access_control" "seccomp_enabled" = .ok test ∧ test.passed = true := by
  obtain ⟨host, s', container, t', e, hh, hc, he⟩ := exists_evaluated
  obtain ⟨test, htest, -, hiff⟩ :=
    seccompEnabled_of_containerReport StatusFile.printsSeccomp_forgedFile rfl hc he
  exact ⟨host, s', container, t', e, test, by decide +kernel, hh, hc, he, htest,
    hiff.mpr (Or.inr rfl)⟩

/-! ## Leaks -/

/-- What a run on the host that gets back to its own mount namespace has searched. -/
theorem HostSystem.exists_searches {own : Ns.Id} (hs : s.mntns = own)
    (hback : ∀ i, (S.mounts i).GetsBack own) (hh : (S.hostReport args).run s = (.ok host, s')) :
    ∃ p : HostPart, host = p.report ∧
      UserNs.userNsConfig S.overflowChecks S.kernel S.idMaps S.procDir args.pidContainer =
        .ok p.userNs ∧
      ∃ ref test ref', S.pids 1 own args.pidRefContainer = .ok ref ∧
        S.pids 2 own args.pidContainer = .ok test ∧
        S.pids 3 own args.pidRefContainer = .ok ref' ∧
        processMountpointsHost ((S.mounts 1).procDir own) ((S.mounts 1).answers own)
          ((S.mounts 1).host own) (some (ref, true)) = .ok p.fs.refContainerNamespaces ∧
        processMountpointsHost ((S.mounts 2).procDir own) ((S.mounts 2).answers own)
          ((S.mounts 2).host own) (some (test ++ ref', false)) = .ok p.fs.hostNamespaces := by
  obtain ⟨⟨p, rfl, hp⟩, -⟩ := (S.yields_hostReport args (J := fun s => s.mntns = own)
    (L := fun i pid l => S.pids i own pid = .ok l) (fun _ _ h => h) (fun _ _ _ h => h)
    (fun i pid => Session.yields_read fun s hs l hl => hs ▸ hl)
    (fun i l includeMode => (hback i).yields l includeMode)).of_run trivial hs hh
  obtain ⟨-, ref, -, href, -, hviewRef⟩ := hp.containers
  obtain ⟨test, ref', htest, href', hview⟩ := hp.others
  exact ⟨p, rfl, hp.userNs, ref, test, ref', href, htest, href', hviewRef, hview⟩

/-- Whatever the container reports, if the run on the host always gets back to its own mount
namespace, then goal S3 is met exactly if the user mapping is unique, no flag is found in the view
of the reference container, and in the view of the host flags with a UUID are found only below the
root of the container. -/
theorem goalS3_of_hostReport {own : Ns.Id} (hs : s.mntns = own)
    (hback : ∀ i, (S.mounts i).GetsBack own) (hh : (S.hostReport args).run s = (.ok host, s'))
    (h : evaluate env container host root = .ok e) :
    ∃ r userNs ref test ref' refNamespaces hostNamespaces, assessEvalResult env e = .ok r ∧
      UserNs.userNsConfig S.overflowChecks S.kernel S.idMaps S.procDir args.pidContainer =
        .ok userNs ∧
      S.pids 1 own args.pidRefContainer = .ok ref ∧ S.pids 2 own args.pidContainer = .ok test ∧
      S.pids 3 own args.pidRefContainer = .ok ref' ∧
      getMountinfos ((S.mounts 1).procDir own) ((S.mounts 1).answers own) (some (ref, true)) =
        .ok refNamespaces ∧
      getMountinfos ((S.mounts 2).procDir own) ((S.mounts 2).answers own)
        (some (test ++ ref', false)) = .ok hostNamespaces ∧
      (r.Graded .s3 .ok ↔ userNs.uniqueMapping = true ∧
        (∀ path, ¬ ((S.mounts 1).host own).FindsIn refNamespaces path) ∧
        ∀ path, ((S.mounts 2).host own).FindsIn hostNamespaces path → ContainsUuid path →
          Path.Below path root) := by
  obtain ⟨p, rfl, huserNs, ref, test, ref', href, htest, href', hviewRef, hview⟩ :=
    HostSystem.exists_searches hs hback hh
  obtain ⟨config, hcombine, he⟩ := evaluate_eq_ok.mp h
  obtain ⟨c, rfl⟩ := HostPart.exists_combined hcombine
  have hfs : (p.combined c).toConfig.fsConfig = some (p.combined c).fs := rfl
  obtain ⟨k, r, hostNamespaces, refNamespaces, hk, hr, hhost, hrefs, hiff⟩ :=
    goalS3_found hfs hview hviewRef he
  obtain rfl := Collected.toConfig_injective hk
  exact ⟨r, p.userNs, ref, test, ref', refNamespaces, hostNamespaces, hr, huserNs, href, htest,
    href', hrefs, hhost, hiff⟩

theorem getsBack_leakyMounts : leakyMounts.GetsBack ⟨4, 10⟩ := ⟨rfl, rfl, fun _ => rfl, rfl⟩

/-- The namespace that the host is in, as it is listed for the first process. -/
def leakyNamespace : MountNamespace :=
  ⟨some ⟨4, 10⟩, [1], [], ["36 35 98:0 / /mnt rw - ext3 /dev/r rw"], []⟩

theorem pids_leakyHost : leakyHost.pids 2 ⟨4, 10⟩ 2 = .ok [2] ∧
    leakyHost.pids 3 ⟨4, 10⟩ 3 = .ok [3] := by
  decide +kernel

theorem getMountinfos_leakyHost : getMountinfos threeProcesses mountedAnswers
    (some ([2, 3], false)) = .ok [leakyNamespace] := by
  decide +kernel

theorem findsIn_leakyNamespace : (leakyMounts.host ⟨4, 10⟩).FindsIn [leakyNamespace]
    "/mnt/xyz_checkc_flag_01234567-89ab-cdef-0123-456789abcdef" :=
  ⟨_, List.mem_cons_self, 1, by decide, _, List.mem_cons_self, "/mnt", by decide +kernel,
    by decide, by decide⟩

/-- The flag file of the container is found in the mount namespace of the host. -/
theorem goalS3_of_hostReport_leakyHost : ∃ host s' container t' e r,
    (leakyHost.hostReport ⟨1, 2, 3⟩).run startProcess = (.ok host, s') ∧
    restricted.containerReport.run startProcess = (.ok container, t') ∧
    evaluate .logging container host "/c" = .ok e ∧ assessEvalResult .logging e = .ok r ∧
    ¬ r.Graded .s3 .ok := by
  obtain ⟨host, s', container, t', e, hh, hc, he⟩ := exists_evaluated
  obtain ⟨r, userNs, ref, test, ref', refNamespaces, hostNamespaces, hr, -, -, htest, href, -,
    hhost, hiff⟩ := goalS3_of_hostReport rfl (fun _ => getsBack_leakyMounts) hh he
  refine ⟨host, s', container, t', e, r, hh, hc, he, hr, fun hok => ?_⟩
  obtain rfl := Outcome.ok_unique pids_leakyHost.1 htest
  obtain rfl := Outcome.ok_unique pids_leakyHost.2 href
  obtain rfl := Outcome.ok_unique getMountinfos_leakyHost hhost
  have huuid : ContainsUuid "/mnt/xyz_checkc_flag_01234567-89ab-cdef-0123-456789abcdef" :=
    containsUuid_below (containsUuid_flagFile isUuid_sample) "/mnt"
  exact absurd ((hiff.mp hok).2.2 _ findsIn_leakyNamespace huuid) (by decide)

/-- A flag file that the run in the container created, and that the run on the host finds under its
name anywhere but below the root of the container, is an error of goal S3. -/
theorem leak_detected {own : Ns.Id} (hs : s.mntns = own)
    (hback : ∀ i, (S.mounts i).GetsBack own) (huuid : IsUuid C.uuid.toList)
    (hh : (S.hostReport args).run s = (.ok host, s'))
    (hc : C.containerReport.run t = (.ok container, t'))
    (h : evaluate env container host root = .ok e) {fs : Fs.Config}
    (hfs : container.fsConfig = some fs) {mountns : MountNamespace}
    (hmem : mountns ∈ fs.containerNamespaces) {name : String} (mountpoint dir : String)
    (hname : '/' ∉ name.toList) (hflag : s!"{mountpoint}/{name}" ∈ mountns.flagFiles)
    {test ref : List PidT} {hostNamespaces : List MountNamespace}
    (htest : S.pids 2 own args.pidContainer = .ok test)
    (href : S.pids 3 own args.pidRefContainer = .ok ref)
    (hview : getMountinfos ((S.mounts 2).procDir own) ((S.mounts 2).answers own)
      (some (test ++ ref, false)) = .ok hostNamespaces)
    (hfound : ((S.mounts 2).host own).FindsIn hostNamespaces s!"{dir}/{name}")
    (hout : ¬ Path.Below s!"{dir}/{name}" root) :
    ∃ r, assessEvalResult env e = .ok r ∧ r.Graded .s3 .error := by
  obtain ⟨p, rfl, -, ref₁, test', ref', -, htest', href', hsearch, hsearch'⟩ :=
    HostSystem.exists_searches hs hback hh
  obtain rfl := Outcome.ok_unique htest htest'
  obtain rfl := Outcome.ok_unique href href'
  obtain ⟨c, rfl, hreports⟩ := ContainerSystem.exists_report hc
  obtain rfl := Option.some.inj hfs
  -- the name is that of the flag file of the run in the container
  obtain ⟨ns, tried, hmounts⟩ := hreports.mounts
  obtain ⟨entries, -, hflagged⟩ := flagged_processMountpointsContainer hmounts
  obtain ⟨entry, -, hentry⟩ := exists_mem_of_forall₂ hflagged hmem
  obtain ⟨mp, -, hpath⟩ := hentry.placed _ hflag
  obtain rfl := name_of_flagPath (slash_notMem_flagFile huuid) hname hpath
  rw [evaluate_report] at h
  have hconf : (p.combined c).toConfig.fsConfig = some (p.combined c).fs := rfl
  obtain ⟨k, r, hostNamespaces', refNamespaces, -, hr, hview', -, hiff⟩ :=
    goalS3_found hconf hsearch' hsearch h
  obtain rfl := Outcome.ok_unique hview hview'
  obtain ⟨r', hr', hg⟩ := exists_grades h
  obtain rfl := Outcome.ok_unique hr hr'
  refine ⟨r, hr, (hg .s3).resolve_left fun hok => hout ?_⟩
  exact (hiff.mp hok).2.2 _ hfound (containsUuid_below (containsUuid_flagFile huuid) dir)

/-- The container created its flag file on a mount point that the host sees at the same place. -/
theorem leak_detected_leakyHost : ∃ host s' container t' fs mountns e r,
    (leakyHost.hostReport ⟨1, 2, 3⟩).run startProcess = (.ok host, s') ∧
    restricted.containerReport.run startProcess = (.ok container, t') ∧
    container.fsConfig = some fs ∧ mountns ∈ fs.containerNamespaces ∧
    "/mnt/xyz_checkc_flag_01234567-89ab-cdef-0123-456789abcdef" ∈ mountns.flagFiles ∧
    evaluate .logging container host "/c" = .ok e ∧ assessEvalResult .logging e = .ok r ∧
    r.Graded .s3 .error := by
  obtain ⟨host, s', hh⟩ := exists_leakyHost
  obtain ⟨container, t', fs, mountns, hc, hfs, hmem, hflag⟩ : ∃ container t' fs mountns,
      restricted.containerReport.run startProcess = (.ok container, t') ∧
      container.fsConfig = some fs ∧ mountns ∈ fs.containerNamespaces ∧
      "/mnt/xyz_checkc_flag_01234567-89ab-cdef-0123-456789abcdef" ∈ mountns.flagFiles :=
    ⟨_, _, _, _, rfl, rfl, List.mem_cons_self, List.mem_cons_self⟩
  obtain ⟨e, he⟩ := exists_evaluate hh hc .logging "/c"
  obtain ⟨r, hr, hg⟩ := leak_detected rfl (fun _ => getsBack_leakyMounts) isUuid_sample hh hc he hfs
    hmem "/mnt" "/mnt" (slash_notMem_flagFile isUuid_sample) hflag pids_leakyHost.1 pids_leakyHost.2
    getMountinfos_leakyHost findsIn_leakyNamespace (by decide)
  exact ⟨host, s', container, t', fs, mountns, e, r, hh, hc, hfs, hmem, hflag, he, hr, hg⟩

/-! ## Namespaces, users and limits -/

/-- The namespaces of the process on the host, and those of the container with their owners. -/
structure HostSystem.Tells (S : HostSystem) (args : HostArgs) (idH idC ownerC : NsType → Ns.Id) :
    Prop where
  idH_eq : ∀ t ∈ NsType.list, Ns.Id.fromType S.kernel args.pidHost t = .ok (idH t)
  idC_eq : ∀ t ∈ NsType.list, Ns.Id.fromType S.kernel args.pidContainer t = .ok (idC t)
  ownerC_eq : ∀ t ∈ NsType.list, Ns.nsGetOwnerUserNs S.kernel args.pidContainer t = .ok (ownerC t)

/-- The namespace of the container differs from that of the host and belongs to the user namespace
of the container. -/
def Isolating (idH idC ownerC : NsType → Ns.Id) (t : NsType) : Prop :=
  idC t ≠ idH t ∧ (t = .user ∨ ownerC t = idC .user)

theorem exists_tells {p : HostPart} {L : ℕ → PidT → List PidT → Prop}
    {V : ℕ → List PidT → Bool → List MountNamespace → Prop} (hp : S.Reports args L V p)
    (hk : S.kernel.OwnersAgree) : ∃ idH idC ownerC, S.Tells args idH idC ownerC ∧
      (p.ns.OwnUserNs ↔ idC .user ≠ idH .user) ∧
      ∀ t ∈ NsType.list, p.ns.Active t ↔ Isolating idH idC ownerC t := by
  obtain ⟨idH, ownerH, idC, ownerC, hH, hC, hs⟩ := Ns.nsConfig_eq_ok hp.ns
  have hown : ∀ t ∈ NsType.list, idC t = idH t → ownerC t = ownerH t := fun t ht he =>
    hk _ _ t _ _ _ (hC.id_eq t ht) (he ▸ hH.id_eq t ht) (hC.owner_eq t ht) (hH.owner_eq t ht)
  refine ⟨idH, idC, ownerC, ⟨hH.id_eq, hC.id_eq, hC.owner_eq⟩, hs.ownUserNs_iff hown, ?_⟩
  intro t ht
  rw [hs.active_iff hown]
  exact and_iff_right ht

/-- Goal S1 is met exactly if the namespaces of the container of all types are isolating, its root
directory is one of its own, none of its users is root on the host, and it only has the permission
to change its root directory if its devices are restricted. -/
theorem goalS1_of_reports (hk : S.kernel.OwnersAgree)
    (hh : (S.hostReport args).run s = (.ok host, s'))
    (hc : C.containerReport.run t = (.ok container, t'))
    (h : evaluate env container host root = .ok e) :
    ∃ r idH idC ownerC hostRoot containerRoot uidMap gidMap lines mask,
      assessEvalResult env e = .ok r ∧ S.Tells args idH idC ownerC ∧
      Chroot.Root.fromPid S.roots args.pidHost = .ok hostRoot ∧
      Chroot.Root.fromPid S.roots args.pidContainer = .ok containerRoot ∧
      IdMapping.fromPid S.idMaps args.pidContainer = .ok (uidMap, gidMap) ∧
      S.status args.pidContainer = .ok lines ∧
      CapSet.capPrm.capsEncoded (lines.filterMap id) = .ok mask ∧
      (r.Graded .s1 .ok ↔ (∀ t ∈ NsType.list, Isolating idH idC ownerC t) ∧
        ((hostRoot.stDev ≠ containerRoot.stDev ∨ hostRoot.stIno ≠ containerRoot.stIno) ∧
          containerRoot.path = "/") ∧
        (∀ mapping ∈ uidMap, mapping.parent ≠ 0) ∧
        (mask.getLsbD (Capability.capSysChroot.number - 1) = true →
          C.devTree.Compliant C.nodes (idC .user ≠ idH .user) ∧
            C.mknod.Compliant (idC .user ≠ idH .user))) := by
  obtain ⟨p, rfl, hp⟩ := HostSystem.exists_report hh
  obtain ⟨c, rfl, hreports⟩ := ContainerSystem.exists_report hc
  rw [evaluate_report] at h
  obtain ⟨idH, idC, ownerC, htells, huser, hactive⟩ := exists_tells hp hk
  obtain ⟨x, y, rfl, hr, hg⟩ := exists_report h
  have hx : p.combined c = x.input := Collected.toConfig_injective x.config_eq
  have hmaps := hp.userNs
  simp only [UserNs.userNsConfig, bind_eq_ok, pure_eq_ok] at hmaps
  obtain ⟨⟨uidMap, gidMap⟩, hmaps, unique, -, huserNs⟩ := hmaps
  obtain ⟨lines, mask, -, hlines, hmask, -⟩ := Caps.capsConfig_capPrm hp.caps
  refine ⟨y.report, idH, idC, ownerC, p.hostRoot, p.containerRoot, uidMap, gidMap, lines, mask, hr,
    htells, hp.hostRoot, hp.containerRoot, hmaps, hlines, hmask, ?_⟩
  rw [(hg .s1).unique, Posture.verdict_s1_eq_ok_iff Evaluation.unspecified_notMem_permitted,
    Evaluation.missing_eq_empty_iff, Evaluation.rootShared_eq_false_iff, ← hx]
  refine and_congr ?_ (and_congr Iff.rfl (and_congr ?_ (imp_congr ?_ ?_)))
  · refine forall₂_congr fun t ht => ?_
    rw [x.mem_nsSet, ← hx]
    exact hactive t ht
  · simp [Evaluation.posture, ← hx, HostPart.combined, ← huserNs]
  · have hcaps : Caps.capsConfig S.env (.ok lines) = .ok x.input.caps := by
      rw [← hlines, ← hx]
      exact hp.caps
    rw [x.mem_permitted, Evaluation.mem_capabilities_of_mask hmask hcaps]
    simp
  · rw [Evaluation.verdict_s2_eq_ok_iff, ← hx, decide_eq_decide.mpr huser.symm]
    exact compliant_iff hreports.device

theorem isolating_leakyHost {idH idC ownerC : NsType → Ns.Id}
    (h : leakyHost.Tells ⟨1, 2, 3⟩ idH idC ownerC) :
    ∀ t ∈ NsType.list, Isolating idH idC ownerC t := by
  have hidH : ∀ t ∈ NsType.list, Ns.Id.ofContainer 1 t = idH t := fun t ht =>
    Outcome.ok.inj (h.idH_eq t ht)
  have hidC : ∀ t ∈ NsType.list, Ns.Id.ofContainer 2 t = idC t := fun t ht =>
    Outcome.ok.inj (h.idC_eq t ht)
  intro t ht
  have howner := Outcome.ok_unique (h.ownerC_eq t ht) (Ns.nsGetOwnerUserNs_withContainer 2 t)
  rw [Isolating, ← hidH t ht, ← hidC t ht, ← hidC .user (by decide), howner]
  refine ⟨Ns.Id.ofContainer_ne (by decide) t, or_iff_not_imp_left.mpr fun hu => ?_⟩
  rw [if_neg hu]

theorem goalS1_of_reports_restricted : ∃ host s' container t' e r,
    (leakyHost.hostReport ⟨1, 2, 3⟩).run startProcess = (.ok host, s') ∧
    restricted.containerReport.run startProcess = (.ok container, t') ∧
    evaluate .logging container host "/c" = .ok e ∧ assessEvalResult .logging e = .ok r ∧
    r.Graded .s1 .ok := by
  obtain ⟨host, s', container, t', e, hh, hc, he⟩ := exists_evaluated
  obtain ⟨r, idH, idC, ownerC, hostRoot, containerRoot, uidMap, gidMap, lines, mask, hr, htells,
    hhost, hcontainer, hmaps, hlines, hmask, hiff⟩ :=
      goalS1_of_reports Ns.Kernel.ownersAgree_withContainer hh hc he
  refine ⟨host, s', container, t', e, r, hh, hc, he, hr, hiff.mpr ⟨?_, ?_, ?_, ?_⟩⟩
  · exact isolating_leakyHost htells
  · cases hhost
    cases hcontainer
    decide
  · have hmap : IdMapping.fromPid leakyHost.idMaps 2 =
        .ok ([⟨0, 100000, 65536⟩], [⟨0, 100000, 65536⟩]) := by decide +kernel
    obtain ⟨rfl, -⟩ := Prod.mk.inj (Outcome.ok_unique hmap hmaps)
    decide
  · have hbits : CapSet.capPrm.capsEncoded (statusLines.filterMap id) =
        .ok 0x8000000000001001#64 := by decide +kernel
    cases hlines
    obtain rfl := Outcome.ok_unique hbits hmask
    exact fun hbit => absurd hbit (by decide)

/-- Goal S4 is met exactly if the control group namespace of the container is isolating, some
control group on the path that is read limits the processor and none hides this limit, and some
limits the memory. -/
theorem goalS4_of_hostReport {path : List Cgroup.Name} (hk : S.kernel.OwnersAgree)
    (hplaced : Cgroup.Placed S.cgroup args.pidContainer path)
    (hcpu : Cgroup.CpuFiles S.cgroup (Cgroup.asRead path))
    (hmemory : Cgroup.MemoryFiles S.cgroup (Cgroup.asRead path))
    (hh : (S.hostReport args).run s = (.ok host, s'))
    (h : evaluate env container host root = .ok e) :
    Cgroup.IsText path ∧
    ∃ r idH idC ownerC, assessEvalResult env e = .ok r ∧ S.Tells args idH idC ownerC ∧
      (r.Graded .s4 .ok ↔ Isolating idH idC ownerC .cgroup ∧
        ((∃ level ∈ Cgroup.levels (Cgroup.below (Cgroup.asRead path)),
            Cgroup.CpuLimited S.cgroup level) ∧
          ¬ Cgroup.CpuHidden S.cgroup (Cgroup.asRead path)) ∧
        ∃ level ∈ Cgroup.levels (Cgroup.below (Cgroup.asRead path)), ∃ value,
          Cgroup.MemoryLimit S.cgroup level value) := by
  obtain ⟨p, rfl, hp⟩ := HostSystem.exists_report hh
  obtain ⟨config, hcombine, he⟩ := evaluate_eq_ok.mp h
  obtain ⟨c, rfl⟩ := HostPart.exists_combined hcombine
  obtain ⟨idH, idC, ownerC, htells, -, hactive⟩ := exists_tells hp hk
  obtain ⟨x, y, rfl, hr, hg⟩ := exists_report he
  have hx : p.combined c = x.input := Collected.toConfig_injective x.config_eq
  refine ⟨Cgroup.isText_of_cgroupConfig hplaced hp.cgroup,
    y.report, idH, idC, ownerC, hr, htells, ?_⟩
  obtain ⟨hgetCpu, hgetMemory⟩ := Cgroup.get_interfaceFiles hplaced hp.cgroup
  rw [(hg .s4).unique, Posture.verdict, errorIf_eq_ok, not_or, not_or,
    ← Cgroup.found_cpuMax_iff hcpu, ← hmemory.found_memoryMax_iff,
    ← Cgroup.limitTest_passed_iff (hgetCpu hcpu),
    ← Cgroup.limitTest_passed_iff (hgetMemory hmemory)]
  refine and_congr ?_ ?_
  · rw [Evaluation.mem_missing, ← hactive .cgroup (by decide), x.mem_nsSet, ← hx]
    simp [HostPart.combined]
  · simp [Evaluation.posture, ← hx, HostPart.combined]

/-- The inner group of the container has a file without a limit, which hides the limit of the outer
one. -/
theorem goalS4_of_hostReport_leakyHost : ∃ host s' container t' e r,
    (leakyHost.hostReport ⟨1, 2, 3⟩).run startProcess = (.ok host, s') ∧
    restricted.containerReport.run startProcess = (.ok container, t') ∧
    evaluate .logging container host "/c" = .ok e ∧ assessEvalResult .logging e = .ok r ∧
    ¬ r.Graded .s4 .ok := by
  obtain ⟨host, s', container, t', e, hh, hc, he⟩ := exists_evaluated
  have hunlimited : Cgroup.CpuUnlimited leakyHost.cgroup Cgroup.innerGroup :=
    ⟨"max 100000\n", "100000".toList, rfl, .of_all (by decide) rfl, Or.inr (by decide)⟩
  have hcpu := Cgroup.cpuFiles_nested (Or.inr hunlimited)
  have hmem := Cgroup.memoryFiles_nested (.ok (.ok "max 100000\n"))
  rw [← Cgroup.asRead_nested] at hcpu hmem
  obtain ⟨-, r, _, _, _, hr, -, hiff⟩ := goalS4_of_hostReport Ns.Kernel.ownersAgree_withContainer
    (Cgroup.placed_nested _ _) hcpu hmem hh he
  refine ⟨host, s', container, t', e, r, hh, hc, he, hr, fun hok => (hiff.mp hok).2.1.2 ?_⟩
  exact ⟨[], Cgroup.innerGroup, [Cgroup.outerGroup], Cgroup.levels_nested, nofun, hunlimited,
    Cgroup.outerGroup, List.mem_cons_self, Cgroup.cpuLimited_outerGroup _⟩

end

end Checkc

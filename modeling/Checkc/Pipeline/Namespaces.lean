import Checkc.CConfig.Hierarchy
import Checkc.Pipeline.Verdicts

/-! # Isolating namespaces from the kernel to the report

The namespaces of a container are split into those shared with the host and the others,
and evaluated relative to its user namespace. Whatever the kernel answers, the collected
data can be evaluated and assessed. If the kernel gives equal namespaces equal owners, then
the report lists exactly the isolating ones.
-/

namespace Checkc

open Outcome (bind_eq_ok pure_eq_ok)

namespace Ns

/-- The namespace and its owner that the kernel reports for each type. -/
structure Info.Answers (k : Kernel) (pid : PidT) (id owner : NsType → Id) : Prop where
  id_eq : ∀ t ∈ NsType.list, Id.fromType k pid t = .ok (id t)
  owner_eq : ∀ t ∈ NsType.list, nsGetOwnerUserNs k pid t = .ok (owner t)

/-- The set of `/proc/<pid>/ns` entries holds the answers for each type. -/
theorem Info.mem_parseProcNs {k : Kernel} {pid : PidT} {s : HashSet Info}
    (h : parseProcNs k pid = .ok s) : ∃ id owner, Answers k pid id owner ∧
      ∀ i, i ∈ s ↔ ∃ t ∈ NsType.list, i = ⟨ProtoEnum.toI32 t, some (id t), some (owner t)⟩ := by
  obtain ⟨infos, hf, rfl⟩ := parseProcNs_eq_ok.mp h
  have ht : ∀ t, ∃ id owner, t ∈ NsType.list →
      Id.fromType k pid t = .ok id ∧ nsGetOwnerUserNs k pid t = .ok owner := by
    intro t
    by_cases ht : t ∈ NsType.list
    · obtain ⟨i, -, hi⟩ := exists_mem_of_forall₂ hf.flip ht
      obtain ⟨id, owner, hid, ho, -⟩ := infoByNsType_eq_ok.mp hi
      exact ⟨id, owner, fun _ => ⟨hid, ho⟩⟩
    · exact ⟨⟨0, 0⟩, ⟨0, 0⟩, fun h => absurd h ht⟩
  choose id owner hio using ht
  refine ⟨id, owner, ⟨fun t ht => (hio t ht).1, fun t ht => (hio t ht).2⟩, fun i => ?_⟩
  rw [HashSet.mem_ofList, mem_answers_iff hf]
  refine exists_congr fun t => and_congr_right fun ht => ?_
  rw [infoByNsType_eq_ok, (hio t ht).1, (hio t ht).2]
  constructor
  · rintro ⟨_, _, h1, h2, rfl⟩
    rw [Outcome.ok.inj h1, Outcome.ok.inj h2]
  · rintro rfl
    exact ⟨_, _, rfl, rfl, rfl⟩

/-- A namespace is in the set of a process that has the same answers for its type. -/
theorem Info.mk_mem_iff {s : HashSet Info} {id owner : NsType → Id}
    (hs : ∀ i, i ∈ s ↔ ∃ t ∈ NsType.list, i = ⟨ProtoEnum.toI32 t, some (id t), some (owner t)⟩)
    {t : NsType} (ht : t ∈ NsType.list) {i o : Id} :
    (⟨ProtoEnum.toI32 t, some i, some o⟩ : Info) ∈ s ↔ i = id t ∧ o = owner t := by
  rw [hs]
  constructor
  · rintro ⟨t', -, he⟩
    obtain ⟨h1, h2, h3⟩ := Info.mk.inj he
    obtain rfl := ProtoEnum.toI32_injective h1
    exact ⟨Option.some.inj h2, Option.some.inj h3⟩
  · rintro ⟨rfl, rfl⟩
    exact ⟨t, ht, rfl⟩

/-- What `ns_config` makes of the answers about two processes. -/
structure Split (c : Config) (idH ownerH id owner : NsType → Id) : Prop where
  unshared : ∀ i, i ∈ c.unshared ↔
    ∃ t ∈ NsType.list, (id t ≠ idH t ∨ owner t ≠ ownerH t) ∧
      i = ⟨ProtoEnum.toI32 t, some (id t), some (owner t)⟩
  sharedHost : ∀ i, i ∈ c.sharedHost ↔
    ∃ t ∈ NsType.list, (id t = idH t ∧ owner t = ownerH t) ∧
      i = ⟨ProtoEnum.toI32 t, some (id t), some (owner t)⟩
  nodup : c.unshared.Nodup

theorem nsConfig_eq_ok {env : Env} {k : Kernel} {procDir : ProcDir} {fuel : ℕ}
    {initPid cInitPid : PidT} {c : Config}
    (h : nsConfig env k procDir fuel initPid cInitPid = .ok c) : ∃ idH ownerH id owner,
      Info.Answers k initPid idH ownerH ∧ Info.Answers k cInitPid id owner ∧
      Split c idH ownerH id owner := by
  simp only [nsConfig, bind_eq_ok, pure_eq_ok] at h
  obtain ⟨H, hH, C, hC, -, -, -, -, rfl⟩ := h
  obtain ⟨idH, ownerH, hAH, hmH⟩ := Info.mem_parseProcNs hH
  obtain ⟨id, owner, hA, hm⟩ := Info.mem_parseProcNs hC
  have hin := fun {t} => Info.mk_mem_iff hmH (t := t)
  refine ⟨idH, ownerH, id, owner, hAH, hA, ⟨fun i => ?_, fun i => ?_, ?_⟩⟩
  · simp only [List.mem_filter, HashSet.mem_iter, hm, decide_eq_true_eq]
    constructor
    · rintro ⟨⟨t, ht, rfl⟩, hn⟩
      rw [hin ht, not_and_or] at hn
      exact ⟨t, ht, hn, rfl⟩
    · rintro ⟨t, ht, hn, rfl⟩
      rw [← not_and_or, ← hin ht] at hn
      exact ⟨⟨t, ht, rfl⟩, hn⟩
  · simp only [HashSet.mem_iter, HashSet.mem_inter, hm]
    constructor
    · rintro ⟨⟨t, ht, rfl⟩, hi⟩
      exact ⟨t, ht, (hin ht).mp hi, rfl⟩
    · rintro ⟨t, ht, hi, rfl⟩
      exact ⟨⟨t, ht, rfl⟩, (hin ht).mpr hi⟩
  · exact (HashSet.nodup_iter _ _ _).filter _

/-- The lists of namespaces have the same members, in whatever order sets are traversed. -/
theorem nsConfig_congr {env env' : Env} {k : Kernel} {procDir : ProcDir} {fuel : ℕ}
    {initPid cInitPid : PidT} {c c' : Config}
    (h : nsConfig env k procDir fuel initPid cInitPid = .ok c)
    (h' : nsConfig env' k procDir fuel initPid cInitPid = .ok c') :
    (∀ i, i ∈ c'.unshared ↔ i ∈ c.unshared) ∧ (∀ i, i ∈ c'.sharedHost ↔ i ∈ c.sharedHost) ∧
      c'.unshared.Nodup := by
  simp only [nsConfig, bind_eq_ok, pure_eq_ok] at h h'
  obtain ⟨H, hH, C, hC, -, -, -, -, rfl⟩ := h
  obtain ⟨H', hH', C', hC', -, -, -, -, rfl⟩ := h'
  obtain rfl := Outcome.ok_unique hH hH'
  obtain rfl := Outcome.ok_unique hC hC'
  exact ⟨fun i => by simp, fun i => by simp, (HashSet.nodup_iter _ _ _).filter _⟩

namespace Split

variable {c : Config} {idH ownerH id owner : NsType → Id}

theorem getType_mk (t : NsType) (i o : Option Id) :
    (⟨ProtoEnum.toI32 t, i, o⟩ : Info).getType = t := ProtoEnum.getter_toI32 _ t

theorem nodup_types (h : Split c idH ownerH id owner) : (c.unshared.map Info.getType).Nodup := by
  apply h.nodup.map_on
  intro i hi j hj he
  obtain ⟨t, -, -, rfl⟩ := (h.unshared i).mp hi
  obtain ⟨t', -, -, rfl⟩ := (h.unshared j).mp hj
  rw [getType_mk, getType_mk] at he
  rw [he]

theorem get_unsharedNs_iff (h : Split c idH ownerH id owner) {t : NsType} {i : Info} :
    c.unsharedNs.get t = some i ↔ t ∈ NsType.list ∧ (id t ≠ idH t ∨ owner t ≠ ownerH t) ∧
      i = ⟨ProtoEnum.toI32 t, some (id t), some (owner t)⟩ := by
  rw [Config.get_unsharedNs_iff h.nodup_types, h.unshared]
  constructor
  · rintro ⟨⟨t', ht, hn, rfl⟩, rfl⟩
    rw [getType_mk]
    exact ⟨ht, hn, rfl⟩
  · rintro ⟨ht, hn, rfl⟩
    exact ⟨⟨t, ht, hn, rfl⟩, getType_mk t _ _⟩

/-- The user namespace of the container is in exactly one of the two lists. -/
theorem userNs_eq (h : Split c idH ownerH id owner) :
    c.userNs = some ⟨ProtoEnum.toI32 NsType.user, some (id .user), some (owner .user)⟩ := by
  have hu : NsType.user ∈ NsType.list := by decide
  unfold Config.userNs
  by_cases hn : id .user ≠ idH .user ∨ owner .user ≠ ownerH .user
  · rw [h.get_unsharedNs_iff.mpr ⟨hu, hn, rfl⟩, Option.some_or]
  · have hg : c.unsharedNs.get .user = none := by
      rw [Option.eq_none_iff_forall_ne_some]
      exact fun i hi => hn (h.get_unsharedNs_iff.mp hi).2.1
    rw [not_or, not_not, not_not] at hn
    rw [hg, Option.none_or]
    obtain ⟨i, hi⟩ := Option.isSome_iff_exists.mp (List.find?_isSome.mpr
      ⟨_, (h.sharedHost _).mpr ⟨.user, hu, hn, rfl⟩, by simp [getType_mk]⟩ :
      (c.sharedHost.find? fun i => decide (i.getType = .user)).isSome = true)
    have ht : i.getType = .user := by simpa using List.find?_some hi
    obtain ⟨t, -, -, rfl⟩ := (h.sharedHost i).mp (List.mem_of_find?_eq_some hi)
    rw [getType_mk] at ht
    rw [hi, ht]

/-- The split namespaces of a container can be evaluated. -/
theorem activeNamespaces_isOk (h : Split c idH ownerH id owner) (env : Env) :
    ∃ r, activeNamespaces env c = .ok r := by
  refine Checkc.activeNamespaces_isOk env (by rw [h.userNs_eq, Option.isSome_some]) ?_ ?_
  · intro i hi
    rcases List.mem_append.mp hi with hi | hi
    · obtain ⟨t, -, -, rfl⟩ := (h.unshared i).mp hi
      rfl
    · obtain ⟨t, -, -, rfl⟩ := (h.sharedHost i).mp hi
      rfl
  · intro i hi
    obtain ⟨t, -, -, rfl⟩ := (h.unshared i).mp hi
    rfl

/-- Two configurations that are split in the same way isolate the same namespaces. -/
theorem active_congr {c' : Config} (h : Split c idH ownerH id owner)
    (h' : Split c' idH ownerH id owner) :
    (c'.OwnUserNs ↔ c.OwnUserNs) ∧ ∀ t, c'.Active t ↔ c.Active t := by
  have hget : ∀ t, c'.unsharedNs.get t = c.unsharedNs.get t := fun t =>
    Option.ext fun i => h'.get_unsharedNs_iff.trans h.get_unsharedNs_iff.symm
  have hown : c'.OwnUserNs ↔ c.OwnUserNs := by
    rw [← Config.isSome_get_user, ← Config.isSome_get_user, hget]
  refine ⟨hown, fun t => ?_⟩
  rw [Config.Active, Config.Active, hget, hown, h.userNs_eq, h'.userNs_eq]

variable (h : Split c idH ownerH id owner)
  (hk : ∀ t ∈ NsType.list, id t = idH t → owner t = ownerH t)

include h hk

theorem get_unsharedNs_iff_of_owners {t : NsType} {i : Info} :
    c.unsharedNs.get t = some i ↔ t ∈ NsType.list ∧ id t ≠ idH t ∧
      i = ⟨ProtoEnum.toI32 t, some (id t), some (owner t)⟩ := by
  rw [h.get_unsharedNs_iff]
  refine and_congr_right fun ht => and_congr_left fun _ => ?_
  exact ⟨fun hn he => hn.elim (absurd he) (absurd (hk t ht he)), Or.inl⟩

theorem ownUserNs_iff : c.OwnUserNs ↔ id .user ≠ idH .user := by
  rw [← Config.isSome_get_user, Option.isSome_iff_exists]
  simp only [h.get_unsharedNs_iff_of_owners hk]
  constructor
  · rintro ⟨_, -, hn, -⟩
    exact hn
  · intro hn
    exact ⟨_, by decide, hn, rfl⟩

/-- A namespace isolates when it differs from that of the host and belongs to the user
namespace of the container. -/
theorem active_iff {t : NsType} : c.Active t ↔
    t ∈ NsType.list ∧ id t ≠ idH t ∧ (t = .user ∨ owner t = id .user) := by
  unfold Config.Active
  rw [h.userNs_eq, h.ownUserNs_iff hk]
  simp only [Option.mem_def, h.get_unsharedNs_iff_of_owners hk, Option.some.injEq]
  constructor
  · rintro (⟨rfl, hn⟩ | ⟨_, ⟨ht, hn, rfl⟩, _, rfl, ho⟩)
    · exact ⟨by decide, hn, Or.inl rfl⟩
    · exact ⟨ht, hn, Or.inr (Option.some.inj ho)⟩
  · rintro ⟨ht, hn, rfl | ho⟩
    · exact Or.inl ⟨rfl, hn⟩
    · exact Or.inr ⟨_, ⟨ht, hn, rfl⟩, _, rfl, by rw [ho]⟩

end Split

/-- The isolating namespaces do not depend on the order in which sets are traversed. -/
theorem nsConfig_active_iff {env env' : Env} {k : Kernel} {procDir : ProcDir} {fuel : ℕ}
    {initPid cInitPid : PidT} {c c' : Config}
    (h : nsConfig env k procDir fuel initPid cInitPid = .ok c)
    (h' : nsConfig env' k procDir fuel initPid cInitPid = .ok c') :
    (c'.OwnUserNs ↔ c.OwnUserNs) ∧ ∀ t, c'.Active t ↔ c.Active t := by
  obtain ⟨idH, ownerH, id, owner, -, -, hs⟩ := nsConfig_eq_ok h
  obtain ⟨hu, hh, hnodup⟩ := nsConfig_congr h h'
  exact hs.active_congr ⟨fun i => (hu i).trans (hs.unshared i),
    fun i => (hh i).trans (hs.sharedHost i), hnodup⟩

/-- The kernel gives equal namespaces of a type equal owners. -/
def Kernel.OwnersAgree (k : Kernel) : Prop :=
  ∀ pid pid' t id owner owner', Id.fromType k pid t = .ok id → Id.fromType k pid' t = .ok id →
    nsGetOwnerUserNs k pid t = .ok owner → nsGetOwnerUserNs k pid' t = .ok owner' →
    owner = owner'

end Ns

section

variable {env env₀ : Env} {config : Config} {root : PathBuf} {e : EvalResult} {kernel : Ns.Kernel}
  {procDir : Ns.ProcDir} {fuel : ℕ} {initPid cInitPid : PidT} {c : Ns.Config} {k : Collected}

/-! ## Evaluating collected data -/

/-- What the collectors set in devices and mount namespaces. -/
structure Collected.WellFormed (k : Collected) : Prop where
  devices : ∀ dev ∈ k.device.devDevices ++ k.device.mknodDevices,
    ∃ id ∈ dev.id, ∃ t : DeviceType, id.type = ProtoEnum.toI32 t
  mounts : ∀ mountns ∈ k.fs.containerNamespaces ++ k.fs.refContainerNamespaces ++
    k.fs.hostNamespaces, mountns.nsId.isSome = true

theorem Collected.WellFormed.exists_evaluation (hk : k.WellFormed)
    (hns : Ns.nsConfig env₀ kernel procDir fuel initPid cInitPid = .ok k.ns) (env : Env)
    (root : PathBuf) : Nonempty (Evaluation env k.toConfig root) := by
  obtain ⟨_, _, _, _, -, -, hs⟩ := Ns.nsConfig_eq_ok hns
  obtain ⟨⟨u, nsSet⟩, ha⟩ := hs.activeNamespaces_isOk env
  obtain ⟨flagsHost, hh⟩ := doCheckFlagsHost_isOk env flagLocationAllow root
    fun mountns hm => hk.mounts mountns (List.mem_append_right _ hm)
  obtain ⟨flagsRef, hr⟩ := doCheckFlagsRefcontainer_isOk env fun mountns hm =>
    hk.mounts mountns (List.mem_append_left _ (List.mem_append_right _ hm))
  have hp : ∀ dev ∈ k.device.devDevices ++ k.device.mknodDevices, dev.Processable := by
    intro dev hd
    obtain ⟨id, hid, t, ht⟩ := hk.devices dev hd
    exact ⟨id, hid, t, ht.symm⟩
  rw [List.forall_mem_append] at hp
  exact ⟨⟨k, u, nsSet, flagsHost, flagsRef, rfl, ha, hh, hr, hp.1, hp.2⟩⟩

/-- The evaluation and the assessment of collected data return, with a result for each
goal. -/
theorem collected_assessed (hk : k.WellFormed)
    (hns : Ns.nsConfig env₀ kernel procDir fuel initPid cInitPid = .ok k.ns) (env : Env)
    (root : PathBuf) :
    ∃ e r, EvalResult.fromConfig env k.toConfig root = .ok e ∧ assessEvalResult env e = .ok r ∧
      (∃ goal res, r.goalS1 = some goal ∧ goal.result = some res) ∧
      (∃ goal res, r.goalS2 = some goal ∧ goal.result = some res) ∧
      (∃ goal res, r.goalS3 = some goal ∧ goal.result = some res) ∧
      ∃ goal res, r.goalS4 = some goal ∧ goal.result = some res := by
  obtain ⟨x⟩ := hk.exists_evaluation hns env root
  obtain ⟨y⟩ := x.exists_assessment
  exact ⟨x.result, y.report, fromConfig_eq_ok.mpr ⟨x, rfl⟩, y.assessEvalResult_eq,
    ⟨_, _, rfl, rfl⟩, ⟨_, _, rfl, rfl⟩, ⟨_, _, rfl, rfl⟩, ⟨_, _, rfl, rfl⟩⟩

/-- The namespaces of a process of the container. -/
theorem nsConfig_withContainer :
    ∃ c, Ns.nsConfig .logging .withContainer .withContainer 2 1 2 = .ok c := ⟨_, rfl⟩

theorem Collected.wellFormed_isolated (c : Ns.Config) :
    { Collected.isolated with ns := c }.WellFormed where
  devices dev hd := by
    obtain rfl := List.mem_singleton.mp hd
    exact ⟨_, rfl, .char, rfl⟩
  mounts mountns hm := by
    obtain rfl := List.mem_singleton.mp hm
    rfl

theorem collected_assessed_withContainer : ∃ c e r,
    Ns.nsConfig .logging .withContainer .withContainer 2 1 2 = .ok c ∧
    EvalResult.fromConfig .logging { Collected.isolated with ns := c }.toConfig "/c" = .ok e ∧
    assessEvalResult .logging e = .ok r ∧ r.goalS1.isSome = true := by
  obtain ⟨c, hc⟩ := nsConfig_withContainer
  obtain ⟨e, r, he, hr, ⟨goal, _, hg, -⟩, -⟩ :=
    collected_assessed (Collected.wellFormed_isolated c) hc .logging "/c"
  exact ⟨c, e, r, hc, he, hr, by rw [hg, Option.isSome_some]⟩

/-! ## Isolating namespaces -/

section

variable {x : Evaluation env config root} {y : Assessment env x.result}
  {idH ownerH id owner : NsType → Ns.Id} (hs : Ns.Split x.input.ns idH ownerH id owner)
  (hown : ∀ t ∈ NsType.list, id t = idH t → owner t = ownerH t)

include hs hown

theorem Evaluation.mem_nsSet_iff_isolating {t : NsType} : t ≠ .unspecified ∧ t ∈ x.nsSet ↔
    t ∈ NsType.list ∧ id t ≠ idH t ∧ (t = .user ∨ owner t = id .user) := by
  rw [x.mem_nsSet, hs.active_iff hown, ← NsType.mem_list]
  tauto

theorem Evaluation.user_mem_nsSet_iff : .user ∈ x.nsSet ↔ id .user ≠ idH .user := by
  rw [← hs.ownUserNs_iff hown, ← decide_eq_decide, Evaluation.user_mem_nsSet]

/-- The active namespaces of goal S1 are the isolating ones. -/
theorem Assessment.mem_active_iff_isolating {site : String} {code : Int} :
    code ∈ (y.activeNs.iter env.σ site).map ProtoEnum.toI32 ↔
      ∃ t ∈ NsType.list, code = ProtoEnum.toI32 t ∧ id t ≠ idH t ∧
        (t = .user ∨ owner t = id .user) := by
  simp only [List.mem_map, HashSet.mem_iter, Evaluation.mem_activeNs,
    Evaluation.mem_nsSet_iff_isolating hs hown]
  constructor
  · rintro ⟨t, ⟨ht, hi⟩, rfl⟩
    exact ⟨t, ht, rfl, hi⟩
  · rintro ⟨t, ht, rfl, hi⟩
    exact ⟨t, ⟨ht, hi⟩, rfl⟩

end

/-- The desired namespaces of goal S1 are all namespaces. -/
theorem Assessment.desired_perm {x : Evaluation env config root} (y : Assessment env x.result)
    (site : String) : ((y.desiredNs.iter env.σ site).map ProtoEnum.toI32).Perm
      (NsType.list.map ProtoEnum.toI32) := by
  apply List.Perm.map
  apply (List.perm_ext_iff_of_nodup (HashSet.nodup_iter _ _ _) (by decide)).mpr
  intro t
  rw [HashSet.mem_iter, Evaluation.mem_desiredNs, NsType.mem_list]

/-- A namespace type is reported as active exactly when the container isolates it: its
namespace differs from that of the host and belongs to the user namespace of the container. -/
theorem active_iff_isolating (hk : kernel.OwnersAgree)
    (hc : Ns.nsConfig env₀ kernel procDir fuel initPid cInitPid = .ok c)
    (hconf : config.nsConfig = some c) (h : EvalResult.fromConfig env config root = .ok e) :
    ∃ idH ownerH id owner, Ns.Info.Answers kernel initPid idH ownerH ∧
      Ns.Info.Answers kernel cInitPid id owner ∧
      (∀ t, (∃ label category n, e.categories.get label = some category ∧
          category.namespaces = some n ∧ ProtoEnum.toI32 t ∈ n.active) ↔
        t ∈ NsType.list ∧ id t ≠ idH t ∧ (t = .user ∨ owner t = id .user)) ∧
      (∃ r goal n, assessEvalResult env e = .ok r ∧ r.goalS1 = some goal ∧
        goal.namespaceConf = some n ∧ n.active.Nodup ∧
        (∀ code, code ∈ n.active ↔ ∃ t ∈ NsType.list, code = ProtoEnum.toI32 t ∧
          id t ≠ idH t ∧ (t = .user ∨ owner t = id .user)) ∧
        n.desired.Perm (NsType.list.map ProtoEnum.toI32) ∧
        (ProtoEnum.toI32 NsType.user ∈ n.active ↔ id .user ≠ idH .user)) ∧
      (e.unprivileged = true ↔ id .user ≠ idH .user) ∧
      (∃ nsSet, activeNamespaces env c = .ok (e.unprivileged, nsSet) ∧
        (.user ∈ nsSet ↔ id .user ≠ idH .user)) ∧
      ∃ device dev mknod, config.deviceConfig = some device ∧
        devWhitelistCompliance device.devDevices (id .user ≠ idH .user) = .ok dev ∧
        e.getTest "devices" "dev_whitelist_compliance" = .ok dev ∧
        devWhitelistCompliance device.mknodDevices (id .user ≠ idH .user) = .ok mknod ∧
        e.getTest "devices" "mknod_whitelist_compliance" = .ok mknod := by
  obtain ⟨x, y, rfl, hr, -⟩ := exists_report h
  obtain ⟨idH, ownerH, id, owner, hH, hC, hs⟩ := Ns.nsConfig_eq_ok hc
  have hown : ∀ t ∈ NsType.list, id t = idH t → owner t = ownerH t := fun t ht he =>
    hk _ _ t _ _ _ (hC.id_eq t ht) (he ▸ hH.id_eq t ht) (hC.owner_eq t ht) (hH.owner_eq t ht)
  obtain rfl : c = x.input.ns :=
    Option.some.inj (hconf.symm.trans (congrArg Config.nsConfig x.config_eq))
  have hset := Evaluation.user_mem_nsSet_iff hs hown
  have huser : decide (id .user ≠ idH .user) = decide (.user ∈ x.nsSet) :=
    decide_eq_decide.mpr hset.symm
  refine ⟨idH, ownerH, id, owner, hH, hC, fun t => ?_,
    ⟨y.report, _, _, hr, rfl, rfl, (HashSet.nodup_iter _ _ _).map ProtoEnum.toI32_injective,
      fun code => Assessment.mem_active_iff_isolating hs hown, y.desired_perm _, ?_⟩,
    x.unprivileged_iff.trans (hs.ownUserNs_iff hown), ⟨x.nsSet, x.active_eq, hset⟩, ?_⟩
  · rw [← Evaluation.mem_nsSet_iff_isolating hs hown, ← x.exists_active_iff]
    simp only [Evaluation.get_categories, Prod.exists, Option.mem_def, exists_and_left]
  · rw [List.mem_map_of_injective ProtoEnum.toI32_injective, HashSet.mem_iter,
      Evaluation.mem_activeNs, hset]
    exact and_iff_right (by decide)
  · exact ⟨x.input.device, _, _, congrArg Config.deviceConfig x.config_eq,
      devWhitelistCompliance_eq_ok.mpr ⟨x.dev_processable, rfl⟩, by rw [huser]; rfl,
      devWhitelistCompliance_eq_ok.mpr ⟨x.mknod_processable, rfl⟩, by rw [huser]; rfl⟩

theorem Ns.nsGetOwnerUserNs_withContainer (pid : PidT) (t : NsType) :
    nsGetOwnerUserNs .withContainer pid t =
      .ok (Id.ofContainer (if t = .user then 1 else pid) .user) := by
  by_cases hp : pid = 1 ∧ t = .user
  · obtain ⟨rfl, rfl⟩ := hp
    rfl
  · simp [nsGetOwnerUserNs, Kernel.withContainer, hp]

theorem Ns.Kernel.ownersAgree_withContainer : Kernel.withContainer.OwnersAgree := by
  intro pid pid' t id owner owner' hid hid' ho ho'
  rw [nsGetOwnerUserNs_withContainer, Outcome.ok.injEq] at ho ho'
  have he : Id.ofContainer pid t = Id.ofContainer pid' t :=
    Outcome.ok.inj (hid.trans hid'.symm)
  have hp : pid = 1 ↔ pid' = 1 := by
    constructor
    · rintro rfl
      exact not_not.mp fun hp' => Id.ofContainer_ne hp' t he.symm
    · rintro rfl
      exact not_not.mp fun hp => Id.ofContainer_ne hp t he
  rw [← ho, ← ho']
  split
  · rfl
  · simp only [Id.ofContainer, hp]

/-- The container has a user namespace of its own, and the report says so. -/
theorem active_iff_isolating_withContainer : ∃ c e,
    Ns.nsConfig .logging .withContainer .withContainer 2 1 2 = .ok c ∧
    EvalResult.fromConfig .logging { Collected.isolated with ns := c }.toConfig "/c" = .ok e ∧
    e.unprivileged = true := by
  obtain ⟨c, hc⟩ := nsConfig_withContainer
  obtain ⟨x⟩ := (Collected.wellFormed_isolated c).exists_evaluation hc .logging "/c"
  have he := fromConfig_eq_ok.mpr ⟨x, rfl⟩
  obtain ⟨idH, _, id, _, hH, hC, -, -, hu, -⟩ :=
    active_iff_isolating Ns.Kernel.ownersAgree_withContainer hc rfl he
  refine ⟨c, x.result, hc, he, hu.mpr ?_⟩
  rw [← Outcome.ok.inj (hC.id_eq .user (by decide)), ← Outcome.ok.inj (hH.id_eq .user (by decide))]
  decide

end

end Checkc

import Checkc.CConfig.Fs
import Checkc.CConfig.UserNs

/-! # Mount namespaces of the processes

The processes of the host are grouped by mount namespace. A process is asked for its namespace
twice: the first answer decides whether the namespace is known already, and the second one is
stored. If the process moves in between, then a namespace may be stored twice.
-/

namespace Checkc

open Outcome (bind_eq_ok pure_eq_ok)

namespace Fs

/-- What the system answers in an iteration of `get_mountinfos`, when it is asked for the mount
namespace of the process and when it is asked for its mount tables after that. -/
structure Answers where
  first : Ns.Kernel
  second : Ns.Kernel
  tables : PidT → MountTables

/-- A process in the loop of `get_mountinfos`. -/
structure Visit extends Answers where
  pid : PidT

/-- The first reading of the mount namespace. -/
def Visit.nsId (v : Visit) : Result Ns.Id := Ns.Id.fromType v.first v.pid .mount

/-- The mount tables, with the second reading of the mount namespace. -/
def Visit.info (v : Visit) : Result Info := Info.infoByPid v.second v.tables v.pid

theorem Visit.returns_nsId (v : Visit) : v.nsId.Returns := Ns.Id.returns_fromType _ _ _

theorem Visit.returns_info (v : Visit) : v.info.Returns := returns_infoByPid _ _ _

/-- The list of processes to include or to exclude leaves the process out. -/
def skips (pidCfg : Option (List PidT × Bool)) (p : PidT) : Bool :=
  match pidCfg with
  | none => false
  | some (pidList, includeMode) =>
    (includeMode && !pidList.contains p) || (!includeMode && pidList.contains p)

/-- Add the lines that are not in the list yet. -/
def addLines (lines new : List String) : List String :=
  new.foldl (fun lines mpAdd => if lines.contains mpAdd then lines else lines ++ [mpAdd]) lines

/-- A new entry for the mount namespace of a process. -/
def newEntry (info : Info) (p : PidT) : MountNamespace where
  nsId := some info.nsId
  nsPids := [p]
  mounts := addLines [] info.mounts
  mountinfo := addLines [] info.mountinfo
  flagFiles := []

/-- Add a process to the entries with the identifier. -/
def pushPid (nsId : Ns.Id) (p : PidT) (mountNamespaces : List MountNamespace) :
    List MountNamespace :=
  mountNamespaces.map fun n =>
    if n.nsId = some nsId then { n with nsPids := n.nsPids ++ [p] } else n

/-- The body of the loop of `get_mountinfos`. -/
def visit (pidCfg : Option (List PidT × Bool)) (mountNamespaces : List MountNamespace) (v : Visit) :
    Result (List MountNamespace) :=
  if skips pidCfg v.pid then pure mountNamespaces
  else do
    match ← Ns.keepOk v.nsId with
    | none => pure mountNamespaces
    | some nsId =>
      let mountnsFilter ← mountNamespaces.filterM fun n => do
        let id ← unwrap n.nsId
        pure (decide (nsId = id))
      if 1 < mountnsFilter.length then .panic "Error: mountns_handle.len() > 1"
      else if mountnsFilter.length = 1 then pure (pushPid nsId v.pid mountNamespaces)
      else do
        match ← Ns.keepOk v.info with
        | none => pure mountNamespaces
        | some info => pure (mountNamespaces ++ [newEntry info v.pid])

/-- The loop of `get_mountinfos`. -/
def scan (pidCfg : Option (List PidT × Bool)) (visits : List Visit) :
    Result (List MountNamespace) :=
  visits.foldlM (visit pidCfg) []

/-- The visits of the loop, if the system answers so in each iteration. -/
def visitsOf (answers : ℕ → Answers) (pids : List PidT) : List Visit :=
  pids.mapIdx fun i pid => ⟨answers i, pid⟩

/-- `get_mountinfos`. -/
def getMountinfos (procDir : Ns.ProcDir) (answers : ℕ → Answers)
    (pidCfg : Option (List PidT × Bool)) : Result (List MountNamespace) := do
  let pids ← unwrapOk (getPidList procDir)
  scan pidCfg (visitsOf answers pids)

/-! ## One iteration -/

/-- There is an entry for the namespace. -/
def Known (s : List MountNamespace) (id : Ns.Id) : Prop := ∃ n ∈ s, n.nsId = some id

/-- Each entry has a namespace, and no two the same one. -/
def Distinct (s : List MountNamespace) : Prop :=
  ∃ ids : List Ns.Id, ids.Nodup ∧ s.map (·.nsId) = ids.map some

/-- What an iteration can do. -/
inductive Step (pidCfg : Option (List PidT × Bool)) (v : Visit) (s : List MountNamespace) :
    List MountNamespace → Prop
  | skipped : skips pidCfg v.pid = true → Step pidCfg v s s
  | unreadable {e : Error} : skips pidCfg v.pid = false → v.nsId = .err e → Step pidCfg v s s
  | known {id : Ns.Id} : skips pidCfg v.pid = false → v.nsId = .ok id → Known s id →
      Step pidCfg v s (pushPid id v.pid s)
  | vanished {id : Ns.Id} {e : Error} : skips pidCfg v.pid = false → v.nsId = .ok id →
      ¬ Known s id → v.info = .err e → Step pidCfg v s s
  | new {id : Ns.Id} {info : Info} : skips pidCfg v.pid = false → v.nsId = .ok id →
      ¬ Known s id → v.info = .ok info → Step pidCfg v s (s ++ [newEntry info v.pid])

section

variable {pidCfg : Option (List PidT × Bool)} {v : Visit} {s s' : List MountNamespace} {id : Ns.Id}

theorem Distinct.nodup (h : Distinct s) : (s.map (·.nsId)).Nodup := by
  obtain ⟨ids, hnd, hs⟩ := h
  rw [hs]
  exact hnd.map (Option.some_injective _)

theorem Distinct.isSome (h : Distinct s) {n : MountNamespace} (hn : n ∈ s) :
    ∃ id, n.nsId = some id := by
  obtain ⟨ids, -, hs⟩ := h
  have hm : n.nsId ∈ ids.map some := hs ▸ List.mem_map_of_mem hn
  obtain ⟨id, -, hid⟩ := List.mem_map.mp hm
  exact ⟨id, hid.symm⟩

/-- The entry of a known namespace is the only one with its identifier. -/
theorem Distinct.exists_split (h : Distinct s) (hk : Known s id) :
    ∃ s₁ n s₂, s = s₁ ++ n :: s₂ ∧ n.nsId = some id ∧ ∀ m ∈ s₁ ++ s₂, m.nsId ≠ some id := by
  obtain ⟨n, hn, hid⟩ := hk
  obtain ⟨s₁, s₂, rfl⟩ := List.append_of_mem hn
  have hnd := h.nodup
  rw [List.map_append, List.map_cons, List.nodup_middle, List.nodup_cons, ← List.map_append] at hnd
  refine ⟨s₁, n, s₂, rfl, hid, fun m hm he => hnd.1 ?_⟩
  exact hid ▸ he ▸ List.mem_map_of_mem hm

/-- The entries that the loop finds for a namespace. -/
theorem filterM_nsId (h : Distinct s) (id : Ns.Id) :
    (s.filterM fun n => do
      let nsId ← unwrap n.nsId
      pure (decide (id = nsId)) : Result (List MountNamespace)) =
        .ok (s.filter fun n => n.nsId = some id) := by
  apply filterM_eq_ok
  intro n hn
  obtain ⟨id', hid⟩ := h.isSome hn
  rw [hid, unwrap_some, Outcome.ok_bind]
  simp [pure, eq_comm]

theorem length_filter_of_known (h : Distinct s) (hk : Known s id) :
    (s.filter fun n => n.nsId = some id).length = 1 := by
  obtain ⟨s₁, n, s₂, rfl, hid, hother⟩ := h.exists_split hk
  have hf : (s₁ ++ s₂).filter (fun n => decide (n.nsId = some id)) = [] := by
    rw [List.filter_eq_nil_iff]
    exact fun m hm => by simpa using hother m hm
  rw [List.filter_append, List.append_eq_nil_iff] at hf
  rw [List.filter_append, hf.1, List.filter_cons, if_pos (by simpa using hid), hf.2]
  rfl

theorem filter_of_not_known (hk : ¬ Known s id) : (s.filter fun n => n.nsId = some id) = [] := by
  rw [List.filter_eq_nil_iff]
  intro n hn
  simpa using fun hid => hk ⟨n, hn, hid⟩

/-- As long as the namespaces are distinct, an iteration returns. -/
theorem exists_step (pidCfg : Option (List PidT × Bool)) (v : Visit) (h : Distinct s) :
    ∃ s', visit pidCfg s v = .ok s' ∧ Step pidCfg v s s' := by
  cases hs : skips pidCfg v.pid with
  | true => exact ⟨s, if_pos hs, .skipped hs⟩
  | false =>
    rw [visit, if_neg (by simp [hs])]
    rcases v.returns_nsId.ok_or_err with ⟨id, hid⟩ | ⟨e, he⟩
    · simp only [hid, Ns.keepOk, Outcome.ok_bind, filterM_nsId h id]
      by_cases hk : Known s id
      · rw [length_filter_of_known h hk]
        exact ⟨_, rfl, .known hs hid hk⟩
      · rw [filter_of_not_known hk]
        rcases v.returns_info.ok_or_err with ⟨info, hinfo⟩ | ⟨e, he⟩
        · exact ⟨_, by rw [hinfo]; rfl, .new hs hid hk hinfo⟩
        · exact ⟨s, by rw [he]; rfl, .vanished hs hid hk he⟩
    · exact ⟨s, by rw [he]; rfl, .unreadable hs he⟩

/-- An iteration that returns has only added the process, if it is not left out. -/
theorem visit_cases (h : visit pidCfg s v = .ok s') :
    s' = s ∨ skips pidCfg v.pid = false ∧
      ((∃ id, s' = pushPid id v.pid s) ∨ ∃ info, s' = s ++ [newEntry info v.pid]) := by
  unfold visit at h
  split_ifs at h with hskip
  · exact Or.inl (pure_eq_ok.mp h).symm
  rw [Bool.not_eq_true] at hskip
  obtain ⟨o, -, h⟩ := bind_eq_ok.mp h
  cases o with
  | none => exact Or.inl (pure_eq_ok.mp h).symm
  | some nsId =>
    obtain ⟨known, -, h⟩ := bind_eq_ok.mp h
    split_ifs at h
    · exact Or.inr ⟨hskip, Or.inl ⟨nsId, (pure_eq_ok.mp h).symm⟩⟩
    obtain ⟨o, -, h⟩ := bind_eq_ok.mp h
    cases o with
    | none => exact Or.inl (pure_eq_ok.mp h).symm
    | some info => exact Or.inr ⟨hskip, Or.inr ⟨info, (pure_eq_ok.mp h).symm⟩⟩

/-! ## Distinct namespaces -/

/-- The process is first seen in a namespace without an entry, and then in one that has an
entry. -/
def Visit.Moved (v : Visit) (pidCfg : Option (List PidT × Bool)) (s : List MountNamespace) : Prop :=
  skips pidCfg v.pid = false ∧ ∃ id info, v.nsId = .ok id ∧ ¬ Known s id ∧
    v.info = .ok info ∧ Known s info.nsId

theorem map_nsId_pushPid (id : Ns.Id) (p : PidT) (s : List MountNamespace) :
    (pushPid id p s).map (·.nsId) = s.map (·.nsId) := by
  rw [pushPid, List.map_map]
  apply List.map_congr_left
  intro n _
  rw [Function.comp_apply]
  split_ifs <;> rfl

theorem known_iff_of_map_eq {ids : List Ns.Id} (h : s.map (·.nsId) = ids.map some) :
    Known s id ↔ id ∈ ids := by
  have hm : some id ∈ s.map (·.nsId) ↔ id ∈ ids := by
    rw [h]
    simp
  rw [← hm, List.mem_map]
  rfl

theorem distinct_concat_iff (h : Distinct s) {n : MountNamespace} (hn : n.nsId = some id) :
    Distinct (s ++ [n]) ↔ ¬ Known s id := by
  obtain ⟨ids, hnd, hs⟩ := h
  rw [known_iff_of_map_eq hs]
  constructor
  · intro h hm
    have hnd := h.nodup
    rw [List.map_append, hs, List.map_singleton, hn, List.nodup_append] at hnd
    exact hnd.2.2 _ (List.mem_map_of_mem hm) _ (List.mem_singleton.mpr rfl) rfl
  · intro hm
    refine ⟨ids ++ [id], ?_, by simp [hs, hn]⟩
    rw [List.nodup_append]
    refine ⟨hnd, List.nodup_singleton id, ?_⟩
    rintro a ha b hb rfl
    exact hm (List.mem_singleton.mp hb ▸ ha)

/-- An iteration keeps the namespaces distinct unless the process moves. -/
theorem Step.distinct_iff (hstep : Step pidCfg v s s') (h : Distinct s) :
    Distinct s' ↔ ¬ v.Moved pidCfg s := by
  cases hstep with
  | skipped hs =>
    apply iff_of_true h
    rintro ⟨hs', -⟩
    exact absurd (hs.symm.trans hs') (by decide)
  | unreadable hs he =>
    apply iff_of_true h
    rintro ⟨-, id, info, hid, -⟩
    exact Outcome.ne_ok_of_err he _ hid
  | known hs hid hk =>
    refine iff_of_true ?_ ?_
    · obtain ⟨ids, hnd, hs⟩ := h
      exact ⟨ids, hnd, (map_nsId_pushPid _ _ _).trans hs⟩
    · rintro ⟨-, id', info, hid', hk', -⟩
      exact hk' (Outcome.ok_unique hid hid' ▸ hk)
  | vanished hs hid hk he =>
    apply iff_of_true h
    rintro ⟨-, id', info, -, -, hinfo, -⟩
    exact Outcome.ne_ok_of_err he _ hinfo
  | @new id info hs hid hk hinfo =>
    rw [distinct_concat_iff h (n := newEntry info v.pid) rfl]
    refine not_congr ⟨fun hk' => ⟨hs, id, info, hid, hk, hinfo, hk'⟩, ?_⟩
    rintro ⟨-, id', info', -, -, hinfo', hk'⟩
    exact Outcome.ok_unique hinfo hinfo' ▸ hk'

end

/-! ## The loop -/

variable {pidCfg : Option (List PidT × Bool)}

theorem scan_concat (visits : List Visit) (v : Visit) :
    scan pidCfg (visits ++ [v]) = scan pidCfg visits >>= fun s => visit pidCfg s v := by
  rw [scan, List.foldlM_append]
  congr 1
  funext s
  exact List.foldlM_cons.trans (bind_pure _)

/-- An entry has a namespace, and no process that is left out. -/
structure Listed (pidCfg : Option (List PidT × Bool)) (n : MountNamespace) : Prop where
  nsId : n.nsId.isSome = true
  nsPids : ∀ p ∈ n.nsPids, skips pidCfg p = false

theorem listed_pushPid {id : Ns.Id} {p : PidT} {s : List MountNamespace}
    (hp : skips pidCfg p = false) (hs : ∀ n ∈ s, Listed pidCfg n) :
    ∀ n ∈ pushPid id p s, Listed pidCfg n := by
  rw [pushPid, List.forall_mem_map]
  intro n hn
  split_ifs
  · refine ⟨(hs n hn).nsId, ?_⟩
    rw [List.forall_mem_append, List.forall_mem_singleton]
    exact ⟨(hs n hn).nsPids, hp⟩
  · exact hs n hn

/-- However the processes move, the entries list no process that is left out. -/
theorem listed_getMountinfos {procDir : Ns.ProcDir} {answers : ℕ → Answers}
    {s : List MountNamespace} (h : getMountinfos procDir answers pidCfg = .ok s) :
    ∀ n ∈ s, Listed pidCfg n := by
  rw [getMountinfos, bind_eq_ok] at h
  obtain ⟨pids, -, h⟩ := h
  refine foldlM_induction (P := fun _ s => ∀ n ∈ s, Listed pidCfg n) (by simp) ?_ h
  intro _ v s s' hs hstep
  rcases visit_cases hstep with rfl | ⟨hskip, ⟨id, rfl⟩ | ⟨info, rfl⟩⟩
  · exact hs
  · exact listed_pushPid hskip hs
  · rw [List.forall_mem_append, List.forall_mem_singleton]
    exact ⟨hs, rfl, List.forall_mem_singleton.mpr hskip⟩

/-- Any process is in the mount namespace with this number. -/
def kernelInNs (ino : UInt64) : Ns.Kernel where
  ofType _ _ := { openNs := .ok (), metadata := .ok ⟨4, ino⟩ }
  owner _ _ :=
    { openNs := .ok (), getUserns := .ok (), fstat := .ok ⟨4, 1⟩, ownerMetadata := .ok ⟨4, 1⟩ }
  parent _ _ := { openNs := .ok (), fstat _ := .ok ⟨4, 1⟩, getParent _ := .error .EPERM }

/-- The second process moves to the namespace of the others while it is asked. -/
def movingAnswers (i : ℕ) : Answers where
  first := kernelInNs (if i = 1 then 20 else 10)
  second := kernelInNs 10
  tables _ := { mounts := .ok [], mountinfo := .ok [] }

theorem getMountinfos_moving :
    getMountinfos (.ok [.ok ⟨some "1", true⟩, .ok ⟨some "2", true⟩, .ok ⟨some "3", true⟩])
        movingAnswers none = .panic "Error: mountns_handle.len() > 1" ∧
      scan none (visitsOf movingAnswers [1, 2]) =
        .ok [⟨some ⟨4, 10⟩, [1], [], [], []⟩, ⟨some ⟨4, 10⟩, [2], [], [], []⟩] ∧
      ¬ ∀ l, l <+: visitsOf movingAnswers [1, 2, 3] → ∃ s, scan none l = .ok s ∧ Distinct s := by
  have hpanic : scan none (visitsOf movingAnswers [1, 2, 3]) =
      .panic "Error: mountns_handle.len() > 1" := by decide
  refine ⟨by decide, by decide, fun h => ?_⟩
  obtain ⟨s, hs, -⟩ := h _ (List.prefix_refl _)
  exact absurd (hpanic.symm.trans hs) (by simp)

/-- The namespaces are distinct after every iteration, and no iteration panics, if and only if
no process moves to a namespace with an entry between the two readings. -/
theorem scan_distinct_iff (pidCfg : Option (List PidT × Bool)) (visits : List Visit) :
    (∀ l, l <+: visits → ∃ s, scan pidCfg l = .ok s ∧ Distinct s) ↔
      ∀ l v, l ++ [v] <+: visits → ∀ s, scan pidCfg l = .ok s → ¬ v.Moved pidCfg s := by
  constructor
  · intro h l v hl s hs
    obtain ⟨s₁, hs₁, hd⟩ := h l ((List.prefix_append l [v]).trans hl)
    obtain rfl := Outcome.ok_unique hs₁ hs
    obtain ⟨s', hv, hstep⟩ := exists_step pidCfg v hd
    rw [← hstep.distinct_iff hd]
    obtain ⟨s₂, hs₂, hd₂⟩ := h _ hl
    rw [scan_concat, hs, Outcome.ok_bind, hv] at hs₂
    exact Outcome.ok.inj hs₂ ▸ hd₂
  · intro h l hl
    induction l using List.reverseRecOn with
    | nil => exact ⟨[], rfl, [], List.nodup_nil, rfl⟩
    | append_singleton l v ih =>
      obtain ⟨s, hs, hd⟩ := ih ((List.prefix_append l [v]).trans hl)
      obtain ⟨s', hv, hstep⟩ := exists_step pidCfg v hd
      refine ⟨s', ?_, (hstep.distinct_iff hd).mpr (h l v hl s hs)⟩
      rw [scan_concat, hs, Outcome.ok_bind, hv]

/-! ## Processes of an entry -/

/-- The processes of all entries. -/
def covered (s : List MountNamespace) : List PidT := s.flatMap (·.nsPids)

/-- The entry lists processes of its namespace, at least one, and no line twice. -/
structure Grouped (nsOf : PidT → Ns.Id) (n : MountNamespace) : Prop where
  nsId : ∀ p ∈ n.nsPids, n.nsId = some (nsOf p)
  nonempty : n.nsPids ≠ []
  mounts : n.mounts.Nodup
  mountinfo : n.mountinfo.Nodup

/-- The process keeps its mount namespace while it is asked. -/
structure Visit.Keeps (v : Visit) (nsOf : PidT → Ns.Id) : Prop where
  first : ∀ id, Ns.Id.fromType v.first v.pid .mount = .ok id → id = nsOf v.pid
  second : ∀ id, Ns.Id.fromType v.second v.pid .mount = .ok id → id = nsOf v.pid

/-- The process is added to an entry. -/
def Visit.Reached (v : Visit) (pidCfg : Option (List PidT × Bool)) (s : List MountNamespace) :
    Prop :=
  skips pidCfg v.pid = false ∧ ∃ id, v.nsId = .ok id ∧ (Known s id ∨ ∃ info, v.info = .ok info)

section

variable {v : Visit} {s s' : List MountNamespace} {nsOf : PidT → Ns.Id} {id : Ns.Id}

theorem covered_append (s t : List MountNamespace) : covered (s ++ t) = covered s ++ covered t :=
  List.flatMap_append

theorem nodup_addLines {lines : List String} (h : lines.Nodup) (new : List String) :
    (addLines lines new).Nodup := by
  induction new generalizing lines with
  | nil => exact h
  | cons e new ih =>
    rw [addLines, List.foldl_cons]
    apply ih
    split_ifs with he
    · exact h
    · rw [List.contains_iff_mem] at he
      exact List.nodup_append.mpr ⟨h, List.nodup_singleton e, by
        rintro a ha b hb rfl
        exact he (List.mem_singleton.mp hb ▸ ha)⟩

theorem Visit.Keeps.info_nsId (h : v.Keeps nsOf) {info : Info} (hinfo : v.info = .ok info) :
    info.nsId = nsOf v.pid := by
  simp only [Visit.info, Info.infoByPid, bind_eq_ok, pure_eq_ok] at hinfo
  obtain ⟨_, -, _, -, nsId, hid, _, -, _, -, rfl⟩ := hinfo
  exact h.second nsId hid

theorem Visit.Keeps.not_moved (h : v.Keeps nsOf) : ¬ v.Moved pidCfg s := by
  rintro ⟨-, id, info, hid, hk, hinfo, hk'⟩
  rw [h.info_nsId hinfo, ← h.first id hid] at hk'
  exact hk hk'

/-- Pushing a process changes the entry of its namespace only. -/
theorem pushPid_split {s₁ s₂ : List MountNamespace} {n : MountNamespace} (p : PidT)
    (hn : n.nsId = some id) (hother : ∀ m ∈ s₁ ++ s₂, m.nsId ≠ some id) :
    pushPid id p (s₁ ++ n :: s₂) = s₁ ++ { n with nsPids := n.nsPids ++ [p] } :: s₂ := by
  have hid : ∀ l : List MountNamespace, (∀ m ∈ l, m.nsId ≠ some id) → pushPid id p l = l := by
    intro l hl
    exact (List.map_congr_left fun m hm => if_neg (hl m hm)).trans (List.map_id l)
  rw [List.forall_mem_append] at hother
  rw [pushPid, List.map_append, List.map_cons, if_pos hn]
  exact congrArg₂ _ (hid s₁ hother.1) (congrArg _ (hid s₂ hother.2))

/-- An iteration adds the process to one entry, or nothing to any. -/
theorem Step.covered (hstep : Step pidCfg v s s') (h : Distinct s) :
    (v.Reached pidCfg s ∧ (covered s').Perm (v.pid :: covered s)) ∨
      (¬ v.Reached pidCfg s ∧ s' = s) := by
  cases hstep with
  | skipped hs =>
    refine Or.inr ⟨?_, rfl⟩
    rintro ⟨hs', -⟩
    exact absurd (hs.symm.trans hs') (by decide)
  | unreadable hs he =>
    refine Or.inr ⟨?_, rfl⟩
    rintro ⟨-, id, hid, -⟩
    exact Outcome.ne_ok_of_err he _ hid
  | @known id hs hid hk =>
    refine Or.inl ⟨⟨hs, id, hid, Or.inl hk⟩, ?_⟩
    obtain ⟨s₁, n, s₂, rfl, hn, hother⟩ := h.exists_split hk
    rw [pushPid_split v.pid hn hother]
    simp only [Fs.covered, List.flatMap_append, List.flatMap_cons, List.append_assoc,
      List.singleton_append]
    rw [← List.append_assoc, ← List.append_assoc]
    exact List.perm_middle
  | vanished hs hid hk he =>
    refine Or.inr ⟨?_, rfl⟩
    rintro ⟨-, id', hid', hk' | ⟨info, hinfo⟩⟩
    · exact hk (Outcome.ok_unique hid hid' ▸ hk')
    · exact Outcome.ne_ok_of_err he _ hinfo
  | @new id info hs hid hk hinfo =>
    refine Or.inl ⟨⟨hs, id, hid, Or.inr ⟨info, hinfo⟩⟩, ?_⟩
    rw [covered_append]
    exact List.perm_append_singleton _ _

theorem Step.grouped (hstep : Step pidCfg v s s') (h : Distinct s)
    (hg : ∀ n ∈ s, Grouped nsOf n) (hv : v.Keeps nsOf) : ∀ n ∈ s', Grouped nsOf n := by
  cases hstep with
  | skipped hs => exact hg
  | unreadable hs he => exact hg
  | vanished hs hid hk he => exact hg
  | @known id hs hid hk =>
    obtain ⟨s₁, n, s₂, rfl, hn, hother⟩ := h.exists_split hk
    rw [pushPid_split v.pid hn hother]
    rw [List.forall_mem_append, List.forall_mem_cons] at hg ⊢
    obtain ⟨hg₁, hgn, hg₂⟩ := hg
    refine ⟨hg₁, ⟨?_, by simp, hgn.mounts, hgn.mountinfo⟩, hg₂⟩
    intro p hp
    rw [List.mem_append, List.mem_singleton] at hp
    rcases hp with hp | rfl
    · exact hgn.nsId p hp
    · rw [← hv.first id hid]
      exact hn
  | @new id info hs hid hk hinfo =>
    rw [List.forall_mem_append, List.forall_mem_singleton]
    refine ⟨hg, ⟨?_, by simp [newEntry], nodup_addLines List.nodup_nil _,
      nodup_addLines List.nodup_nil _⟩⟩
    intro p hp
    obtain rfl := List.mem_singleton.mp hp
    exact congrArg some (hv.info_nsId hinfo)

end

/-! ## The whole scan -/

section

variable {nsOf : PidT → Ns.Id} {visits : List Visit}

/-- If the processes keep their namespaces, then the loop returns and groups them. -/
theorem scan_grouped (pidCfg : Option (List PidT × Bool)) (h : ∀ v ∈ visits, v.Keeps nsOf) :
    ∃ s, scan pidCfg visits = .ok s ∧ Distinct s ∧ ∀ n ∈ s, Grouped nsOf n := by
  induction visits using List.reverseRecOn with
  | nil => exact ⟨[], rfl, ⟨[], List.nodup_nil, rfl⟩, by simp⟩
  | append_singleton l v ih =>
    rw [List.forall_mem_append, List.forall_mem_singleton] at h
    obtain ⟨s, hs, hd, hg⟩ := ih h.1
    obtain ⟨s', hv, hstep⟩ := exists_step pidCfg v hd
    refine ⟨s', ?_, (hstep.distinct_iff hd).mpr h.2.not_moved, hstep.grouped hd hg h.2⟩
    rw [scan_concat, hs, Outcome.ok_bind, hv]

/-- The last visit of a scan is a step from what the scan before it found. -/
theorem exists_scan_of_concat {l : List Visit} {v : Visit} (h : ∀ v ∈ l, v.Keeps nsOf)
    {s : List MountNamespace} (hs : scan pidCfg (l ++ [v]) = .ok s) :
    ∃ s₀, scan pidCfg l = .ok s₀ ∧ Distinct s₀ ∧ Step pidCfg v s₀ s := by
  obtain ⟨s₀, hs₀, hd, -⟩ := scan_grouped pidCfg h
  obtain ⟨s', hv, hstep⟩ := exists_step pidCfg v hd
  rw [scan_concat, hs₀, Outcome.ok_bind, hv] at hs
  obtain rfl := Outcome.ok.inj hs
  exact ⟨s₀, hs₀, hd, hstep⟩

/-- The processes of the entries are those that were added when it was their turn. -/
theorem mem_covered_iff (h : ∀ v ∈ visits, v.Keeps nsOf) {s : List MountNamespace}
    (hs : scan pidCfg visits = .ok s) (p : PidT) :
    p ∈ covered s ↔ ∃ l v, l ++ [v] <+: visits ∧ v.pid = p ∧
      ∃ s₀, scan pidCfg l = .ok s₀ ∧ v.Reached pidCfg s₀ := by
  induction visits using List.reverseRecOn generalizing s with
  | nil =>
    obtain rfl := Outcome.ok.inj hs
    simp [covered]
  | append_singleton l v ih =>
    rw [List.forall_mem_append] at h
    obtain ⟨s₀, hs₀, hd, hstep⟩ := exists_scan_of_concat h.1 hs
    have ih := ih h.1 hs₀
    rcases hstep.covered hd with ⟨hr, hperm⟩ | ⟨hr, rfl⟩
    · rw [hperm.mem_iff, List.mem_cons, ih]
      constructor
      · rintro (rfl | ⟨l', v', hl', hp⟩)
        · exact ⟨l, v, List.prefix_refl _, rfl, s₀, hs₀, hr⟩
        · exact ⟨l', v', hl'.trans (List.prefix_append l [v]), hp⟩
      · rintro ⟨l', v', hl', rfl, hp⟩
        rcases List.prefix_concat_iff.mp hl' with he | hl'
        · obtain rfl := (List.append_singleton_inj.mp he).2
          exact Or.inl rfl
        · exact Or.inr ⟨l', v', hl', rfl, hp⟩
    · rw [ih]
      constructor
      · rintro ⟨l', v', hl', hp⟩
        exact ⟨l', v', hl'.trans (List.prefix_append l [v]), hp⟩
      · rintro ⟨l', v', hl', rfl, s₁, hs₁, hr'⟩
        rcases List.prefix_concat_iff.mp hl' with he | hl'
        · obtain ⟨rfl, rfl⟩ := List.append_singleton_inj.mp he
          obtain rfl := Outcome.ok_unique hs₁ hs₀
          exact absurd hr' hr
        · exact ⟨l', v', hl', rfl, s₁, hs₁, hr'⟩

/-- Only listed processes are added, and none that is to be skipped. -/
theorem of_mem_covered (h : ∀ v ∈ visits, v.Keeps nsOf) {s : List MountNamespace}
    (hs : scan pidCfg visits = .ok s) {p : PidT} (hp : p ∈ covered s) :
    p ∈ visits.map (·.pid) ∧ skips pidCfg p = false := by
  obtain ⟨l, v, hl, rfl, s₀, -, hr⟩ := (mem_covered_iff h hs p).mp hp
  exact ⟨List.mem_map_of_mem (hl.subset (by simp)), hr.1⟩

/-- A process is added once. -/
theorem nodup_covered (h : ∀ v ∈ visits, v.Keeps nsOf) (hnd : (visits.map (·.pid)).Nodup)
    {s : List MountNamespace} (hs : scan pidCfg visits = .ok s) : (covered s).Nodup := by
  induction visits using List.reverseRecOn generalizing s with
  | nil =>
    obtain rfl := Outcome.ok.inj hs
    exact List.nodup_nil
  | append_singleton l v ih =>
    rw [List.forall_mem_append] at h
    obtain ⟨s₀, hs₀, hd, hstep⟩ := exists_scan_of_concat h.1 hs
    rw [List.map_append, List.nodup_append] at hnd
    have ih := ih h.1 hnd.1 hs₀
    rcases hstep.covered hd with ⟨-, hperm⟩ | ⟨-, rfl⟩
    · rw [hperm.nodup_iff, List.nodup_cons]
      refine ⟨fun hp => ?_, ih⟩
      exact hnd.2.2 _ (of_mem_covered h.1 hs₀ hp).1 _ (List.mem_singleton.mpr rfl) rfl
    · exact ih

/-- A process that passes the lists and that can be asked is added, unless its mount tables could
not be read when its namespace had no entry. -/
theorem mem_covered_or (h : ∀ v ∈ visits, v.Keeps nsOf) {s : List MountNamespace}
    (hs : scan pidCfg visits = .ok s) {l : List Visit} {v : Visit} (hl : l ++ [v] <+: visits)
    (hskip : skips pidCfg v.pid = false) {id : Ns.Id} (hid : v.nsId = .ok id) :
    v.pid ∈ covered s ∨ ∃ s₀, scan pidCfg l = .ok s₀ ∧ ¬ Known s₀ (nsOf v.pid) ∧
      ∃ e, v.info = .err e := by
  have hl' : ∀ w ∈ l, w.Keeps nsOf := fun w hw => h w (hl.subset (List.mem_append_left _ hw))
  have hv : v.Keeps nsOf := h v (hl.subset (by simp))
  obtain ⟨s₀, hs₀, -⟩ := scan_grouped pidCfg hl'
  by_cases hr : v.Reached pidCfg s₀
  · exact Or.inl ((mem_covered_iff h hs v.pid).mpr ⟨l, v, hl, rfl, s₀, hs₀, hr⟩)
  · refine Or.inr ⟨s₀, hs₀, fun hk => hr ⟨hskip, id, hid, Or.inl ?_⟩, ?_⟩
    · exact (hv.first id hid).symm ▸ hk
    · apply v.returns_info.ok_or_err.resolve_left
      rintro ⟨info, hinfo⟩
      exact hr ⟨hskip, id, hid, Or.inr ⟨info, hinfo⟩⟩

end

theorem map_pid_visitsOf (answers : ℕ → Answers) (pids : List PidT) :
    (visitsOf answers pids).map (·.pid) = pids := by
  exact List.ext_getElem (by simp [visitsOf]) (by simp [visitsOf])

/-- All lookups of the visits succeed. -/
def Answered (visits : List Visit) : Prop :=
  ∀ v ∈ visits, (∃ id, v.nsId = .ok id) ∧ ∃ info, v.info = .ok info

/-- If all lookups succeed, then exactly the processes that pass the lists are added. -/
theorem mem_covered_of_answered {nsOf : PidT → Ns.Id} {visits : List Visit}
    (h : ∀ v ∈ visits, v.Keeps nsOf) (ha : Answered visits) {s : List MountNamespace}
    (hs : scan pidCfg visits = .ok s) (p : PidT) :
    p ∈ covered s ↔ p ∈ visits.map (·.pid) ∧ skips pidCfg p = false := by
  refine ⟨of_mem_covered h hs, ?_⟩
  rintro ⟨hp, hskip⟩
  obtain ⟨v, hv, rfl⟩ := List.mem_map.mp hp
  obtain ⟨l, l', rfl⟩ := List.append_of_mem hv
  obtain ⟨⟨id, hid⟩, info, hinfo⟩ := ha v hv
  have hl : l ++ [v] <+: l ++ v :: l' := by simp
  apply (mem_covered_or h hs hl hskip hid).resolve_right
  rintro ⟨s₀, -, -, e, he⟩
  exact Outcome.ne_ok_of_err he _ hinfo

theorem skips_include {pidList : List PidT} {p : PidT} :
    skips (some (pidList, true)) p = false ↔ p ∈ pidList := by
  simp [skips]

theorem skips_exclude {pidList : List PidT} {p : PidT} :
    skips (some (pidList, false)) p = false ↔ p ∉ pidList := by
  simp [skips]

theorem getMountinfos_eq {procDir : Ns.ProcDir} {pids : List PidT}
    (hpids : getPidList procDir = .ok pids) (answers : ℕ → Answers) :
    getMountinfos procDir answers pidCfg = scan pidCfg (visitsOf answers pids) := by
  rw [getMountinfos, hpids]
  rfl

/-- The selected processes are partitioned by mount namespace, and including and excluding the
same processes complement each other. -/
theorem getMountinfos_partitions {procDir : Ns.ProcDir} {pids : List PidT}
    (hpids : getPidList procDir = .ok pids) (hnd : pids.Nodup) :
    (∀ pidCfg nsOf answers, (∀ v ∈ visitsOf answers pids, v.Keeps nsOf) →
      ∃ entries, getMountinfos procDir answers pidCfg = .ok entries ∧ Distinct entries ∧
        (covered entries).Nodup ∧ (∀ n ∈ entries, Grouped nsOf n) ∧
        ∀ l v id, l ++ [v] <+: visitsOf answers pids → skips pidCfg v.pid = false →
          v.nsId = .ok id → v.pid ∈ covered entries ∨
            ∃ s, scan pidCfg l = .ok s ∧ ¬ Known s (nsOf v.pid) ∧ ∃ e, v.info = .err e) ∧
    ∀ pidList nsOf nsOf' answers answers', (∀ v ∈ visitsOf answers pids, v.Keeps nsOf) →
      (∀ v ∈ visitsOf answers' pids, v.Keeps nsOf') →
      ∃ included excluded,
        getMountinfos procDir answers (some (pidList, true)) = .ok included ∧
        getMountinfos procDir answers' (some (pidList, false)) = .ok excluded ∧
        (∀ p ∈ covered included, p ∈ pidList) ∧ (∀ p ∈ covered excluded, p ∉ pidList) ∧
        (Answered (visitsOf answers pids) → Answered (visitsOf answers' pids) →
          (covered included ++ covered excluded).Perm pids) := by
  have hmap : ∀ answers, ((visitsOf answers pids).map (·.pid)).Nodup := fun answers => by
    rwa [map_pid_visitsOf]
  constructor
  · intro pidCfg nsOf answers hk
    obtain ⟨s, hs, hd, hg⟩ := scan_grouped pidCfg hk
    refine ⟨s, (getMountinfos_eq hpids answers).trans hs, hd, nodup_covered hk (hmap answers) hs,
      hg, ?_⟩
    intro l v id hl hskip hid
    exact mem_covered_or hk hs hl hskip hid
  · intro pidList nsOf nsOf' answers answers' hk hk'
    obtain ⟨s, hs, -⟩ := scan_grouped (some (pidList, true)) hk
    obtain ⟨s', hs', -⟩ := scan_grouped (some (pidList, false)) hk'
    refine ⟨s, s', (getMountinfos_eq hpids answers).trans hs,
      (getMountinfos_eq hpids answers').trans hs',
      fun p hp => skips_include.mp (of_mem_covered hk hs hp).2,
      fun p hp => skips_exclude.mp (of_mem_covered hk' hs' hp).2, fun ha ha' => ?_⟩
    have hmem : ∀ p, p ∈ covered s ↔ p ∈ pids ∧ p ∈ pidList := by
      intro p
      rw [mem_covered_of_answered hk ha hs, map_pid_visitsOf, skips_include]
    have hmem' : ∀ p, p ∈ covered s' ↔ p ∈ pids ∧ p ∉ pidList := by
      intro p
      rw [mem_covered_of_answered hk' ha' hs', map_pid_visitsOf, skips_exclude]
    have hdisj : (covered s ++ covered s').Nodup := by
      refine List.nodup_append.mpr ⟨nodup_covered hk (hmap answers) hs,
        nodup_covered hk' (hmap answers') hs', ?_⟩
      rintro p hp _ hp' rfl
      exact ((hmem' p).mp hp').2 ((hmem p).mp hp).2
    rw [List.perm_ext_iff_of_nodup hdisj hnd]
    intro p
    rw [List.mem_append, hmem, hmem', ← and_or_left, and_iff_left (em _)]

/-- The last process has a mount namespace of its own. -/
def steadyAnswers (i : ℕ) : Answers where
  first := kernelInNs (if i = 2 then 20 else 10)
  second := kernelInNs (if i = 2 then 20 else 10)
  tables _ := { mounts := .ok [], mountinfo := .ok [] }

theorem getMountinfos_partitions_steady : ∃ included excluded,
    getMountinfos (.ok [.ok ⟨some "1", true⟩, .ok ⟨some "2", true⟩, .ok ⟨some "3", true⟩])
        steadyAnswers (some ([2], true)) = .ok included ∧
      getMountinfos (.ok [.ok ⟨some "1", true⟩, .ok ⟨some "2", true⟩, .ok ⟨some "3", true⟩])
        steadyAnswers (some ([2], false)) = .ok excluded ∧
      (covered included ++ covered excluded).Perm [1, 2, 3] := by
  have hpids : getPidList (.ok [.ok ⟨some "1", true⟩, .ok ⟨some "2", true⟩,
      .ok ⟨some "3", true⟩]) = .ok [1, 2, 3] := by decide
  have hvisit : ∀ v ∈ visitsOf steadyAnswers [1, 2, 3],
      v.Keeps (fun p => ⟨4, if p = 3 then 20 else 10⟩) ∧
        (∃ id, v.nsId = .ok id) ∧ ∃ info, v.info = .ok info := by
    have hv : visitsOf steadyAnswers [1, 2, 3] =
        [⟨steadyAnswers 0, 1⟩, ⟨steadyAnswers 1, 2⟩, ⟨steadyAnswers 2, 3⟩] := rfl
    rw [hv]
    simp only [List.forall_mem_cons, List.not_mem_nil, false_imp_iff, implies_true, and_true]
    refine ⟨?_, ?_, ?_⟩ <;>
      exact ⟨⟨fun id h => (Outcome.ok.inj h).symm, fun id h => (Outcome.ok.inj h).symm⟩,
        ⟨_, rfl⟩, _, rfl⟩
  obtain ⟨included, excluded, hi, he, -, -, hperm⟩ :=
    (getMountinfos_partitions hpids (by decide)).2 [2] _ _ steadyAnswers steadyAnswers
      (fun v hv => (hvisit v hv).1) (fun v hv => (hvisit v hv).1)
  have ha : Answered (visitsOf steadyAnswers [1, 2, 3]) := fun v hv => (hvisit v hv).2
  exact ⟨included, excluded, hi, he, hperm ha ha⟩

end Fs

end Checkc

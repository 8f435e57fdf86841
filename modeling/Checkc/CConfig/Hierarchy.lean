import Checkc.CConfig.Ns
import Checkc.Forest.Basic
import Checkc.Rust.Text

/-! # Namespace hierarchies

The hierarchy of the user or pid namespaces of a host is rebuilt from the chains of
ancestors of the namespaces in which its processes live. If the kernel answers truly about
a rooted tree of namespaces, then the result spans those namespaces with their ancestors.
-/

namespace Checkc

open Outcome (bind_eq_ok pure_eq_ok)

namespace Ns

open Forest

/-! ## The processes -/

/-- An entry of a directory. The name is `none` when it is not valid text. -/
structure ProcEntry where
  name : Option String
  isDir : Bool

/-- The entries of `/proc`, as far as they can be read. -/
abbrev ProcDir := Except Errno (List (Except Errno ProcEntry))

/-- `str::parse::<pid_t>`. -/
def parsePid (s : List Char) : Option PidT :=
  match s with
  | '-' :: ds =>
    match ds with
    | [] => none
    | ds => (parseDigits 10 (2 ^ 31) 0 ds).toOption.map fun n => -(n : Int)
  | s => (fromStrRadix 10 (2 ^ 31 - 1) s).toOption.map fun n => (n : Int)

/-- The filter for the directories of processes. -/
def isPidDir (entry : ProcEntry) : Result Bool :=
  if entry.isDir then do
    let name ← unwrap entry.name
    pure (name.toList.any Char.isDigit)
  else pure false

/-- The process ids that `create_hierarchy` reads from `/proc`. -/
def procPids (procDir : ProcDir) : Result (List PidT) := do
  let entries ← ioResult procDir
  let dirs ← (entries.filterMap Except.toOption).filterM isPidDir
  dirs.mapM fun entry => do
    let name ← unwrap entry.name
    unwrap (parsePid name.toList)

/-! ## Ancestors -/

/-- The loop of `ns_get_parent_ns`. -/
def parentLoop (q : ParentQuery) : ℕ → ℕ → Id → List (Id × Id) → Result (List (Id × Id))
  | 0, _, _, _ => .outOfFuel
  | fuel + 1, fd, id, result =>
    match q.getParent fd with
    | .ok () => do
      let parentId ← Id.fromFd (q.fstat (fd + 1))
      parentLoop q fuel (fd + 1) parentId (result ++ [(parentId, id)])
    | .error errno =>
      -- EPERM indicates the initial namespace
      if errno = Errno.EPERM then pure (result ++ [(id, id)])
      else .err (.ioctlFailed errno)

/-- `ns_get_parent_ns`. -/
def nsGetParentNs (k : Kernel) (fuel : ℕ) (pid : PidT) (nsType : NsType) :
    Result (List (Id × Id)) :=
  match (k.parent pid nsType).openNs with
  | .error e => .err (.ioError e)
  | .ok () => do
    let id ← Id.fromFd ((k.parent pid nsType).fstat 0)
    parentLoop (k.parent pid nsType) fuel 0 id []

/-- Leave out the calls that return an error. -/
def keepOk {α : Type} : Result α → Result (Option α)
  | .ok a => .ok (some a)
  | .err _ => .ok none
  | .panic m => .panic m
  | .outOfFuel => .outOfFuel

/-- The pairs of parent and namespace of all processes that can be queried. -/
def idMap (k : Kernel) (fuel : ℕ) (nsType : NsType) (pids : List PidT) :
    Result (List (Id × Id)) :=
  pids.foldlM (fun idMap pid => do
    let chain ← keepOk (nsGetParentNs k fuel pid nsType)
    pure (idMap ++ chain.getD [])) []

/-! ## Building the tree -/

/-- `internal::Hierarchy`: a namespace with the set of hierarchies below it. -/
abbrev Internal.Hierarchy := OrderedTree Id

namespace Internal

/-- `collect` into a set of hierarchies, which are equal when their `parent_id`s are. -/
def collect (hierarchies : List Hierarchy) : List Hierarchy :=
  hierarchies.foldl (fun set h =>
    if h.label ∈ set.map OrderedTree.label then set else set ++ [h]) []

/-- The pairs of other namespaces than `self`. -/
def removeId (self : Id) (idMap : List (Id × Id)) : List (Id × Id) := idMap.filter (·.2 ≠ self)

/-- The namespaces with parent `self`. -/
def childIds (self : Id) (idMap : List (Id × Id)) : HashSet Id :=
  HashSet.ofList ((idMap.filter (·.1 = self)).map Prod.snd)

theorem mem_removeId {self : Id} {idMap : List (Id × Id)} {m : Id × Id} :
    m ∈ removeId self idMap ↔ m ∈ idMap ∧ m.2 ≠ self := by
  simp [removeId]

theorem mem_childIds {self child : Id} {idMap : List (Id × Id)} :
    child ∈ childIds self idMap ↔ (self, child) ∈ idMap := by
  simp [childIds]

/-- `Hierarchy::populate`. -/
def populate (env : Env) (self : Id) (idMap : List (Id × Id)) : Hierarchy :=
  let idMapFiltered := removeId self idMap
  if idMapFiltered.isEmpty then .node self []
  else
    .node self <| collect <| ((childIds self idMapFiltered).iter env.σ "populate").attach.map
      fun child => populate env child.1 idMapFiltered
termination_by (removeId self idMap).length
decreasing_by
  have hc := mem_childIds.mp (HashSet.mem_iter.mp child.2)
  exact List.length_filter_lt_length_iff_exists.mpr ⟨_, hc, by simp⟩

/-- `Hierarchy::create_hierarchy`. -/
def createHierarchy (env : Env) (k : Kernel) (procDir : ProcDir) (fuel : ℕ) (nsType : NsType) :
    Result Hierarchy := do
  let pids ← procPids procDir
  let idMap ← idMap k fuel nsType pids
  let (root, _) ← unwrap (idMap.find? fun m => m.1 = m.2)
  pure (populate env root idMap)

end Internal

/-- The conversion of a hierarchy to its message form. -/
def Hierarchy.fromInternal (env : Env) : Internal.Hierarchy → Hierarchy
  | .node parentId children =>
    .mk (some parentId) (env.σ.order "hierarchy" (children.map (fromInternal env)))

/-- `ns_config`. -/
def nsConfig (env : Env) (k : Kernel) (procDir : ProcDir) (fuel : ℕ) (initPid cInitPid : PidT) :
    Result Config := do
  let nsSetInit ← Info.parseProcNs k initPid
  let nsSetCInit ← Info.parseProcNs k cInitPid
  let userHierarchy ← Internal.createHierarchy env k procDir fuel .user
  let pidHierarchy ← Internal.createHierarchy env k procDir fuel .pid
  pure
    { sharedHost := (nsSetCInit.inter nsSetInit).iter env.σ "shared_host"
      unshared := (nsSetCInit.iter env.σ "unshared").filter (· ∉ nsSetInit)
      userNsHierarchy := some (.fromInternal env userHierarchy)
      pidNsHierarchy := some (.fromInternal env pidHierarchy) }

/-! ## Populating -/

namespace Internal

theorem collect_of_nodup {l : List Hierarchy} (h : (l.map OrderedTree.label).Nodup) :
    collect l = l := by
  suffices hs : ∀ s : List Hierarchy, ((s ++ l).map OrderedTree.label).Nodup →
      l.foldl (fun set h =>
        if h.label ∈ set.map OrderedTree.label then set else set ++ [h]) s = s ++ l from
    hs [] h
  clear h
  induction l with
  | nil => simp
  | cons h l ih =>
    intro s hs
    rw [List.map_append, List.map_cons, List.nodup_append] at hs
    have hh : h.label ∉ s.map OrderedTree.label := fun hm => hs.2.2 _ hm _ List.mem_cons_self rfl
    rw [List.foldl_cons, if_neg hh, ih]
    · simp
    · rw [List.append_assoc, List.singleton_append, List.map_append, List.map_cons]
      exact List.nodup_append.mpr hs

theorem populate_eq (env : Env) (self : Id) (idMap : List (Id × Id)) :
    populate env self idMap = .node self (collect
      (((childIds self (removeId self idMap)).iter env.σ "populate").map fun child =>
        populate env child (removeId self idMap))) := by
  rw [populate]
  split
  · case isTrue h =>
    rw [List.isEmpty_iff] at h
    have hc : (childIds self (removeId self idMap)).iter env.σ "populate" = [] := by
      simp [mem_childIds, h]
    rw [hc]
    rfl
  · rw [List.attach_map_val (f := fun child => populate env child (removeId self idMap))]

variable {T : ParentTree Id} {S : Id → Prop}

theorem label_populate (env : Env) (self : Id) (idMap : List (Id × Id)) :
    (populate env self idMap).label = self := by
  rw [populate_eq]; rfl

theorem map_label_populate (env : Env) (idMap : List (Id × Id)) (l : List Id) :
    (l.map fun child => populate env child idMap).map OrderedTree.label = l := by
  rw [List.map_map]
  exact List.map_id'' (fun c => label_populate env c _) l

/-- The children of a node are its kernel children in the set, since the pair of the root with
itself is left out. -/
theorem mem_childIds_removeId (hS : T.Closed S) {self : Id} {idMap : List (Id × Id)}
    (hpairs : ∀ m ∈ idMap, m.1 = T.parent m.2 ∧ S m.2)
    (hbelow : ∀ x, S x → T.Above self x → x ≠ self → (T.parent x, x) ∈ idMap) {c : Id} :
    c ∈ childIds self (removeId self idMap) ↔ S c ∧ c ≠ T.root ∧ T.parent c = self := by
  rw [mem_childIds, mem_removeId]
  constructor
  · rintro ⟨hm, hne⟩
    obtain ⟨hp, hs⟩ := hpairs _ hm
    refine ⟨hs, ?_, hp.symm⟩
    rintro rfl
    exact hne (T.parent_root.symm.trans hp.symm)
  · rintro ⟨hs, hr, rfl⟩
    have hne : c ≠ T.parent c := fun he =>
      hr (ParentTree.eq_root_of_parent_eq (hS.mem c hs) he.symm)
    exact ⟨hbelow c hs (ParentTree.Above.step (.refl _)) hne, hne⟩

/-- Populating spans a node when all pairs are of a child and its parent and no pair of a node
below it is missing. -/
theorem populate_spans (hS : T.Closed S) (env : Env) {self : Id} {idMap : List (Id × Id)}
    (hself : S self) (hpairs : ∀ m ∈ idMap, m.1 = T.parent m.2 ∧ S m.2)
    (hbelow : ∀ x, S x → T.Above self x → x ≠ self → (T.parent x, x) ∈ idMap) :
    (populate env self idMap).Spans T S self := by
  induction hn : (removeId self idMap).length using Nat.strong_induction_on
    generalizing self idMap with
  | _ n ih =>
  have hnd := HashSet.nodup_iter env.σ "populate" (childIds self (removeId self idMap))
  rw [populate_eq, collect_of_nodup (by rwa [map_label_populate])]
  refine OrderedTree.Spans.node hS (fun c => ?_) (fun t ht => ?_) hself
    (by rwa [map_label_populate])
  · rw [map_label_populate, HashSet.mem_iter, mem_childIds_removeId hS hpairs hbelow]
  · obtain ⟨c, hc, rfl⟩ := List.mem_map.mp ht
    rw [HashSet.mem_iter] at hc
    obtain ⟨hs, hr, hp⟩ := (mem_childIds_removeId hS hpairs hbelow).mp hc
    rw [label_populate]
    refine ih _ ?_ hs (fun m hm => hpairs m (mem_removeId.mp hm).1) (fun x hx hcx hxc => ?_) rfl
    · rw [← hn]
      exact List.length_filter_lt_length_iff_exists.mpr ⟨_, mem_childIds.mp hc, by simp⟩
    · have hx' : x ≠ self := by
        rintro rfl
        exact ParentTree.not_above_parent (hS.mem c hs) hr (hp ▸ hcx)
      refine mem_removeId.mpr ⟨hbelow x hx ?_ hx', hx'⟩
      exact ParentTree.Above.trans (hp ▸ ParentTree.Above.step (.refl _)) hcx

end Internal

/-! ## Chains of ancestors -/

/-- The answers of the kernel about a namespace are those of its place in the tree. -/
structure ParentQuery.Faithful (q : ParentQuery) (T : ParentTree Id) (a : Id) : Prop where
  fstat : ∀ fd id, q.fstat fd = .ok id → id = T.parent^[fd] a
  getParent : ∀ fd, q.getParent fd = .ok () → T.parent^[fd] a ≠ T.root
  eperm : ∀ fd, q.getParent fd = .error .EPERM → T.parent^[fd] a = T.root

section Chain

variable {T : ParentTree Id} {q : ParentQuery} {a : Id}

theorem Id.fromFd_eq_ok {x : Except Errno Id} {id : Id} : Id.fromFd x = .ok id ↔ x = .ok id := by
  cases x <;> simp [Id.fromFd]

/-- The loop lists each ancestor with its parent. -/
theorem mem_parentLoop (hq : q.Faithful T a) {fuel fd : ℕ} {acc r : List (Id × Id)}
    (h : parentLoop q fuel fd (T.parent^[fd] a) acc = .ok r) (m : Id × Id) :
    m ∈ r ↔ m ∈ acc ∨ ∃ n, fd ≤ n ∧ m = (T.parent (T.parent^[n] a), T.parent^[n] a) := by
  induction fuel generalizing fd acc with
  | zero => cases h
  | succ fuel ih =>
    rw [parentLoop] at h
    cases hp : q.getParent fd with
    | ok =>
      simp only [hp, bind_eq_ok, Id.fromFd_eq_ok] at h
      obtain ⟨p, hfd, h⟩ := h
      obtain rfl := hq.fstat _ _ hfd
      rw [ih h, List.mem_append, List.mem_singleton, or_assoc]
      refine or_congr_right ⟨?_, ?_⟩
      · rintro (rfl | ⟨n, hn, rfl⟩)
        · exact ⟨fd, le_rfl, by rw [Function.iterate_succ_apply']⟩
        · exact ⟨n, (Nat.le_succ fd).trans hn, rfl⟩
      · rintro ⟨n, hn, rfl⟩
        rcases hn.eq_or_lt with rfl | hn
        · exact Or.inl (by rw [Function.iterate_succ_apply'])
        · exact Or.inr ⟨n, hn, rfl⟩
    | error e =>
      rw [hp] at h
      by_cases he : e = Errno.EPERM
      · subst he
        obtain rfl := pure_eq_ok.mp ((if_pos rfl).symm.trans h)
        have hr := hq.eperm fd hp
        rw [List.mem_append, List.mem_singleton]
        refine or_congr_right ⟨?_, ?_⟩
        · rintro rfl
          exact ⟨fd, le_rfl, by rw [hr, T.parent_root]⟩
        · rintro ⟨n, hn, rfl⟩
          rw [ParentTree.iterate_of_root hr hn, hr, T.parent_root]
      · cases (if_neg he).symm.trans h

/-- The loop ends within the depth of the namespace. -/
theorem parentLoop_terminates (hq : q.Faithful T a) (ha : a ∈ T.nodes) {fuel fd : ℕ}
    (hf : T.depth (T.parent^[fd] a) < fuel) (acc : List (Id × Id)) :
    (∃ r, parentLoop q fuel fd (T.parent^[fd] a) acc = .ok r) ∨
      ∃ e, parentLoop q fuel fd (T.parent^[fd] a) acc = .err e := by
  induction fuel generalizing fd acc with
  | zero => omega
  | succ fuel ih =>
    rw [parentLoop]
    cases hp : q.getParent fd with
    | ok =>
      cases hfd : q.fstat (fd + 1) with
      | error e => exact Or.inr ⟨_, rfl⟩
      | ok p =>
        obtain rfl := hq.fstat _ _ hfd
        refine ih ?_ _
        have hd := ParentTree.depth_parent (ParentTree.iterate_mem ha fd) (hq.getParent fd hp)
        rw [Function.iterate_succ_apply']
        omega
    | error e =>
      by_cases he : e = Errno.EPERM
      · exact Or.inl ⟨_, if_pos he⟩
      · exact Or.inr ⟨_, if_neg he⟩

end Chain

section Querying

variable {T : ParentTree Id} {k : Kernel} {fuel : ℕ} {t : NsType} {a : Id}

/-- A process can be queried. -/
def Queried (k : Kernel) (fuel : ℕ) (t : NsType) (pid : PidT) : Prop :=
  ∃ chain, nsGetParentNs k fuel pid t = .ok chain

/-- The answer for a process lists its namespace and all ancestors, each with its parent. -/
theorem mem_nsGetParentNs {pid : PidT} {chain : List (Id × Id)}
    (hk : (k.parent pid t).Faithful T a) (h : nsGetParentNs k fuel pid t = .ok chain)
    (m : Id × Id) : m ∈ chain ↔ T.Above m.2 a ∧ m.1 = T.parent m.2 := by
  unfold nsGetParentNs at h
  split at h
  · cases h
  · simp only [bind_eq_ok, Id.fromFd_eq_ok] at h
    obtain ⟨id, hid, h⟩ := h
    obtain rfl := hk.fstat 0 id hid
    rw [mem_parentLoop hk h]
    constructor
    · rintro (hm | ⟨n, -, rfl⟩)
      · cases hm
      · exact ⟨⟨n, rfl⟩, rfl⟩
    · rintro ⟨⟨n, hn⟩, hm⟩
      exact Or.inr ⟨n, Nat.zero_le n, Prod.ext (by rw [hm, hn]) hn.symm⟩

theorem nsGetParentNs_terminates {pid : PidT} (hk : (k.parent pid t).Faithful T a)
    (ha : a ∈ T.nodes) (hf : T.nodes.card ≤ fuel) :
    ∃ r, keepOk (nsGetParentNs k fuel pid t) = .ok r := by
  suffices h : (∃ r, nsGetParentNs k fuel pid t = .ok r) ∨
      ∃ e, nsGetParentNs k fuel pid t = .err e by
    rcases h with ⟨r, hr⟩ | ⟨e, he⟩
    · exact ⟨some r, by rw [hr]; rfl⟩
    · exact ⟨none, by rw [he]; rfl⟩
  unfold nsGetParentNs
  split
  · exact Or.inr ⟨_, rfl⟩
  · cases h0 : (k.parent pid t).fstat 0 with
    | error e => exact Or.inr ⟨_, rfl⟩
    | ok id =>
      obtain rfl := hk.fstat 0 id h0
      exact parentLoop_terminates hk ha ((ParentTree.depth_lt_card ha).trans_le hf) []

/-- The pairs are those of the answers for the processes that can be queried. -/
theorem mem_idMap {pids : List PidT} {l : List (Id × Id)} (h : idMap k fuel t pids = .ok l)
    (m : Id × Id) :
    m ∈ l ↔ ∃ pid ∈ pids, ∃ chain, nsGetParentNs k fuel pid t = .ok chain ∧ m ∈ chain := by
  have := foldlM_accumulates (M := fun l => m ∈ l)
    (Q := fun pid => ∃ chain, nsGetParentNs k fuel pid t = .ok chain ∧ m ∈ chain) ?_ h
  · simpa using this
  · intro s r pid _ hs
    simp only [bind_eq_ok, pure_eq_ok] at hs
    obtain ⟨chain, hc, rfl⟩ := hs
    rw [List.mem_append]
    apply or_congr_right
    cases hq : nsGetParentNs k fuel pid t <;> rw [hq] at hc <;> cases hc <;> simp

end Querying

variable {T : ParentTree Id} {k : Kernel} {fuel : ℕ} {t : NsType} {pids : List PidT}
  {nsOf : PidT → Id}

/-- The namespaces of the processes that can be queried, with their ancestors. -/
def Reported (T : ParentTree Id) (k : Kernel) (fuel : ℕ) (t : NsType) (pids : List PidT)
    (nsOf : PidT → Id) (x : Id) : Prop :=
  ∃ pid ∈ pids, Queried k fuel t pid ∧ T.Above x (nsOf pid)

theorem closed_reported (hlive : ∀ pid ∈ pids, nsOf pid ∈ T.nodes) :
    T.Closed (Reported T k fuel t pids nsOf) where
  mem := fun _ ⟨pid, hp, _, h⟩ => h.mem (hlive pid hp)
  above := fun _ _ hab ⟨pid, hp, hq, h⟩ => ⟨pid, hp, hq, hab.trans h⟩

theorem idMap_isOk (hlive : ∀ pid ∈ pids, nsOf pid ∈ T.nodes)
    (hk : ∀ pid ∈ pids, (k.parent pid t).Faithful T (nsOf pid)) (hfuel : T.nodes.card ≤ fuel) :
    ∃ l, idMap k fuel t pids = .ok l := by
  refine foldlM_isOk (fun l pid hp => ?_) _
  obtain ⟨r, hr⟩ := nsGetParentNs_terminates (hk pid hp) (hlive pid hp) hfuel
  exact ⟨_, bind_eq_ok.mpr ⟨r, hr, rfl⟩⟩

theorem mem_idMap_iff (hk : ∀ pid ∈ pids, (k.parent pid t).Faithful T (nsOf pid))
    {l : List (Id × Id)} (hl : idMap k fuel t pids = .ok l) (m : Id × Id) :
    m ∈ l ↔ Reported T k fuel t pids nsOf m.2 ∧ m.1 = T.parent m.2 := by
  rw [mem_idMap hl]
  constructor
  · rintro ⟨pid, hp, chain, hc, hm⟩
    obtain ⟨hab, he⟩ := (mem_nsGetParentNs (hk pid hp) hc m).mp hm
    exact ⟨⟨pid, hp, ⟨chain, hc⟩, hab⟩, he⟩
  · rintro ⟨⟨pid, hp, ⟨chain, hc⟩, hab⟩, he⟩
    exact ⟨pid, hp, chain, hc, (mem_nsGetParentNs (hk pid hp) hc m).mpr ⟨hab, he⟩⟩

/-- The hierarchy of a type of namespace is complete and correct if the kernel answers truly
about a tree of namespaces in which all processes live. -/
theorem createHierarchy_spans (env : Env) {procDir : ProcDir} (hpids : procPids procDir = .ok pids)
    (hlive : ∀ pid ∈ pids, nsOf pid ∈ T.nodes)
    (hk : ∀ pid ∈ pids, (k.parent pid t).Faithful T (nsOf pid))
    (hq : ∃ pid ∈ pids, Queried k fuel t pid) (hfuel : T.nodes.card ≤ fuel) :
    ∃ h, Internal.createHierarchy env k procDir fuel t = .ok h ∧ h.label = T.root ∧
      h.labels.Nodup ∧
      (∀ x, x ∈ h.labels ↔ ∃ pid ∈ pids, Queried k fuel t pid ∧ ∃ n, T.parent^[n] (nsOf pid) = x) ∧
      (∀ p c, (p, c) ∈ h.edges → p = T.parent c ∧ c ≠ T.root) ∧
      ∀ c ∈ h.labels, c ≠ T.root → (T.parent c, c) ∈ h.edges := by
  have hS : T.Closed (Reported T k fuel t pids nsOf) := closed_reported hlive
  obtain ⟨l, hl⟩ := idMap_isOk hlive hk hfuel
  have hm := mem_idMap_iff hk hl
  have hroot : Reported T k fuel t pids nsOf T.root := by
    obtain ⟨pid, hp, hq⟩ := hq
    exact ⟨pid, hp, hq, ParentTree.above_root (hlive pid hp)⟩
  -- only the root is its own parent, so the first such pair is the one of the root
  obtain ⟨m, hf⟩ : ∃ m, l.find? (fun m => m.1 = m.2) = some m := by
    rw [← Option.isSome_iff_exists, List.find?_isSome]
    exact ⟨(T.root, T.root), (hm _).mpr ⟨hroot, T.parent_root.symm⟩, by simp⟩
  have hmr : m.1 = T.root := by
    have he : m.1 = m.2 := by simpa using List.find?_some hf
    obtain ⟨hr, hp⟩ := (hm m).mp (List.mem_of_find?_eq_some hf)
    rw [he, ParentTree.eq_root_of_parent_eq (hS.mem _ hr) (hp.symm.trans he)]
  have hspans := Internal.populate_spans hS env hroot (fun m h => ((hm m).mp h).symm)
    fun x hx _ _ => (hm (T.parent x, x)).mpr ⟨hx, rfl⟩
  refine ⟨Internal.populate env T.root l, ?_, hspans.label_eq, hspans.nodup, fun x => ?_,
    hspans.edges, fun c hc hr => hspans.parent_edge hc hr⟩
  · simp only [Internal.createHierarchy, hpids, hl, hf, Outcome.ok_bind, unwrap_some, hmr]
    rfl
  · rw [hspans.mem_labels]
    exact ⟨fun h => h.1, fun h => ⟨h, ParentTree.above_root (hS.mem x h)⟩⟩

/-! ### A host with a container -/

/-- The namespaces of the host process `1` have the numbers 1 to 8, and those of all other
processes have the numbers 101 to 108 and belong to their user namespace. -/
def Id.ofContainer (pid : PidT) (t : NsType) : Id :=
  ⟨4, UInt64.ofNat ((ProtoEnum.toI32 t).toNat + if pid = 1 then 0 else 100)⟩

def Kernel.withContainer : Kernel where
  ofType pid t := { openNs := .ok (), metadata := .ok (Id.ofContainer pid t) }
  owner pid t :=
    { openNs := .ok ()
      getUserns := if pid = 1 ∧ t = .user then .error .EPERM else .ok ()
      fstat := .ok (Id.ofContainer pid t)
      ownerMetadata := .ok (Id.ofContainer (if t = .user then 1 else pid) .user) }
  parent pid t :=
    { openNs := .ok ()
      fstat fd := .ok (Id.ofContainer (if fd = 0 then pid else 1) t)
      getParent fd := if pid = 1 ∨ fd ≠ 0 then .error .EPERM else .ok () }

/-- The host process and a process of the container. -/
def ProcDir.withContainer : ProcDir :=
  .ok [.ok ⟨some "1", true⟩, .ok ⟨some "2", true⟩, .ok ⟨some "cpuinfo", false⟩]

/-- The namespaces of a type with that of the host as the root. -/
def ParentTree.withContainer (t : NsType) : ParentTree Id where
  nodes := {Id.ofContainer 1 t, Id.ofContainer 2 t}
  root := Id.ofContainer 1 t
  parent _ := Id.ofContainer 1 t
  root_mem := Finset.mem_insert_self _ _
  parent_root := rfl
  parent_mem _ _ := Finset.mem_insert_self _ _
  reaches _ _ := ⟨1, rfl⟩

theorem Id.ofContainer_ne {pid : PidT} (hp : pid ≠ 1) (t : NsType) :
    Id.ofContainer pid t ≠ Id.ofContainer 1 t := by
  rw [Id.ofContainer, Id.ofContainer, if_neg hp, if_pos rfl]
  cases t <;> decide

theorem ParentTree.iterate_withContainer (t : NsType) (n : ℕ) (a : Id) :
    (ParentTree.withContainer t).parent^[n] a = if n = 0 then a else Id.ofContainer 1 t := by
  cases n with
  | zero => rfl
  | succ n => rw [Function.iterate_succ_apply', if_neg n.succ_ne_zero]; rfl

/-- The answers about a process are those of its place in the tree. -/
theorem Kernel.faithful_withContainer (pid : PidT) (t : NsType) :
    (Kernel.withContainer.parent pid t).Faithful (ParentTree.withContainer t)
      (Id.ofContainer pid t) where
  fstat fd id h := by
    obtain rfl := Except.ok.inj h
    rw [ParentTree.iterate_withContainer]
    split <;> rfl
  getParent fd h := by
    rw [Kernel.withContainer] at h
    have hfd : ¬ (pid = 1 ∨ fd ≠ 0) := fun hf => by simp [hf] at h
    rw [not_or, not_not] at hfd
    rw [ParentTree.iterate_withContainer, if_pos hfd.2]
    exact Id.ofContainer_ne hfd.1 t
  eperm fd h := by
    rw [Kernel.withContainer] at h
    have hfd : pid = 1 ∨ fd ≠ 0 := by
      by_contra hf
      simp [hf] at h
    rw [ParentTree.iterate_withContainer]
    split
    · case isTrue h0 => rw [hfd.resolve_right (not_not.mpr h0)]; rfl
    · rfl

theorem createHierarchy_spans_withContainer : ∃ h,
    Internal.createHierarchy .logging .withContainer .withContainer 2 .user = .ok h ∧
      h.labels.Nodup ∧ Id.ofContainer 1 .user ∈ h.labels ∧ Id.ofContainer 2 .user ∈ h.labels := by
  have hpids : procPids .withContainer = .ok [1, 2] := by decide
  have hlive : ∀ pid ∈ ([1, 2] : List PidT),
      Id.ofContainer pid .user ∈ (ParentTree.withContainer .user).nodes := by decide
  have hq : ∀ pid ∈ ([1, 2] : List PidT), Queried .withContainer 2 .user pid := by
    intro pid hp
    rcases List.mem_pair.mp hp with rfl | rfl <;> exact ⟨_, rfl⟩
  obtain ⟨h, hok, -, hnd, hlabels, -⟩ := createHierarchy_spans .logging hpids hlive
    (fun pid _ => Kernel.faithful_withContainer pid .user) ⟨1, by decide, hq 1 (by decide)⟩
    (by decide)
  refine ⟨h, hok, hnd, (hlabels _).mpr ⟨1, by decide, hq 1 (by decide), 0, rfl⟩,
    (hlabels _).mpr ⟨2, by decide, hq 2 (by decide), 0, rfl⟩⟩

end Ns

end Checkc

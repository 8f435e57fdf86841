import Checkc.CConfig.Config
import Checkc.Rust.Enumeration
import Checkc.Rust.Path
import Checkc.Rust.Text

/-! # Control groups

The control group of a process, its controllers, and its limits. A limit is looked for from the
group of the process up to the root of the hierarchy, which is left out.
-/

namespace Checkc

open Outcome (bind_eq_ok pure_eq_ok)

namespace Cgroup

/-- `c_config.cgroup.Controller`. -/
inductive Controller where
  | unspecified | cpu | cpuset | freezer | hugetlb | io | memory | perfEvent | pids | rdma | misc
  deriving DecidableEq, Repr

namespace Controller

instance : ProtoEnum Controller where
  variants :=
    [unspecified, cpu, cpuset, freezer, hugetlb, io, memory, perfEvent, pids, rdma, misc]
  toI32
    | unspecified => 0 | cpu => 1 | cpuset => 2 | freezer => 3 | hugetlb => 4 | io => 5
    | memory => 6 | perfEvent => 7 | pids => 8 | rdma => 9 | misc => 10
  mem_variants a := by cases a <;> decide
  nodup_codes := by decide

/-- `Controller::try_from`. -/
def tryFrom : String → Result Controller
  | "cpu" => pure cpu
  | "cpuset" => pure cpuset
  | "freezer" => pure freezer
  | "hugetlb" => pure hugetlb
  | "io" => pure io
  | "memory" => pure memory
  | "perf_event" => pure perfEvent
  | "pids" => pure pids
  | "rdma" => pure rdma
  | "misc" => pure misc
  | value => .err (.conversionFailed s!"unknown cgroup controller: {value}")

end Controller

/-- What the system answers about control groups: the lines of `/proc/<pid>/cgroup` and of the
files with the controllers, and the first lines of the files with the limits. -/
structure System where
  cgroup : PidT → Except Errno (List (Except Errno String))
  controllers : List Path.Component → Except Errno (List (Except Errno String))
  firstLine : List Path.Component → Except Errno (Except Errno String)

/-- A file of a control group. -/
def file (path : List Path.Component) (name : String) : List Path.Component :=
  path ++ [.normal name.toList]

/-- `/sys/fs/cgroup`. -/
def root : List Path.Component := Path.components "/sys/fs/cgroup".toList

/-- `get_cgroup`. -/
def getCgroup (sys : System) (pid : PidT) : Result String := do
  let lines ← ioResult (sys.cgroup pid)
  -- there is only one entry in version 2
  match lines.filterMap Except.toOption with
  | [cgroup] =>
    let cgroup ← unwrap (cgroup.toList.dropPrefix? "0::/".toList)
    pure (String.ofList cgroup)
  | _ => .err .cgroupError

/-- The path of the control group with the name that `get_cgroup` returns. -/
def groupPath (cgroup : String) : PathBuf := Path.join "/sys/fs/cgroup" cgroup

/-- `get_cgroup_controllers`. The panic also shows the error of the system. -/
def getCgroupControllers (sys : System) (pid : PidT) : Result (HashSet Controller) := do
  let pidCgroup ← getCgroup sys pid
  let path := Path.join (groupPath pidCgroup) "cgroup.controllers"
  match sys.controllers (Path.components path.toList) with
  | .error _ =>
    .panic s!"Failed to open cgroup controllers file for PID '{pid}' at '{path}'"
  | .ok lines =>
    let elements := (lines.filterMap Except.toOption).flatMap fun line =>
      splitAsciiWhitespace line.toList
    let controllers := elements.filterMap fun entry =>
      match Controller.tryFrom (String.ofList entry) with
      | .ok controller => some controller
      | _ => none
    pure (HashSet.ofList controllers)

/-- The loops that look for a limit: the groups from the path up to the root are asked, and the
first answer is returned. -/
def climb (ask : List Path.Component → Result (Option String)) :
    ℕ → List Path.Component → Result String
  | 0, _ => .outOfFuel
  | fuel + 1, path =>
    if path = root then pure ""
    else do
      match ← ask path with
      | some content => pure content
      | none => do
        let path ← unwrap (Path.parent path)
        climb ask fuel path

/-- The body of the loop of `get_cpu_max`. -/
def askCpuMax (sys : System) (path : List Path.Component) : Result (Option String) :=
  match sys.firstLine (file path "cpu.max") with
  | .error _ => pure none
  | .ok line => do
    let content ← ioResult line
    pure (some content)

/-- The body of the loop of `get_memory_max`. -/
def askMemoryMax (sys : System) (path : List Path.Component) : Result (Option String) :=
  match sys.firstLine (file path "memory.max") with
  | .error _ => pure none
  | .ok line => do
    let content ← ioResult line
    if trim content.toList ≠ "max".toList then pure (some content) else pure none

/-- `get_cpu_max`. -/
def getCpuMax (sys : System) (fuel : ℕ) (pid : PidT) : Result String := do
  let pidCgroup ← getCgroup sys pid
  climb (askCpuMax sys) fuel (Path.components (groupPath pidCgroup).toList)

/-- `get_memory_max`. -/
def getMemoryMax (sys : System) (fuel : ℕ) (pid : PidT) : Result String := do
  let pidCgroup ← getCgroup sys pid
  climb (askMemoryMax sys) fuel (Path.components (groupPath pidCgroup).toList)

/-- Only a limit that was found is added to the interface files. -/
def insertLimit (files : HashMap String String) (name limit : String) : HashMap String String :=
  if limit.isEmpty then files else files.insert name limit

/-- `cgroup_config`. -/
def cgroupConfig (env : Env) (sys : System) (fuel : ℕ) (pid : PidT) : Result Config := do
  let cgroup ← getCgroup sys pid
  let controllers ← getCgroupControllers sys pid
  let cpuMax ← getCpuMax sys fuel pid
  let memoryMax ← getMemoryMax sys fuel pid
  pure
    { cgroup
      controllers := (controllers.iter env.σ "controllers").map ProtoEnum.toI32
      interfaceFiles := insertLimit (insertLimit ∅ "cpu.max" cpuMax) "memory.max" memoryMax }

/-! ## Levels -/

/-- The groups on a path below the root, the deepest one first. -/
def levels (path : List Path.Component) : List (List Path.Component) :=
  (path.inits.tail.map (root ++ ·)).reverse

theorem levels_concat (path : List Path.Component) (c : Path.Component) :
    levels (path ++ [c]) = (root ++ (path ++ [c])) :: levels path := by
  have htail : (path ++ [c]).inits.tail = path.inits.tail ++ [path ++ [c]] := by
    rw [List.inits_append]
    cases path with
    | nil => rfl
    | cons c' path => rfl
  rw [levels, htail, List.map_append, List.reverse_append]
  rfl

section

variable {ask : List Path.Component → Result (Option String)}

/-- More fuel does not change an answer. -/
theorem climb_mono {fuel fuel' : ℕ} {path : List Path.Component} {r : String}
    (h : climb ask fuel path = .ok r) (hle : fuel ≤ fuel') : climb ask fuel' path = .ok r := by
  induction fuel generalizing fuel' path with
  | zero => cases h
  | succ fuel ih =>
    obtain ⟨fuel', rfl⟩ : ∃ n, fuel' = n + 1 := ⟨fuel' - 1, by omega⟩
    rw [climb] at h ⊢
    split_ifs at h ⊢ with hroot
    · exact h
    · rw [bind_eq_ok] at h ⊢
      obtain ⟨o, ho, h⟩ := h
      refine ⟨o, ho, ?_⟩
      cases o with
      | some content => exact h
      | none =>
        rw [bind_eq_ok] at h ⊢
        obtain ⟨parent, hp, h⟩ := h
        exact ⟨parent, hp, ih h (Nat.le_of_succ_le_succ hle)⟩

/-- If each group answers, then the answer of the deepest one that has one is returned. The climb
steps up from the last component, so that it comes to the root. -/
theorem climb_eq_ok {g : List Path.Component → Option String} {path : List Path.Component}
    {fuel : ℕ} (hask : ∀ level ∈ levels path, ask level = .ok (g level)) (hpath : .rootDir ∉ path)
    (hf : path.length < fuel) :
    climb ask fuel (root ++ path) = .ok (((levels path).findSome? g).getD "") := by
  induction path using List.reverseRecOn generalizing fuel with
  | nil =>
    obtain ⟨fuel, rfl⟩ : ∃ n, fuel = n + 1 := ⟨fuel - 1, by omega⟩
    rw [climb, List.append_nil, if_pos rfl]
    rfl
  | append_singleton path c ih =>
    rw [List.length_append, List.length_singleton] at hf
    obtain ⟨fuel, rfl⟩ : ∃ n, fuel = n + 1 := ⟨fuel - 1, by omega⟩
    rw [levels_concat, List.forall_mem_cons] at hask
    rw [List.mem_append, not_or, List.mem_singleton] at hpath
    have hne : root ++ (path ++ [c]) ≠ root := by simp
    rw [climb, if_neg hne, hask.1, Outcome.ok_bind, levels_concat, List.findSome?_cons]
    cases g (root ++ (path ++ [c])) with
    | some content => rfl
    | none =>
      have hparent : Path.parent (root ++ (path ++ [c])) = some (root ++ path) := by
        rw [← List.append_assoc]
        exact Path.parent_concat (Ne.symm hpath.2)
      simp only [hparent, unwrap_some, Outcome.ok_bind]
      exact ih hask.2 hpath.1 (by omega)

end

/-! ## Paths of control groups -/

/-- A name of a control group, which need not be valid text. -/
inductive Name where
  | text (name : List Char)
  | raw (bytes : List UInt8)
  deriving DecidableEq, Repr

namespace Name

/-- The component of a path for a name, if it counts. -/
def component : Name → Option Path.Component
  | text name => Path.component name
  | raw bytes => some (.raw bytes)

def text? : Name → Option (List Char)
  | text name => some name
  | raw _ => none

/-- What is left of the last name in a line. -/
def chomp : Name → Name
  | text name => text (Checkc.chomp name)
  | raw bytes => raw bytes

end Name

/-- The line of a process in the control group with these names. It is no text if some name is
none. -/
def groupLine (path : List Name) : Except Errno String :=
  match path.mapM Name.text? with
  | some names => .ok (String.ofList (chomp ("0::/".toList ++ ['/'].intercalate names)))
  | none => .error .EILSEQ

/-- A process is in the control group with these names. A name is not empty and has no separator,
but it may be `.` or `..`. -/
structure Placed (sys : System) (pid : PidT) (path : List Name) : Prop where
  plain : ∀ name, .text name ∈ path → name ≠ [] ∧ '/' ∉ name
  line : sys.cgroup pid = .ok [groupLine path]

/-- The names as they are read. A carriage return at the end of the last one is lost. -/
def asRead : List Name → List Name
  | [] => []
  | [name] => [name.chomp]
  | name :: next :: path => name :: asRead (next :: path)

/-- The last name ends in a carriage return. -/
def EndsInReturn (path : List Name) : Prop :=
  ∃ name, path.getLast? = some (.text name) ∧ name.getLast? = some '\r'

/-- All names are valid text. -/
def IsText (path : List Name) : Prop := ∃ names : List (List Char), path = names.map .text

/-- The components of the path below the root. -/
def below (path : List Name) : List Path.Component := path.filterMap Name.component

theorem rootDir_not_mem_below (path : List Name) : .rootDir ∉ below path := by
  intro h
  obtain ⟨name, -, hname⟩ := List.mem_filterMap.mp h
  cases name with
  | text name => exact Path.component_ne_rootDir hname rfl
  | raw bytes => cases hname

theorem mapM_text_eq_some {path : List Name} {names : List (List Char)} :
    path.mapM Name.text? = some names ↔ path = names.map .text := by
  induction path generalizing names with
  | nil => cases names <;> simp
  | cons name path ih =>
    rw [List.mapM_cons]
    cases name with
    | raw bytes => cases names <;> simp [Name.text?]
    | text name =>
      simp only [Name.text?, Option.bind_eq_bind, Option.bind_some, Option.bind_eq_some_iff, ih,
        Option.pure_def]
      constructor
      · rintro ⟨names, rfl, ⟨⟩⟩
        rfl
      · intro h
        cases names with
        | nil => cases h
        | cons name' names =>
          obtain ⟨⟨⟩, rfl⟩ := List.cons.inj h
          exact ⟨names, rfl, rfl⟩

theorem asRead_map_text (names : List (List Char)) : ∃ names' : List (List Char),
    asRead (names.map .text) = names'.map .text ∧ (∀ c, (∀ name ∈ names, c ∉ name) →
      ∀ name ∈ names', c ∉ name) ∧
      chomp (['/'].intercalate names) = ['/'].intercalate names' := by
  induction names with
  | nil => exact ⟨[], rfl, fun _ _ => nofun, rfl⟩
  | cons name names ih =>
    cases names with
    | nil =>
      refine ⟨[chomp name], rfl, fun c hc => ?_, by simp⟩
      rw [List.forall_mem_singleton] at hc ⊢
      exact fun h => hc ((chomp_prefix_self name).subset h)
    | cons next names =>
      obtain ⟨names', hread, hplain, hline⟩ := ih
      have hne : names' ≠ [] := by
        rintro rfl
        cases names <;> cases hread
      refine ⟨name :: names', congrArg (List.cons (Name.text name)) hread, fun c hc => ?_, ?_⟩
      · rw [List.forall_mem_cons] at hc ⊢
        exact ⟨hc.1, hplain c hc.2⟩
      · have hslash : (name ++ ['/']).getLast? ≠ some '\r' := by simp
        rw [List.intercalate_cons_cons, chomp_append hslash, hline,
          List.intercalate_cons_of_ne_nil hne]

theorem asRead_concat (path : List Name) (name : Name) :
    asRead (path ++ [name]) = path ++ [name.chomp] := by
  induction path with
  | nil => rfl
  | cons name' path ih =>
    cases path with
    | nil => rfl
    | cons next path => exact congrArg (List.cons name') ih

theorem below_concat (path : List Name) (name : Name) :
    below (path ++ [name]) = below path ++ name.component.toList := by
  rw [below, List.filterMap_append]
  cases h : name.component <;> simp [below, h]

/-- Any other path is read as it is. -/
theorem asRead_eq_self {path : List Name} (h : ¬ EndsInReturn path) : asRead path = path := by
  rcases List.eq_nil_or_concat' path with rfl | ⟨path, name, rfl⟩
  · rfl
  rw [asRead_concat]
  cases name with
  | raw bytes => rfl
  | text name =>
    rw [Name.chomp, chomp, if_neg fun hr => h ⟨name, List.getLast?_concat, hr⟩]

theorem head?_intercalate {names : List (List Char)} (h : ∀ name ∈ names, name ≠ [] ∧ '/' ∉ name) :
    (['/'].intercalate names).head? ≠ some '/' := by
  cases names with
  | nil => simp
  | cons name names =>
    obtain ⟨hne, hslash⟩ := h name List.mem_cons_self
    obtain ⟨c, name', rfl⟩ := List.exists_cons_of_ne_nil hne
    have hc : c ≠ '/' := fun hc => hslash (hc ▸ List.mem_cons_self)
    cases names with
    | nil => simpa using hc
    | cons name'' names => simpa [List.intercalate] using hc

/-- The components of the path of a control group, unless its name looks like an absolute path. -/
theorem components_groupPath_of_head {path : List Char} (h : path.head? ≠ some '/') :
    Path.components (groupPath (String.ofList path)).toList =
      root ++ (path.splitOn '/').filterMap Path.component := by
  have hlast : ¬ ("/sys/fs/cgroup".toList.getLast? = none ∨
      "/sys/fs/cgroup".toList.getLast? = some '/') := by decide
  have hjoin : (groupPath (String.ofList path)).toList =
      "/sys/fs/cgroup".toList ++ '/' :: path := by
    rw [groupPath, Path.join, String.toList_ofList, if_neg h, if_neg hlast]
    simp
  rw [hjoin, Path.components_append (by decide)]
  rfl

theorem getCgroup_of_line {sys : System} {pid : PidT} {group : List Char}
    (h : sys.cgroup pid = .ok [.ok (String.ofList ("0::/".toList ++ group))]) :
    getCgroup sys pid = .ok (String.ofList group) := by
  have hdrop : ("0::/".toList ++ group).dropPrefix? "0::/".toList = some group :=
    List.dropPrefix?_append_of_beq _ (by rfl)
  rw [getCgroup, h, ioResult, Outcome.ok_bind]
  simp only [List.filterMap_cons, Except.toOption, List.filterMap_nil, String.toList_ofList, hdrop,
    unwrap_some, Outcome.ok_bind]
  rfl

section

variable {sys : System} {pid : PidT} {path : List Name}

/-- The control group is returned as it is read. -/
theorem getCgroup_of_isText (h : Placed sys pid path) (ht : IsText path) : ∃ cgroup,
    getCgroup sys pid = .ok cgroup ∧
      Path.components (groupPath cgroup).toList = root ++ below (asRead path) := by
  obtain ⟨names, rfl⟩ := ht
  obtain ⟨names', hread, hplain, hline⟩ := asRead_map_text names
  have hnames : ∀ name ∈ names, name ≠ [] ∧ '/' ∉ name := fun name hn =>
    h.plain name (List.mem_map_of_mem hn)
  have hgroup : sys.cgroup pid = .ok [.ok (String.ofList
      ("0::/".toList ++ chomp (['/'].intercalate names)))] := by
    have hprefix : "0::/".toList.getLast? ≠ some '\r' := by decide
    rw [h.line, groupLine, mapM_text_eq_some.mpr rfl, ← chomp_append hprefix]
  have hhead := head?_chomp_ne (head?_intercalate hnames)
  refine ⟨_, getCgroup_of_line hgroup, ?_⟩
  rw [components_groupPath_of_head hhead, hline, Path.filterMap_splitOn_intercalate
    (hplain '/' fun name hn => (hnames name hn).2), hread, below, List.filterMap_map]
  rfl

/-- A path that is no text is not returned. -/
theorem getCgroup_of_not_isText (h : Placed sys pid path) (ht : ¬ IsText path) :
    getCgroup sys pid = .err .cgroupError := by
  have hnone : path.mapM Name.text? = none :=
    Option.eq_none_iff_forall_ne_some.mpr fun names hn => ht ⟨names, mapM_text_eq_some.mp hn⟩
  rw [getCgroup, h.line, groupLine, hnone]
  rfl

variable {ask : List Path.Component → Result (Option String)}
  {g : List Path.Component → Option String} {fuel : ℕ}

/-- What a climb from the control group of a process returns. -/
theorem climb_of_placed (h : Placed sys pid path) (ht : IsText path)
    (hask : ∀ level ∈ levels (below (asRead path)), ask level = .ok (g level))
    (hf : (below (asRead path)).length < fuel) :
    (do
      let pidCgroup ← getCgroup sys pid
      climb ask fuel (Path.components (groupPath pidCgroup).toList)) =
        .ok (((levels (below (asRead path))).findSome? g).getD "") := by
  obtain ⟨cgroup, hg, hcomponents⟩ := getCgroup_of_isText h ht
  rw [hg, Outcome.ok_bind, hcomponents]
  exact climb_eq_ok hask (rootDir_not_mem_below _) hf

/-- Whatever the fuel is, a climb from there that returns returns this, and the path is text. -/
theorem eq_of_climb (h : Placed sys pid path)
    (hask : ∀ level ∈ levels (below (asRead path)), ask level = .ok (g level)) {r : String}
    (hr : (do
      let pidCgroup ← getCgroup sys pid
      climb ask fuel (Path.components (groupPath pidCgroup).toList)) = .ok r) :
    IsText path ∧ r = ((levels (below (asRead path))).findSome? g).getD "" := by
  have ht : IsText path := by
    by_contra ht
    rw [getCgroup_of_not_isText h ht] at hr
    cases hr
  have hok := climb_of_placed h ht hask (Nat.lt_add_left fuel (Nat.lt_succ_self _))
  obtain ⟨cgroup, hg, -⟩ := getCgroup_of_isText h ht
  rw [hg, Outcome.ok_bind] at hr hok
  exact ⟨ht, Outcome.ok_unique (climb_mono hr (Nat.le_add_right fuel _)) hok⟩

end

/-! ## Interface files -/

@[simp] theorem get_insertLimit (files : HashMap String String) (name limit k : String) :
    (insertLimit files name limit).get k =
      if limit.isEmpty = false ∧ k = name then some limit else files.get k := by
  unfold insertLimit
  cases limit.isEmpty with
  | true => simp
  | false => simp [HashMap.get_insert]

/-- The limits that are found are in the configuration. -/
theorem interfaceFiles_of_cgroupConfig {env : Env} {sys : System} {fuel : ℕ} {pid : PidT}
    {conf : Config} (h : cgroupConfig env sys fuel pid = .ok conf) : ∃ cpuMax memoryMax,
      getCpuMax sys fuel pid = .ok cpuMax ∧ getMemoryMax sys fuel pid = .ok memoryMax ∧
        conf.interfaceFiles =
          insertLimit (insertLimit ∅ "cpu.max" cpuMax) "memory.max" memoryMax := by
  simp only [cgroupConfig, bind_eq_ok, pure_eq_ok] at h
  obtain ⟨cgroup, -, controllers, -, cpuMax, hc, memoryMax, hm, rfl⟩ := h
  exact ⟨cpuMax, memoryMax, hc, hm, rfl⟩

/-- No configuration is returned for a path that is no text. -/
theorem isText_of_cgroupConfig {env : Env} {sys : System} {fuel : ℕ} {pid : PidT} {conf : Config}
    {path : List Name} (hp : Placed sys pid path)
    (h : cgroupConfig env sys fuel pid = .ok conf) : IsText path := by
  by_contra ht
  rw [cgroupConfig, getCgroup_of_not_isText hp ht] at h
  cases h

/-- A configuration is returned if the file with the controllers can be opened and both limits are
found. -/
theorem exists_cgroupConfig (env : Env) {sys : System} {fuel : ℕ} {pid : PidT} {cgroup cpuMax
    memoryMax : String} {lines : List (Except Errno String)} (hg : getCgroup sys pid = .ok cgroup)
    (hl : sys.controllers (Path.components
      (Path.join (groupPath cgroup) "cgroup.controllers").toList) = .ok lines)
    (hc : getCpuMax sys fuel pid = .ok cpuMax) (hm : getMemoryMax sys fuel pid = .ok memoryMax) :
    ∃ conf, cgroupConfig env sys fuel pid = .ok conf := by
  simp only [cgroupConfig, getCgroupControllers, hg, hl, hc, hm, Outcome.ok_bind]
  exact ⟨_, rfl⟩

end Cgroup

end Checkc

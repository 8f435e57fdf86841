import Checkc.CConfig.Cgroup
import Checkc.Evaluation.Categories

/-! # Limits of control groups

The tests whether a container is limited, from the files of its control group and of the groups
above it. A group without a limit for the memory is passed over, but one for the processor hides the
limits above it.
-/

namespace Checkc

open Outcome (bind_eq_ok pure_eq_ok)

namespace Cgroup

/-! ## Files -/

/-- The digits of a number. -/
def Decimal (l : List Char) : Prop := l ≠ [] ∧ ∀ c ∈ l, c.isDigit = true

/-- The first line of a file is this text, with or without its end. -/
def Line (text : List Char) (content : String) : Prop :=
  content.toList = text ∨ content.toList = text ++ ['\n']

variable (sys : System)

/-- The first line of a file of a group. -/
def Reads (level : List Path.Component) (name content : String) : Prop :=
  sys.firstLine (file level name) = .ok (.ok content)

/-- The group has no such file. -/
def Lacks (level : List Path.Component) (name : String) : Prop :=
  ∃ e, sys.firstLine (file level name) = .error e

/-- The group limits the processor. -/
def CpuLimited (level : List Path.Component) : Prop :=
  ∃ content quota period, Reads sys level "cpu.max" content ∧ Decimal quota ∧ Decimal period ∧
    Line (quota ++ ' ' :: period) content

/-- The group has a file for the processor without a limit. -/
def CpuUnlimited (level : List Path.Component) : Prop :=
  ∃ content period, Reads sys level "cpu.max" content ∧ Decimal period ∧
    Line ("max".toList ++ ' ' :: period) content

/-- The group limits the memory with this value. -/
def MemoryLimit (level : List Path.Component) (value : String) : Prop :=
  Reads sys level "memory.max" value ∧ ∃ limit, Decimal limit ∧ Line limit value

/-- The group has a file for the memory without a limit. -/
def MemoryUnlimited (level : List Path.Component) : Prop :=
  ∃ content, Reads sys level "memory.max" content ∧ Line "max".toList content

/-- What the kernel writes for the processor into the groups of a process. -/
def CpuFiles (path : List Name) : Prop := ∀ level ∈ levels (below path),
  Lacks sys level "cpu.max" ∨ CpuLimited sys level ∨ CpuUnlimited sys level

/-- What the kernel writes for the memory into the groups of a process. -/
def MemoryFiles (path : List Name) : Prop := ∀ level ∈ levels (below path),
  Lacks sys level "memory.max" ∨ (∃ value, MemoryLimit sys level value) ∨ MemoryUnlimited sys level

variable {sys} {text : List Char} {content : String} {level : List Path.Component}

theorem isWhitespace_of_isDigit {c : Char} (h : c.isDigit = true) : isWhitespace c = false := by
  by_contra hc
  rw [Bool.not_eq_false] at hc
  exact Bool.false_ne_true ((isDigit_eq_false_of_isWhitespace hc).symm.trans h)

/-- A text without an `m` does not contain `max`. -/
theorem containsStr_max_eq_false {l : List Char} (h : 'm' ∉ l) :
    containsStr l "max".toList = false := by
  rw [← Bool.not_eq_true, containsStr_iff]
  exact fun hi => h (hi.subset List.mem_cons_self)

theorem Line.mem {c : Char} (h : Line text content) (hc : c ∈ content.toList) :
    c ∈ text ∨ c = '\n' := by
  rcases h with h | h <;> rw [h] at hc
  · exact Or.inl hc
  · simpa using hc

theorem Line.infix (h : Line text content) : text <:+: content.toList := by
  rcases h with h | h
  · rw [h]
  · rw [h]
    exact List.infix_append [] text ['\n']

theorem Line.ne_empty (h : Line text content) (ht : text ≠ []) : content.isEmpty = false := by
  rw [← Bool.not_eq_true, String.isEmpty_iff]
  rintro rfl
  exact ht (List.eq_nil_of_infix_nil h.infix)

theorem Line.trim_eq (h : Line text content) (ht : ∀ c ∈ text, isWhitespace c = false) :
    trim content.toList = text := by
  rcases h with h | h <;> rw [h]
  · exact trim_word ht
  · exact trim_line ht

theorem Decimal.of_all {l : List Char} (hne : l ≠ []) (h : l.all Char.isDigit = true) : Decimal l :=
  ⟨hne, List.all_eq_true.mp h⟩

theorem Decimal.not_mem {l : List Char} (h : Decimal l) : 'm' ∉ l := fun hm =>
  Bool.false_ne_true (h.2 'm' hm)

theorem CpuLimited.exists_reads (h : CpuLimited sys level) :
    ∃ content, Reads sys level "cpu.max" content ∧ content.isEmpty = false ∧
      containsStr content.toList "max".toList = false := by
  obtain ⟨content, quota, period, hr, hq, hp, hl⟩ := h
  refine ⟨content, hr, hl.ne_empty (by simp), containsStr_max_eq_false fun hm => ?_⟩
  rcases hl.mem hm with hm | hm
  · simp [hq.not_mem, hp.not_mem] at hm
  · simp at hm

theorem CpuUnlimited.exists_reads (h : CpuUnlimited sys level) :
    ∃ content, Reads sys level "cpu.max" content ∧
      containsStr content.toList "max".toList = true := by
  obtain ⟨content, period, hr, -, hl⟩ := h
  exact ⟨content, hr, containsStr_iff.mpr ((List.prefix_append _ _).isInfix.trans hl.infix)⟩

theorem MemoryLimit.contains {value : String} (h : MemoryLimit sys level value) :
    containsStr value.toList "max".toList = false := by
  obtain ⟨-, limit, hd, hl⟩ := h
  apply containsStr_max_eq_false
  intro hm
  rcases hl.mem hm with hm | hm
  · exact hd.not_mem hm
  · simp at hm

theorem MemoryLimit.trim_ne {value : String} (h : MemoryLimit sys level value) :
    trim value.toList ≠ "max".toList := by
  obtain ⟨-, limit, hd, hl⟩ := h
  rw [hl.trim_eq fun c hc => isWhitespace_of_isDigit (hd.2 c hc)]
  intro he
  exact hd.not_mem (he ▸ List.mem_cons_self)

/-! ## What is found -/

/-- The file for the processor of a group. -/
def cpuMax (sys : System) (level : List Path.Component) : Option String :=
  match sys.firstLine (file level "cpu.max") with
  | .ok (.ok content) => some content
  | _ => none

/-- The limit of the memory of a group. -/
def memoryMax (sys : System) (level : List Path.Component) : Option String :=
  match sys.firstLine (file level "memory.max") with
  | .ok (.ok content) => if trim content.toList ≠ "max".toList then some content else none
  | _ => none

theorem askCpuMax_eq_ok
    (h : Lacks sys level "cpu.max" ∨ ∃ content, Reads sys level "cpu.max" content) :
    askCpuMax sys level = .ok (cpuMax sys level) := by
  unfold askCpuMax cpuMax
  rcases h with ⟨e, h⟩ | ⟨content, h⟩
  · rw [h]
    rfl
  · rw [show sys.firstLine (file level "cpu.max") = .ok (.ok content) from h]
    rfl

theorem askMemoryMax_eq_ok
    (h : Lacks sys level "memory.max" ∨ ∃ content, Reads sys level "memory.max" content) :
    askMemoryMax sys level = .ok (memoryMax sys level) := by
  unfold askMemoryMax memoryMax
  rcases h with ⟨e, h⟩ | ⟨content, h⟩
  · rw [h]
    rfl
  · rw [show sys.firstLine (file level "memory.max") = .ok (.ok content) from h]
    simp only [ioResult, Outcome.ok_bind]
    split_ifs <;> rfl

section

variable {env : Env} {fuel : ℕ} {pid : PidT} {path : List Name} {conf : Config}

theorem askCpuMax_of_files (h : CpuFiles sys path) :
    ∀ level ∈ levels (below path), askCpuMax sys level = .ok (cpuMax sys level) := by
  intro level hl
  refine askCpuMax_eq_ok ((h level hl).imp_right ?_)
  rintro (⟨content, _, _, hr, -⟩ | ⟨content, _, hr, -⟩)
  · exact ⟨content, hr⟩
  · exact ⟨content, hr⟩

theorem askMemoryMax_of_files (h : MemoryFiles sys path) :
    ∀ level ∈ levels (below path), askMemoryMax sys level = .ok (memoryMax sys level) := by
  intro level hl
  refine askMemoryMax_eq_ok ((h level hl).imp_right ?_)
  rintro (⟨value, hr, -⟩ | ⟨content, hr, -⟩)
  · exact ⟨value, hr⟩
  · exact ⟨content, hr⟩

/-- The files with the limits are those of the deepest groups that count. -/
theorem get_interfaceFiles (hp : Placed sys pid path)
    (hconf : cgroupConfig env sys fuel pid = .ok conf) :
    (CpuFiles sys (asRead path) → conf.interfaceFiles.get "cpu.max" =
      ((levels (below (asRead path))).findSome? (cpuMax sys)).filter (!·.isEmpty)) ∧
    (MemoryFiles sys (asRead path) → conf.interfaceFiles.get "memory.max" =
      ((levels (below (asRead path))).findSome? (memoryMax sys)).filter (!·.isEmpty)) := by
  obtain ⟨c, m, hc, hm, hfiles⟩ := interfaceFiles_of_cgroupConfig hconf
  have hfilter : ∀ o : Option String,
      (if (o.getD "").isEmpty = false then some (o.getD "") else none) =
        o.filter (!·.isEmpty) := by
    intro o
    cases o with
    | none => rfl
    | some s =>
      rw [Option.getD_some, Option.filter_some]
      cases s.isEmpty <;> rfl
  have hne : "cpu.max" ≠ "memory.max" := by decide
  constructor
  · intro h
    rw [hfiles, get_insertLimit, if_neg fun h => hne h.2, get_insertLimit,
      (eq_of_climb hp (askCpuMax_of_files h) hc).2, ← hfilter]
    simp only [and_true, HashMap.get_empty]
  · intro h
    rw [hfiles, get_insertLimit, get_insertLimit, (eq_of_climb hp (askMemoryMax_of_files h) hm).2,
      ← hfilter]
    simp only [and_true, hne.symm, and_false, if_false, HashMap.get_empty]

end

/-! ## Tests -/

/-- A test passes if the file is found and does not contain `max`. -/
theorem limitTest_passed_iff {files : HashMap String String} {name : String} {found : Option String}
    (h : files.get name = found.filter (!·.isEmpty)) : (limitTest files name).passed = true ↔
      ∃ content, found = some content ∧ content.isEmpty = false ∧
        containsStr content.toList "max".toList = false := by
  simp only [limitTest_passed, h, Option.mem_def, Option.filter_eq_some_iff, Bool.not_eq_true',
    ← containsStr_iff, Bool.not_eq_true, and_assoc]

theorem limitTest_info {files : HashMap String String} {name content : String}
    (h : files.get name = some content) : (limitTest files name).info = [content] := by
  rw [limitTest, h]

theorem get_resourceControl {env : Env} {config : Checkc.Config} {nsSet : HashSet NsType}
    {capabilities : HashSet Capability} {c : Category} {conf : Config}
    (hconf : config.cgroupConfig = some conf)
    (hc : categoryResourceControl env config nsSet capabilities = .ok c) :
    c.tests.get "cpu_max_limited" = some (limitTest conf.interfaceFiles "cpu.max") ∧
      c.tests.get "memory_max_limited" = some (limitTest conf.interfaceFiles "memory.max") := by
  obtain ⟨conf', hconf', rfl⟩ := categoryResourceControl_eq_ok.mp hc
  obtain rfl := Option.some.inj (hconf.symm.trans hconf')
  constructor
  · exact (HashMap.get_ofList_eq_some_iff (by simp)).mpr (by simp)
  · exact (HashMap.get_ofList_eq_some_iff (by simp)).mpr (by simp)

/-! ## The processor -/

section

variable {env env' : Env} {fuel : ℕ} {pid : PidT} {path : List Name} {conf : Config}
  {config : Checkc.Config} {nsSet : HashSet NsType} {capabilities : HashSet Capability}
  {c : Category}

/-- The deepest group that has a file for the processor is unlimited, and one above it is
limited. -/
def CpuHidden (sys : System) (path : List Name) : Prop :=
  ∃ l₁ level l₂, levels (below path) = l₁ ++ level :: l₂ ∧ (∀ x ∈ l₁, Lacks sys x "cpu.max") ∧
    CpuUnlimited sys level ∧ ∃ x ∈ l₂, CpuLimited sys x

theorem Lacks.cpuMax_eq (h : Lacks sys level "cpu.max") : cpuMax sys level = none := by
  obtain ⟨e, h⟩ := h
  rw [cpuMax, h]

theorem Reads.cpuMax_eq (h : Reads sys level "cpu.max" content) :
    cpuMax sys level = some content := by
  rw [cpuMax, show sys.firstLine (file level "cpu.max") = .ok (.ok content) from h]

theorem CpuFiles.lacks (h : CpuFiles sys path) (hl : level ∈ levels (below path))
    (hnone : cpuMax sys level = none) : Lacks sys level "cpu.max" := by
  rcases h level hl with hlacks | hlim | hu
  · exact hlacks
  · obtain ⟨_, hr, -⟩ := hlim.exists_reads
    cases hnone.symm.trans hr.cpuMax_eq
  · obtain ⟨_, hr, -⟩ := hu.exists_reads
    cases hnone.symm.trans hr.cpuMax_eq

/-- A file that is found has no `max` just if the group is limited. -/
theorem CpuFiles.limited_or (h : CpuFiles sys path) (hl : level ∈ levels (below path))
    (hsome : cpuMax sys level = some content) :
    (CpuLimited sys level ∧ content.isEmpty = false ∧
      containsStr content.toList "max".toList = false) ∨
    (CpuUnlimited sys level ∧ containsStr content.toList "max".toList = true) := by
  rcases h level hl with hlacks | hlim | hu
  · cases hlacks.cpuMax_eq.symm.trans hsome
  · obtain ⟨content', hr, hc⟩ := hlim.exists_reads
    obtain rfl := Option.some.inj (hr.cpuMax_eq.symm.trans hsome)
    exact Or.inl ⟨hlim, hc⟩
  · obtain ⟨content', hr, hc⟩ := hu.exists_reads
    obtain rfl := Option.some.inj (hr.cpuMax_eq.symm.trans hsome)
    exact Or.inr ⟨hu, hc⟩

/-- A group is hidden if an unlimited one is found. -/
theorem CpuHidden.exists_found (h : CpuHidden sys path) :
    ∃ content, (levels (below path)).findSome? (cpuMax sys) = some content ∧
      containsStr content.toList "max".toList = true := by
  obtain ⟨l₁, level, l₂, hl, hlacks, hu, -⟩ := h
  obtain ⟨content, hr, hc⟩ := hu.exists_reads
  exact ⟨content, List.findSome?_eq_some_iff.mpr
    ⟨l₁, level, l₂, hl, hr.cpuMax_eq, fun x hx => (hlacks x hx).cpuMax_eq⟩, hc⟩

/-- What is found has no `max` just if some group is limited and none is hidden. -/
theorem found_cpuMax_iff (h : CpuFiles sys path) :
    (∃ content, (levels (below path)).findSome? (cpuMax sys) = some content ∧
        content.isEmpty = false ∧ containsStr content.toList "max".toList = false) ↔
      (∃ level ∈ levels (below path), CpuLimited sys level) ∧ ¬ CpuHidden sys path := by
  constructor
  · rintro ⟨content, hf, -, hc⟩
    obtain ⟨l₁, level, l₂, hl, hlevel, -⟩ := List.findSome?_eq_some_iff.mp hf
    have hmem : level ∈ levels (below path) := by simp [hl]
    constructor
    · rcases h.limited_or hmem hlevel with ⟨hlim, -⟩ | ⟨-, hc'⟩
      · exact ⟨level, hmem, hlim⟩
      · exact absurd (hc.symm.trans hc') Bool.false_ne_true
    · intro hidden
      obtain ⟨content', hf', hc'⟩ := hidden.exists_found
      obtain rfl := Option.some.inj (hf'.symm.trans hf)
      exact Bool.false_ne_true (hc.symm.trans hc')
  · rintro ⟨⟨x, hx, hlim⟩, hn⟩
    obtain ⟨content', hr, -⟩ := hlim.exists_reads
    obtain ⟨content, hf⟩ := Option.isSome_iff_exists.mp
      (List.findSome?_isSome_iff.mpr ⟨x, hx, Option.isSome_of_eq_some hr.cpuMax_eq⟩)
    obtain ⟨l₁, level, l₂, hl, hlevel, hnone⟩ := List.findSome?_eq_some_iff.mp hf
    rcases h.limited_or (by simp [hl]) hlevel with ⟨-, hc⟩ | ⟨hu, hc⟩
    · exact ⟨content, hf, hc⟩
    -- the limited group is above the unlimited one that is found
    have hlacks : ∀ y ∈ l₁, Lacks sys y "cpu.max" := fun y hy =>
      h.lacks (by simp [hl, hy]) (hnone y hy)
    refine absurd ⟨l₁, level, l₂, hl, hlacks, hu, x, ?_, hlim⟩ hn
    rw [hl, List.mem_append, List.mem_cons] at hx
    rcases hx with hx | rfl | hx
    · cases (hnone x hx).symm.trans hr.cpuMax_eq
    · obtain ⟨_, hr', -, hc'⟩ := hlim.exists_reads
      obtain rfl := Option.some.inj (hr'.cpuMax_eq.symm.trans hlevel)
      exact absurd (hc'.symm.trans hc) Bool.false_ne_true
    · exact hx

/-- All groups but the deepest one on the path as it is read are on the path. -/
theorem mem_levels_of_asRead {l₁ l₂ : List (List Path.Component)}
    (h : levels (below (asRead path)) = l₁ ++ level :: l₂) : ∀ x ∈ l₂, x ∈ levels (below path) := by
  intro x hx
  rcases List.eq_nil_or_concat' path with rfl | ⟨path, name, rfl⟩
  · simp [asRead, below, levels] at h
  have hlevels : ∀ name', x ∈ levels (below path) → x ∈ levels (below (path ++ [name'])) := by
    intro name' hmem
    rw [below_concat]
    cases name'.component with
    | none => simpa using hmem
    | some c => simpa [levels_concat] using Or.inr hmem
  apply hlevels
  rw [asRead_concat, below_concat] at h
  cases hc : name.chomp.component with
  | none =>
    rw [hc, Option.toList_none, List.append_nil] at h
    simp [h, hx]
  | some c =>
    rw [hc, Option.toList_some, levels_concat] at h
    cases l₁ with
    | nil => exact (List.cons.inj h).2 ▸ hx
    | cons y l₁ => simp [(List.cons.inj h).2, hx]

/-- The test passes for a limited group if and only if no limit is hidden, and the path does not end
in a carriage return, which is lost, or else a limit is on the path that is read exactly if one is
on the path itself. -/
theorem cpuMaxLimited_iff (hp : Placed sys pid path) (hcpu : CpuFiles sys (asRead path))
    (hconf : cgroupConfig env sys fuel pid = .ok conf) (hconfig : config.cgroupConfig = some conf)
    (hc : categoryResourceControl env' config nsSet capabilities = .ok c) :
    (∃ t, c.tests.get "cpu_max_limited" = some t ∧
        (t.passed = true ↔ ∃ level ∈ levels (below path), CpuLimited sys level)) ↔
      (¬ EndsInReturn path ∨ ((∃ level ∈ levels (below (asRead path)), CpuLimited sys level) ↔
        ∃ level ∈ levels (below path), CpuLimited sys level)) ∧
      ¬ CpuHidden sys (asRead path) := by
  have hget := (get_resourceControl hconfig hc).1
  have hpassed := limitTest_passed_iff ((get_interfaceFiles hp hconf).1 hcpu)
  rw [found_cpuMax_iff hcpu] at hpassed
  have hread : ¬ EndsInReturn path → ((∃ level ∈ levels (below (asRead path)),
      CpuLimited sys level) ↔ ∃ level ∈ levels (below path), CpuLimited sys level) :=
    fun he => by rw [asRead_eq_self he]
  have hhidden : CpuHidden sys (asRead path) →
      (∃ level ∈ levels (below path), CpuLimited sys level) ∧
        ∃ level ∈ levels (below (asRead path)), CpuLimited sys level := by
    rintro ⟨l₁, level, l₂, hl, -, -, x, hx, hlim⟩
    exact ⟨⟨x, mem_levels_of_asRead hl x hx, hlim⟩, x, by simp [hl, hx], hlim⟩
  rw [hget, or_iff_right_of_imp hread]
  simp only [Option.some.injEq, exists_eq_left', hpassed]
  constructor
  · intro h
    have hn : ¬ CpuHidden sys (asRead path) := fun hh => (h.mpr (hhidden hh).1).2 hh
    exact ⟨⟨fun hl => h.mp ⟨hl, hn⟩, fun hl => (h.mpr hl).1⟩, hn⟩
  · rintro ⟨h, hn⟩
    exact ⟨fun hl => h.mp hl.1, fun hl => ⟨h.mpr hl, hn⟩⟩

/-! ## The memory -/

/-- The value of the deepest group that limits the memory, or nothing if there is none. -/
def Deepest (sys : System) (path : List Name) (value : String) : Prop :=
  (∃ l₁ level l₂, levels (below path) = l₁ ++ level :: l₂ ∧ MemoryLimit sys level value ∧
    ∀ x ∈ l₁, ∀ v, ¬ MemoryLimit sys x v) ∨
  (value = "" ∧ ∀ level ∈ levels (below path), ∀ v, ¬ MemoryLimit sys level v)

/-- A limit is found just if it is one. -/
theorem MemoryFiles.memoryMax_eq_some_iff (h : MemoryFiles sys path)
    (hl : level ∈ levels (below path)) {value : String} :
    memoryMax sys level = some value ↔ MemoryLimit sys level value := by
  have hlimit : ∀ v, MemoryLimit sys level v → memoryMax sys level = some v := by
    intro v hv
    rw [memoryMax, show sys.firstLine (file level "memory.max") = .ok (.ok v) from hv.1]
    exact if_pos hv.trim_ne
  refine ⟨fun hs => ?_, hlimit value⟩
  rcases h level hl with ⟨e, he⟩ | ⟨v, hv⟩ | ⟨content, hr, hline⟩
  · rw [memoryMax, he] at hs
    cases hs
  · obtain rfl := Option.some.inj ((hlimit v hv).symm.trans hs)
    exact hv
  · have htrim : trim content.toList = "max".toList := hline.trim_eq (by simp [isWhitespace])
    rw [memoryMax, show sys.firstLine (file level "memory.max") = .ok (.ok content) from hr] at hs
    simp [htrim] at hs

theorem MemoryFiles.memoryMax_eq_none_iff (h : MemoryFiles sys path)
    (hl : level ∈ levels (below path)) :
    memoryMax sys level = none ↔ ∀ v, ¬ MemoryLimit sys level v := by
  rw [Option.eq_none_iff_forall_ne_some]
  exact forall_congr' fun v => not_congr (h.memoryMax_eq_some_iff hl)

/-- What is found is the value of the deepest group that limits the memory. -/
theorem MemoryFiles.deepest (h : MemoryFiles sys path) :
    Deepest sys path (((levels (below path)).findSome? (memoryMax sys)).getD "") := by
  cases hf : (levels (below path)).findSome? (memoryMax sys) with
  | none =>
    refine Or.inr ⟨rfl, fun level hl => (h.memoryMax_eq_none_iff hl).mp ?_⟩
    exact List.findSome?_eq_none_iff.mp hf level hl
  | some value =>
    obtain ⟨l₁, level, l₂, hl, hlevel, hnone⟩ := List.findSome?_eq_some_iff.mp hf
    refine Or.inl ⟨l₁, level, l₂, hl, ?_, fun x hx => ?_⟩
    · exact (h.memoryMax_eq_some_iff (by simp [hl])).mp hlevel
    · exact (h.memoryMax_eq_none_iff (by simp [hl, hx])).mp (hnone x hx)

/-- Something is found just if some group limits the memory, and it has no `max`. -/
theorem MemoryFiles.found_memoryMax_iff (h : MemoryFiles sys path) :
    (∃ content, (levels (below path)).findSome? (memoryMax sys) = some content ∧
        content.isEmpty = false ∧ containsStr content.toList "max".toList = false) ↔
      ∃ level ∈ levels (below path), ∃ value, MemoryLimit sys level value := by
  constructor
  · rintro ⟨content, hf, -⟩
    obtain ⟨l₁, level, l₂, hl, hlevel, -⟩ := List.findSome?_eq_some_iff.mp hf
    have hmem : level ∈ levels (below path) := by simp [hl]
    exact ⟨level, hmem, content, (h.memoryMax_eq_some_iff hmem).mp hlevel⟩
  · rintro ⟨level, hl, value, hv⟩
    obtain ⟨content, hf⟩ := Option.isSome_iff_exists.mp (List.findSome?_isSome_iff.mpr
      ⟨level, hl, Option.isSome_of_eq_some ((h.memoryMax_eq_some_iff hl).mpr hv)⟩)
    obtain ⟨level', hl', hs⟩ := List.exists_of_findSome?_eq_some hf
    have hv' := (h.memoryMax_eq_some_iff hl').mp hs
    obtain ⟨limit, hd, hline⟩ := hv'.2
    exact ⟨content, hf, hline.ne_empty hd.1, hv'.contains⟩

theorem MemoryLimit.ne_empty {value : String} (h : MemoryLimit sys level value) : value ≠ "" := by
  obtain ⟨-, limit, hd, hline⟩ := h
  rintro rfl
  exact Bool.false_ne_true (hline.ne_empty hd.1).symm

/-- The value of the deepest group that limits the memory is the one that is found. -/
theorem Deepest.found_eq {value : String} (h : Deepest sys path value)
    (hfiles : MemoryFiles sys path) : (levels (below path)).findSome? (memoryMax sys) =
      if value = "" then none else some value := by
  rcases h with ⟨l₁, level, l₂, hl, hlimit, hnone⟩ | ⟨rfl, hnone⟩
  · rw [if_neg hlimit.ne_empty, List.findSome?_eq_some_iff]
    refine ⟨l₁, level, l₂, hl, ?_, fun x hx => ?_⟩
    · exact (hfiles.memoryMax_eq_some_iff (by simp [hl])).mpr hlimit
    · exact (hfiles.memoryMax_eq_none_iff (by simp [hl, hx])).mpr (hnone x hx)
  · rw [if_pos rfl, List.findSome?_eq_none_iff]
    exact fun x hx => (hfiles.memoryMax_eq_none_iff hx).mpr (hnone x hx)

/-- The limit of the memory is found wherever it is set: the climb ends with the value of the
deepest group that has one, and the test passes if and only if some group on the path has one, with
this value. -/
def MemoryMaxFound (sys : System) (pid : PidT) (path : List Name) : Prop :=
  (∃ N, ∀ fuel ≥ N, ∃ value, getMemoryMax sys fuel pid = .ok value ∧ Deepest sys path value) ∧
  ∀ (env env' : Env) (fuel : ℕ) (conf : Config) (config : Checkc.Config) (nsSet : HashSet NsType)
    (capabilities : HashSet Capability) (c : Category),
    cgroupConfig env sys fuel pid = .ok conf → config.cgroupConfig = some conf →
    categoryResourceControl env' config nsSet capabilities = .ok c →
    ∃ t, c.tests.get "memory_max_limited" = some t ∧
      (t.passed = true ↔ ∃ level ∈ levels (below path), ∃ value, MemoryLimit sys level value) ∧
      (t.passed = true → ∃ value, Deepest sys path value ∧ t.info = [value])

/-- It is found if and only if the path is text, and it does not end in a carriage return, or else
the deepest limit on the path that is read is the same. A path that is no text is an error. -/
theorem memoryMaxFound_iff (hp : Placed sys pid path) (hmem : MemoryFiles sys path)
    (hread : MemoryFiles sys (asRead path)) :
    (MemoryMaxFound sys pid path ↔ IsText path ∧
      (¬ EndsInReturn path ∨
        ∃ value, Deepest sys path value ∧ Deepest sys (asRead path) value)) ∧
    (¬ IsText path → ∀ fuel, getMemoryMax sys fuel pid = .err .cgroupError) := by
  refine ⟨?_, fun ht fuel => by rw [getMemoryMax, getCgroup_of_not_isText hp ht]; rfl⟩
  constructor
  · rintro ⟨⟨N, hN⟩, -⟩
    obtain ⟨value, hv, hdeepest⟩ := hN N le_rfl
    obtain ⟨ht, rfl⟩ := eq_of_climb hp (askMemoryMax_of_files hread) hv
    exact ⟨ht, Or.inr ⟨_, hdeepest, hread.deepest⟩⟩
  · rintro ⟨ht, hsame⟩
    obtain ⟨value, hv, hv'⟩ : ∃ value, Deepest sys path value ∧ Deepest sys (asRead path) value :=
      hsame.elim (fun he => ⟨_, hmem.deepest, (asRead_eq_self he).symm ▸ hmem.deepest⟩) id
    have hfound : (levels (below (asRead path))).findSome? (memoryMax sys) =
        (levels (below path)).findSome? (memoryMax sys) :=
      (hv'.found_eq hread).trans (hv.found_eq hmem).symm
    refine ⟨⟨(below (asRead path)).length + 1, fun fuel hf => ⟨_, climb_of_placed hp ht
      (askMemoryMax_of_files hread) hf, hfound ▸ hmem.deepest⟩⟩, ?_⟩
    intro env env' fuel conf config nsSet capabilities c hconf hconfig hc
    have hget := (get_interfaceFiles hp hconf).2 hread
    rw [hfound] at hget
    refine ⟨_, (get_resourceControl hconfig hc).2, ?_, fun hpassed => ?_⟩
    · rw [limitTest_passed_iff hget, hmem.found_memoryMax_iff]
    · obtain ⟨value, hf, hne, -⟩ := (limitTest_passed_iff hget).mp hpassed
      have hdeepest := hmem.deepest
      rw [hf] at hdeepest
      refine ⟨value, hdeepest, limitTest_info ?_⟩
      rw [hget, hf, Option.filter_some, hne]
      rfl

end

/-! ## Nested groups -/

/-- The path of a group in another one. -/
def nestedPath : List Name := [.text "kube".toList, .text "c1".toList]

def outerGroup : List Path.Component := root ++ [.normal "kube".toList]

def innerGroup : List Path.Component := root ++ [.normal "kube".toList, .normal "c1".toList]

/-- The outer group is limited. The file for the processor of the inner one is this. -/
def nestedSystem (cpuMax : Except Errno (Except Errno String)) : System where
  cgroup _ := .ok [.ok "0::/kube/c1"]
  controllers _ := .ok [.ok "cpu memory"]
  firstLine path :=
    if path = file innerGroup "cpu.max" then cpuMax
    else if path = file outerGroup "cpu.max" then .ok (.ok "50000 100000\n")
    else if path = file innerGroup "memory.max" then .ok (.ok "max\n")
    else if path = file outerGroup "memory.max" then .ok (.ok "1073741824\n")
    else .error .ENOENT

theorem levels_nested : levels (below nestedPath) = [innerGroup, outerGroup] := by decide

theorem not_endsInReturn_nested : ¬ EndsInReturn nestedPath := by
  rintro ⟨name, hname, hr⟩
  obtain rfl : "c1".toList = name := by simpa [nestedPath] using hname
  revert hr
  decide

theorem asRead_nested : asRead nestedPath = nestedPath := asRead_eq_self not_endsInReturn_nested

theorem isText_nested : IsText nestedPath := ⟨["kube".toList, "c1".toList], rfl⟩

theorem placed_nested (m : Except Errno (Except Errno String)) (pid : PidT) :
    Placed (nestedSystem m) pid nestedPath where
  plain name h := by
    obtain rfl | rfl : name = "kube".toList ∨ name = "c1".toList := by simpa [nestedPath] using h
    all_goals decide
  line := by
    rw [show groupLine nestedPath = .ok "0::/kube/c1" by decide]
    rfl

theorem cpuLimited_outerGroup (m : Except Errno (Except Errno String)) :
    CpuLimited (nestedSystem m) outerGroup :=
  ⟨"50000 100000\n", "50000".toList, "100000".toList, rfl, .of_all (by decide) rfl,
    .of_all (by decide) rfl, Or.inr (by decide)⟩

theorem memoryLimit_outerGroup (m : Except Errno (Except Errno String)) :
    MemoryLimit (nestedSystem m) outerGroup "1073741824\n" :=
  ⟨rfl, "1073741824".toList, .of_all (by decide) rfl, Or.inr (by decide)⟩

theorem cpuFiles_nested {m : Except Errno (Except Errno String)}
    (h : Lacks (nestedSystem m) innerGroup "cpu.max" ∨ CpuUnlimited (nestedSystem m) innerGroup) :
    CpuFiles (nestedSystem m) nestedPath := by
  intro level hl
  rw [levels_nested, List.mem_pair] at hl
  rcases hl with rfl | rfl
  · exact h.imp_right Or.inr
  · exact Or.inr (Or.inl (cpuLimited_outerGroup m))

theorem memoryFiles_nested (m : Except Errno (Except Errno String)) :
    MemoryFiles (nestedSystem m) nestedPath := by
  intro level hl
  rw [levels_nested, List.mem_pair] at hl
  rcases hl with rfl | rfl
  · exact Or.inr (Or.inr ⟨"max\n", rfl, Or.inr (by decide)⟩)
  · exact Or.inr (Or.inl ⟨_, memoryLimit_outerGroup m⟩)

theorem exists_cgroupConfig_nested {m : Except Errno (Except Errno String)}
    (h : CpuFiles (nestedSystem m) nestedPath) (pid : PidT) :
    ∃ conf, cgroupConfig .logging (nestedSystem m) 3 pid = .ok conf := by
  have hp := placed_nested m pid
  have hf : (below (asRead nestedPath)).length < 3 := by decide
  obtain ⟨cgroup, hg, -⟩ := getCgroup_of_isText hp isText_nested
  rw [← asRead_nested] at h
  have hmem := asRead_nested.symm ▸ memoryFiles_nested m
  exact exists_cgroupConfig .logging hg rfl
    (climb_of_placed hp isText_nested (askCpuMax_of_files h) hf)
    (climb_of_placed hp isText_nested (askMemoryMax_of_files hmem) hf)

/-- A configuration with control groups only. -/
def configWith (conf : Config) : Checkc.Config where
  nsConfig := none
  capsConfig := none
  cgroupConfig := some conf
  fsConfig := none
  userNsConfig := none
  seccompConfig := none
  utsConfigHost := none
  utsConfigContainer := none
  chrootConfig := none
  deviceConfig := none
  info := none

theorem exists_category (conf : Config) :
    ∃ c, categoryResourceControl .logging (configWith conf) ∅ ∅ = .ok c :=
  ⟨_, categoryResourceControl_eq_ok.mpr ⟨conf, rfl, rfl⟩⟩

theorem exists_category_nested {m : Except Errno (Except Errno String)}
    (h : CpuFiles (nestedSystem m) nestedPath) : ∃ conf c,
      cgroupConfig .logging (nestedSystem m) 3 7 = .ok conf ∧
        categoryResourceControl .logging (configWith conf) ∅ ∅ = .ok c := by
  obtain ⟨conf, hconf⟩ := exists_cgroupConfig_nested h 7
  obtain ⟨c, hc⟩ := exists_category conf
  exact ⟨conf, c, hconf, hc⟩

/-- The limit of the outer group is found if the inner one has no file. -/
theorem cpuMaxLimited_iff_nested : ∃ conf c t,
    cgroupConfig .logging (nestedSystem (.error .ENOENT)) 3 7 = .ok conf ∧
      categoryResourceControl .logging (configWith conf) ∅ ∅ = .ok c ∧
      c.tests.get "cpu_max_limited" = some t ∧ t.passed = true := by
  have hcpu : CpuFiles (nestedSystem (.error .ENOENT)) nestedPath :=
    cpuFiles_nested (Or.inl ⟨.ENOENT, rfl⟩)
  obtain ⟨conf, c, hconf, hc⟩ := exists_category_nested hcpu
  have hhidden : ¬ CpuHidden (nestedSystem (.error .ENOENT)) nestedPath := by
    intro h
    obtain ⟨content, hf, hm⟩ := h.exists_found
    have hfound : (levels (below nestedPath)).findSome? (cpuMax (nestedSystem (.error .ENOENT))) =
        some "50000 100000\n" := by decide +kernel
    obtain rfl := Option.some.inj (hfound.symm.trans hf)
    revert hm
    decide
  rw [← asRead_nested] at hcpu hhidden
  obtain ⟨t, ht, hiff⟩ := (cpuMaxLimited_iff (placed_nested _ 7) hcpu hconf rfl hc).mpr
    ⟨Or.inl not_endsInReturn_nested, hhidden⟩
  refine ⟨conf, c, t, hconf, hc, ht, hiff.mpr ⟨outerGroup, ?_, cpuLimited_outerGroup _⟩⟩
  rw [levels_nested]
  simp

/-- A group without a limit hides the limit of the one above it. -/
theorem cpuMax_hidden : ∃ conf c t,
    cgroupConfig .logging (nestedSystem (.ok (.ok "max 100000\n"))) 3 7 = .ok conf ∧
      categoryResourceControl .logging (configWith conf) ∅ ∅ = .ok c ∧
      c.tests.get "cpu_max_limited" = some t ∧ t.passed = false ∧
      CpuFiles (nestedSystem (.ok (.ok "max 100000\n"))) nestedPath ∧
      ∃ level ∈ levels (below nestedPath),
        CpuLimited (nestedSystem (.ok (.ok "max 100000\n"))) level := by
  have hcpu : CpuFiles (nestedSystem (.ok (.ok "max 100000\n"))) nestedPath :=
    cpuFiles_nested (Or.inr ⟨"max 100000\n", "100000".toList, rfl, .of_all (by decide) rfl,
      Or.inr (by decide)⟩)
  obtain ⟨conf, c, hconf, hc⟩ := exists_category_nested hcpu
  have hget := (get_interfaceFiles (placed_nested _ 7) hconf).1 (asRead_nested.symm ▸ hcpu)
  rw [asRead_nested] at hget
  refine ⟨conf, c, _, hconf, hc, (get_resourceControl rfl hc).1, ?_, hcpu, outerGroup, ?_,
    cpuLimited_outerGroup _⟩
  · rw [← Bool.not_eq_true, limitTest_passed_iff hget]
    rintro ⟨content, hf, -, hm⟩
    have hfound : (levels (below nestedPath)).findSome?
        (cpuMax (nestedSystem (.ok (.ok "max 100000\n")))) = some "max 100000\n" := by
      decide +kernel
    obtain rfl := Option.some.inj (hfound.symm.trans hf)
    revert hm
    decide
  · rw [levels_nested]
    simp

/-- The group without a limit is passed over for the memory. -/
theorem memoryMaxFound_iff_nested : ∃ conf c t,
    cgroupConfig .logging (nestedSystem (.error .ENOENT)) 3 7 = .ok conf ∧
      categoryResourceControl .logging (configWith conf) ∅ ∅ = .ok c ∧
      c.tests.get "memory_max_limited" = some t ∧ t.passed = true := by
  have hcpu : CpuFiles (nestedSystem (.error .ENOENT)) nestedPath :=
    cpuFiles_nested (Or.inl ⟨.ENOENT, rfl⟩)
  have hmem := memoryFiles_nested (.error .ENOENT)
  obtain ⟨conf, c, hconf, hc⟩ := exists_category_nested hcpu
  obtain ⟨-, hfound⟩ := (memoryMaxFound_iff (placed_nested (.error .ENOENT) 7) hmem
    (asRead_nested.symm ▸ hmem)).1.mpr ⟨isText_nested, Or.inl not_endsInReturn_nested⟩
  obtain ⟨t, ht, hiff, -⟩ := hfound _ _ _ _ _ _ _ _ hconf rfl hc
  refine ⟨conf, c, t, hconf, hc, ht, hiff.mpr ⟨outerGroup, ?_, _, memoryLimit_outerGroup _⟩⟩
  rw [levels_nested]
  simp

/-- A group beside the inner one, with the same name but for a carriage return. -/
def returnPath : List Name := [.text "kube".toList, .text "c1\r".toList]

def returnGroup : List Path.Component := root ++ [.normal "kube".toList, .normal "c1\r".toList]

/-- Only the group with the carriage return is limited. -/
def returnSystem : System where
  cgroup _ := .ok [.ok "0::/kube/c1"]
  controllers _ := .ok [.ok "cpu memory"]
  firstLine path :=
    if path = file returnGroup "memory.max" then .ok (.ok "1073741824\n")
    else if path = file innerGroup "memory.max" ∨ path = file outerGroup "memory.max" then
      .ok (.ok "max\n")
    else .error .ENOENT

theorem placed_return (pid : PidT) : Placed returnSystem pid returnPath where
  plain name h := by
    obtain rfl | rfl : name = "kube".toList ∨ name = "c1\r".toList := by simpa [returnPath] using h
    all_goals decide
  line := by
    rw [show groupLine returnPath = .ok "0::/kube/c1" by decide]
    rfl

theorem memoryFiles_return : MemoryFiles returnSystem returnPath ∧
    MemoryFiles returnSystem (asRead returnPath) := by
  have hmax : ∀ level, level = innerGroup ∨ level = outerGroup →
      MemoryUnlimited returnSystem level := by
    rintro level (rfl | rfl)
    all_goals exact ⟨"max\n", rfl, Or.inr (by decide)⟩
  have hlevels : levels (below returnPath) = [returnGroup, outerGroup] := by decide
  have hread : levels (below (asRead returnPath)) = [innerGroup, outerGroup] := by decide
  constructor
  · intro level hl
    rw [hlevels, List.mem_pair] at hl
    rcases hl with rfl | rfl
    · exact Or.inr (Or.inl ⟨"1073741824\n", rfl, "1073741824".toList, .of_all (by decide) rfl,
        Or.inr (by decide)⟩)
    · exact Or.inr (Or.inr (hmax _ (Or.inr rfl)))
  · intro level hl
    rw [hread, List.mem_pair] at hl
    exact Or.inr (Or.inr (hmax _ hl))

/-- The carriage return is lost with the end of the line, and the limit with it. -/
theorem memoryMax_lost : groupLine returnPath = .ok "0::/kube/c1" ∧
    getMemoryMax returnSystem 3 7 = .ok "" ∧
    (∃ conf c t, cgroupConfig .logging returnSystem 3 7 = .ok conf ∧
      categoryResourceControl .logging (configWith conf) ∅ ∅ = .ok c ∧
      c.tests.get "memory_max_limited" = some t ∧ t.passed = false) ∧
    (∃ level ∈ levels (below returnPath), ∃ value, MemoryLimit returnSystem level value) ∧
    ¬ MemoryMaxFound returnSystem 7 returnPath := by
  have hmax : getMemoryMax returnSystem 3 7 = .ok "" := by decide +kernel
  have hlimit : ∃ level ∈ levels (below returnPath), ∃ value,
      MemoryLimit returnSystem level value := by
    refine ⟨returnGroup, by decide, "1073741824\n", rfl, "1073741824".toList, ?_, Or.inr ?_⟩
    · exact .of_all (by decide) rfl
    · decide
  have hcpu : getCpuMax returnSystem 3 7 = .ok "" := by decide +kernel
  obtain ⟨cgroup, hg, -⟩ := getCgroup_of_isText (placed_return 7)
    ⟨["kube".toList, "c1\r".toList], rfl⟩
  obtain ⟨conf, hconf⟩ := exists_cgroupConfig .logging hg rfl hcpu hmax
  obtain ⟨c, hc⟩ := exists_category conf
  have htest := (get_resourceControl rfl hc).2
  have hpassed : (limitTest conf.interfaceFiles "memory.max").passed = false := by
    rw [← Bool.not_eq_true, limitTest_passed_iff
      ((get_interfaceFiles (placed_return 7) hconf).2 memoryFiles_return.2)]
    rintro ⟨content, hf, -⟩
    have hnone : (levels (below (asRead returnPath))).findSome? (memoryMax returnSystem) =
        none := by decide +kernel
    cases hnone.symm.trans hf
  refine ⟨by decide, hmax, ⟨conf, _, _, hconf, hc, htest, hpassed⟩, hlimit, fun h => ?_⟩
  obtain ⟨t, ht, hiff, -⟩ := h.2 _ .logging _ _ _ ∅ ∅ _ hconf rfl hc
  obtain rfl := Option.some.inj (htest.symm.trans ht)
  exact Bool.false_ne_true (hpassed.symm.trans (hiff.mpr hlimit))

end Cgroup

end Checkc

import Checkc.CConfig.Config
import Checkc.CConfig.Status

/-! # Seccomp

The seccomp mode is read from the first line of the status file that begins with its name. No name
of a process makes such a line, so that the mode that is read is the one that the kernel prints.
-/

namespace Checkc

open Outcome (bind_eq_ok pure_eq_ok)

/-- The derived `Debug` text. -/
def ParseIntError.debug : ParseIntError → String
  | empty => "ParseIntError \x7b kind: Empty \x7d"
  | invalidDigit => "ParseIntError \x7b kind: InvalidDigit \x7d"
  | posOverflow => "ParseIntError \x7b kind: PosOverflow \x7d"

/-- `Mode::try_from`. -/
def SeccompMode.tryFrom (value : ℕ) : Result SeccompMode :=
  if value = 0 then pure .disabled
  else if value = 1 then pure .strict
  else if value = 2 then pure .filter
  else .err (.conversionFailed "unknown seccomp mode")

namespace Seccomp

structure SyscallResult where
  success : Bool
  info : String
  deriving DecidableEq, Repr

/-- The whole message, of which the evaluation reads the mode. -/
structure Message extends Config where
  syscallMap : HashMap String SyscallResult

/-- `test_remount_sysfs`, given the text of the error of `mount` if there is one. -/
def testRemountSysfs (mount : Except String Unit) : SyscallResult :=
  match mount with
  | .error errno => { success := false, info := errno }
  | .ok () => { success := true, info := "" }

/-- The mode in a line that begins with `Seccomp:`. -/
def lineMode (line : String) : Result (Option SeccompMode) :=
  if "Seccomp:".toList.isPrefixOf line.toList then
    match fromStrRadix 10 (UInt32.size - 1) (line.toList.filter Char.isDigit) with
    | .error e => .panic s!"Could not parse seccomp field in proc/pid/status: {e.debug}"
    | .ok seccompMode => do
      let mode ← unwrapOk (SeccompMode.tryFrom seccompMode)
      pure (some mode)
  else pure none

/-- `find_map` with `lineMode`. -/
def findMode : List String → Result (Option SeccompMode)
  | [] => pure none
  | line :: lines => do
    match ← lineMode line with
    | some mode => pure (some mode)
    | none => findMode lines

/-- `seccomp_config`. A line of the file is `none` when it is not valid text. -/
def seccompConfig (status : Except Errno (List (Option String))) (mount : Except String Unit) :
    Result Message := do
  let lines ← ioResult status
  let found ← findMode (lines.filterMap id)
  let seccompMode ← unwrap found
  pure
    { mode := ProtoEnum.toI32 seccompMode
      syscallMap := HashMap.ofList [("mount: remount sysfs", testRemountSysfs mount)] }

end Seccomp

/-! ## The line of the kernel -/

/-- The number of a mode. -/
def SeccompMode.number : SeccompMode → Option ℕ
  | unspecified => none
  | disabled => some 0
  | strict => some 1
  | filter => some 2

theorem SeccompMode.tryFrom_eq_ok {n : ℕ} {m : SeccompMode} :
    tryFrom n = .ok m ↔ m.number = some n := by
  unfold tryFrom
  split_ifs with h0 h1 h2
  all_goals cases m <;> simp_all [number, eq_comm]

namespace StatusFile

/-- The line `Seccomp:` of the kernel. -/
def seccompLine (n : ℕ) : String := String.ofList ("Seccomp:\t".toList ++ Nat.toDigits 10 n)

/-- The kernel prints this number, and no line of its own before that begins alike. -/
def PrintsSeccomp (s : StatusFile) (n : ℕ) : Prop :=
  ∃ l₁ l₂, s.after = l₁ ++ seccompLine n :: l₂ ∧
    ∀ line ∈ s.before ++ l₁, ¬ "Seccomp:".toList <+: line.toList

variable {s : StatusFile} {n : ℕ}

theorem not_prefix_cons {c : Char} {l : List Char} (hc : c ≠ 'S') :
    ¬ "Seccomp:".toList <+: c :: l := by
  rintro ⟨l', hl⟩
  exact hc (List.head_eq_of_cons_eq hl).symm

theorem not_prefix_nameLine {line : String} (h : s.nameLine = some line) :
    ¬ "Seccomp:".toList <+: line.toList := by
  rw [nameLine, Option.map_eq_some_iff] at h
  obtain ⟨name, -, rfl⟩ := h
  have hl : chomp ("Name:\t".toList ++ escape '\\' nameCode name) =
      'N' :: chomp ("ame:\t".toList ++ escape '\\' nameCode name) := chomp_cons_cons _ _ _
  rw [String.toList_ofList.trans hl]
  exact not_prefix_cons (c := 'N') (by decide)

theorem not_prefix_capLine (set : CapSet) : ¬ "Seccomp:".toList <+: (s.capLine set).toList := by
  obtain ⟨p, hp⟩ := set.display_eq_cons
  have hl : (s.capLine set).toList = 'C' :: (p ++ ':' :: '\t' :: hex (s.mask set)) := by
    rw [capLine, hp, String.toList_ofList, List.cons_append]
  rw [hl]
  exact not_prefix_cons (c := 'C') (by decide)

theorem findMode_append {lines rest : List String}
    (h : ∀ line ∈ lines, ¬ "Seccomp:".toList <+: line.toList) :
    Seccomp.findMode (lines ++ rest) = Seccomp.findMode rest := by
  induction lines with
  | nil => rfl
  | cons line lines ih =>
    rw [List.forall_mem_cons] at h
    have hnone : Seccomp.lineMode line = .ok none :=
      if_neg (by rw [List.isPrefixOf_iff_prefix]; exact h.1)
    rw [List.cons_append, Seccomp.findMode, hnone, Outcome.ok_bind]
    exact ih h.2

/-- The mode is read from the line of the kernel. -/
theorem findMode_lines (h : s.PrintsSeccomp n) : ∃ rest,
    Seccomp.findMode (s.lines.filterMap id) = Seccomp.findMode (seccompLine n :: rest) := by
  obtain ⟨l₁, l₂, hafter, hother⟩ := h
  rw [List.forall_mem_append] at hother
  have hl : s.lines.filterMap id =
      (s.nameLine.toList ++ s.before ++ CapSet.list.map s.capLine ++ l₁) ++
        seccompLine n :: l₂ := by
    rw [lines, List.filterMap_cons, List.filterMap_map, hafter]
    cases s.nameLine <;> simp
  refine ⟨l₂, ?_⟩
  rw [hl, findMode_append]
  simp only [List.forall_mem_append, List.forall_mem_map, Option.mem_toList]
  exact ⟨⟨⟨fun line hline => not_prefix_nameLine hline, hother.1⟩,
    fun set _ => not_prefix_capLine set⟩, hother.2⟩

theorem toList_seccompLine :
    (seccompLine n).toList = "Seccomp:\t".toList ++ Nat.toDigits 10 n := String.toList_ofList

/-- The digits that are filtered out of the line are those of the number. -/
theorem filter_seccompLine :
    (seccompLine n).toList.filter Char.isDigit = Nat.toDigits 10 n := by
  have hkey : "Seccomp:\t".toList.filter Char.isDigit = [] := by decide
  have hdigits : (Nat.toDigits 10 n).filter Char.isDigit = Nat.toDigits 10 n :=
    List.filter_eq_self.mpr fun c hc => Nat.isDigit_of_mem_toDigits (by decide) (by decide) hc
  rw [toList_seccompLine, List.filter_append, hkey, hdigits, List.nil_append]

theorem lineMode_seccompLine {mode : Option SeccompMode} :
    Seccomp.lineMode (seccompLine n) = .ok mode ↔
      ∃ m : SeccompMode, mode = some m ∧ m.number = some n := by
  have hprefix : "Seccomp:".toList.isPrefixOf (seccompLine n).toList = true := by
    rw [List.isPrefixOf_iff_prefix, toList_seccompLine]
    exact ⟨'\t' :: Nat.toDigits 10 n, rfl⟩
  rw [Seccomp.lineMode, if_pos hprefix, filter_seccompLine]
  have hdigits : ∀ c ∈ Nat.toDigits 10 n, c.isDigit = true := fun c hc =>
    Nat.isDigit_of_mem_toDigits (by decide) (by decide) hc
  rw [fromStrRadix_eq_parseDigits Nat.toDigits_ne_nil fun h => absurd (hdigits _ h) (by decide),
    parseDigits_of_isDigit hdigits (Nat.zero_le _),
    Nat.ofDigitChars_toDigits (by decide) (by decide)]
  split_ifs with hn
  · simp only [bind_eq_ok, unwrapOk_eq_ok, SeccompMode.tryFrom_eq_ok, pure_eq_ok]
    refine exists_congr fun m => ?_
    rw [and_comm, eq_comm]
  · -- a number that is too large is the number of no mode
    refine iff_of_false (by simp) ?_
    rintro ⟨m, -, hm⟩
    cases m <;> simp_all [SeccompMode.number] <;> omega

theorem findMode_lines_eq_ok (h : s.PrintsSeccomp n) {mode : Option SeccompMode} :
    Seccomp.findMode (s.lines.filterMap id) = .ok mode ↔
      ∃ m : SeccompMode, mode = some m ∧ m.number = some n := by
  obtain ⟨rest, hrest⟩ := findMode_lines h
  rw [hrest, Seccomp.findMode, bind_eq_ok]
  simp only [lineMode_seccompLine]
  constructor
  · rintro ⟨_, ⟨m, rfl, hm⟩, h⟩
    exact ⟨m, (pure_eq_ok.mp h).symm, hm⟩
  · rintro ⟨m, rfl, hm⟩
    exact ⟨some m, ⟨m, rfl, hm⟩, rfl⟩

/-- Whatever the name of the process is, the mode is the one that the kernel prints, and it is
only collected if it is one of the three modes that are known. -/
theorem seccompConfig_eq_ok_iff (h : s.PrintsSeccomp n) (mount : Except String Unit)
    (c : Seccomp.Message) : Seccomp.seccompConfig (.ok s.lines) mount = .ok c ↔
      ∃ m : SeccompMode, m.number = some n ∧
        c = { mode := ProtoEnum.toI32 m
              syscallMap := HashMap.ofList
                [("mount: remount sysfs", Seccomp.testRemountSysfs mount)] } := by
  simp only [Seccomp.seccompConfig, bind_eq_ok, pure_eq_ok, ioResult_eq_ok, unwrap_eq_ok]
  constructor
  · rintro ⟨_, hl, _, hfind, m, rfl, rfl⟩
    obtain rfl := Except.ok.inj hl
    obtain ⟨_, hmode, hm⟩ := (findMode_lines_eq_ok h).mp hfind
    obtain rfl := Option.some.inj hmode
    exact ⟨m, hm, rfl⟩
  · rintro ⟨m, hm, rfl⟩
    exact ⟨s.lines, rfl, some m, (findMode_lines_eq_ok h).mpr ⟨m, rfl, hm⟩, m, rfl, rfl⟩

/-- A process with a filter whose name imitates the line of one without. -/
def forgedFile : StatusFile where
  name := some "\nSeccomp:\t0".toList
  before := ["Umask:\t0022", "State:\tS (sleeping)"]
  mask _ := 0#64
  after := ["NoNewPrivs:\t0", seccompLine 2, "Seccomp_filters:\t1"]
  before_other line hl set := by
    have h : ∀ line ∈ ["Umask:\t0022", "State:\tS (sleeping)"], ∀ set ∈ CapSet.list,
        ¬ set.display.toList <:+: line.toList := by decide
    exact h line hl set set.mem_list

theorem printsSeccomp_forgedFile : forgedFile.PrintsSeccomp 2 :=
  ⟨["NoNewPrivs:\t0"], ["Seccomp_filters:\t1"], rfl, by decide⟩

end StatusFile

end Checkc

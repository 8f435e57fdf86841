import Checkc.CConfig.UserNs

/-! # Lists of processes

The processes of a host are the directories of `/proc` whose name is a number. The filter that
selects them looks for a digit in the name, but all of the name is then parsed as a number.
-/

namespace Checkc

open Outcome (bind_eq_ok pure_eq_ok)

/-- The value of a decimal number in the range of `pid_t`. -/
def decimalPid (name : List Char) : Option PidT :=
  if name ≠ [] ∧ name.all Char.isDigit = true ∧ Nat.ofDigitChars 10 name 0 ≤ 2147483647 then
    some (Nat.ofDigitChars 10 name 0)
  else none

namespace Ns

/-- The number that is the whole name of a directory. -/
def ProcEntry.pid (entry : ProcEntry) : Option PidT :=
  if entry.isDir then entry.name.bind fun name => decimalPid name.toList else none

/-- The entry is a directory with a digit in its name. -/
def ProcEntry.selected (entry : ProcEntry) : Bool :=
  entry.isDir && (entry.name.any fun name => name.toList.any Char.isDigit)

/-- The name of the entry, parsed as a number. -/
def ProcEntry.parsed (entry : ProcEntry) : Option PidT :=
  entry.name.bind fun name => parsePid name.toList

theorem parsePid_of_decimalPid {name : List Char} {p : PidT} (h : decimalPid name = some p) :
    parsePid name = some p := by
  unfold decimalPid at h
  split_ifs at h with hd
  obtain ⟨hne, hdigits, hle⟩ := hd
  rw [List.all_eq_true] at hdigits
  have hminus : '-' ∉ name := fun hm => absurd (hdigits '-' hm) (by decide)
  have hplus : '+' ∉ name := fun hm => absurd (hdigits '+' hm) (by decide)
  have hparse : fromStrRadix 10 (2 ^ 31 - 1) name = .ok (Nat.ofDigitChars 10 name 0) := by
    rw [fromStrRadix_eq_parseDigits hne hplus, parseDigits_of_isDigit hdigits (Nat.zero_le _)]
    exact if_pos hle
  unfold parsePid
  split
  · exact absurd List.mem_cons_self hminus
  · rw [hparse]
    exact h

theorem selected_of_pid {entry : ProcEntry} {p : PidT} (h : entry.pid = some p) :
    entry.selected = true ∧ entry.parsed = some p := by
  obtain ⟨name, isDir⟩ := entry
  simp only [ProcEntry.pid] at h
  split_ifs at h with hdir
  obtain ⟨name, rfl, hp⟩ := Option.bind_eq_some_iff.mp h
  refine ⟨?_, parsePid_of_decimalPid hp⟩
  unfold decimalPid at hp
  split_ifs at hp with hd
  obtain ⟨c, l, hl⟩ := List.exists_cons_of_ne_nil hd.1
  simp [ProcEntry.selected, hdir, hl, List.all_eq_true.mp hd.2.1 c (hl ▸ List.mem_cons_self)]

/-- The filter returns for an entry unless this is a directory whose name is no text. -/
theorem isPidDir_eq_ok {entry : ProcEntry} {b : Bool} : isPidDir entry = .ok b ↔
    (entry.isDir = true → entry.name.isSome = true) ∧ b = entry.selected := by
  obtain ⟨name, isDir⟩ := entry
  cases isDir with
  | false => exact ⟨fun h => ⟨nofun, (Outcome.ok.inj h).symm⟩, fun h => congrArg _ h.2.symm⟩
  | true =>
    cases name with
    | none => exact iff_of_false nofun fun h => by simpa using h.1 rfl
    | some name => exact ⟨fun h => ⟨fun _ => rfl, (Outcome.ok.inj h).symm⟩,
        fun h => congrArg _ h.2.symm⟩

/-- The names of the selected entries are parsed, if all directories have texts as names. -/
theorem procPids_eq_ok {entries : List (Except Errno ProcEntry)} {pids : List PidT} :
    procPids (.ok entries) = .ok pids ↔
      (∀ entry, .ok entry ∈ entries → entry.isDir = true → entry.name.isSome = true) ∧
        List.Forall₂ (fun entry p => entry.parsed = some p)
          ((entries.filterMap Except.toOption).filter ProcEntry.selected) pids := by
  have hparse : ∀ (entry : ProcEntry) (p : PidT), (do
      let name ← unwrap entry.name
      unwrap (parsePid name.toList) : Result PidT) = .ok p ↔ entry.parsed = some p := by
    intro entry p
    simp [ProcEntry.parsed, Option.bind_eq_some_iff]
  simp only [procPids, ioResult, Outcome.ok_bind, bind_eq_ok, mapM_eq_ok, hparse]
  constructor
  · rintro ⟨dirs, hdirs, hpids⟩
    have hall : ∀ entry ∈ entries.filterMap Except.toOption,
        entry.isDir = true → entry.name.isSome = true := by
      intro entry he
      obtain ⟨b, hb⟩ := exists_of_filterM hdirs entry he
      exact (isPidDir_eq_ok.mp hb).1
    obtain rfl := Outcome.ok_unique hdirs
      (filterM_eq_ok fun entry he => isPidDir_eq_ok.mpr ⟨hall entry he, rfl⟩)
    exact ⟨fun entry he => hall entry (mem_readable.mpr he), hpids⟩
  · rintro ⟨hall, hpids⟩
    refine ⟨_, filterM_eq_ok fun entry he => isPidDir_eq_ok.mpr ⟨?_, rfl⟩, hpids⟩
    exact hall entry (mem_readable.mp he)

/-- The parsed numbers are the whole names if every name is a number. -/
theorem forall₂_parsed_iff {dirs : List ProcEntry} :
    List.Forall₂ (fun entry p => entry.parsed = some p) dirs (dirs.filterMap ProcEntry.pid) ↔
      ∀ entry ∈ dirs, entry.pid.isSome = true := by
  constructor
  · intro h entry he
    rw [Option.isSome_iff_ne_none]
    intro hnone
    have hlt := List.length_filterMap_lt_length_iff_exists.mpr ⟨entry, he, hnone⟩
    exact absurd h.length_eq hlt.ne'
  · intro h
    induction dirs with
    | nil => exact .nil
    | cons entry dirs ih =>
      rw [List.forall_mem_cons] at h
      obtain ⟨p, hp⟩ := Option.isSome_iff_exists.mp h.1
      rw [List.filterMap_cons_some hp]
      exact .cons (selected_of_pid hp).2 (ih h.2)

end Ns

/-- Both functions that list the processes of a host return exactly the numbers that are the whole
names of directories, in the order of the entries. -/
def ListsPids (entries : List (Except Errno Ns.ProcEntry)) : Prop :=
  getPidList (.ok entries) = .ok ((entries.filterMap Except.toOption).filterMap Ns.ProcEntry.pid) ∧
    Ns.procPids (.ok entries) =
      .ok ((entries.filterMap Except.toOption).filterMap Ns.ProcEntry.pid)

/-- The processes are listed if and only if the names of all directories are texts, and those with
a digit are numbers in the range of `pid_t`. -/
theorem listsPids_iff (entries : List (Except Errno Ns.ProcEntry)) : ListsPids entries ↔
    ∀ entry, .ok entry ∈ entries → entry.isDir = true →
      ∃ name, entry.name = some name ∧
        (name.toList.any Char.isDigit = true → (decimalPid name.toList).isSome = true) := by
  have hfilter : ∀ l : List Ns.ProcEntry, l.filterMap Ns.ProcEntry.pid =
      (l.filter Ns.ProcEntry.selected).filterMap Ns.ProcEntry.pid := by
    intro l
    rw [List.filterMap_filter]
    apply List.filterMap_congr
    intro entry _
    split_ifs with hs
    · rfl
    · cases hp : entry.pid with
      | none => rfl
      | some p => exact absurd (Ns.selected_of_pid hp).1 hs
  rw [ListsPids, getPidList, and_self, Ns.procPids_eq_ok, hfilter, Ns.forall₂_parsed_iff]
  constructor
  · rintro ⟨htext, hpid⟩ entry he hdir
    obtain ⟨name, hname⟩ := Option.isSome_iff_exists.mp (htext entry he hdir)
    refine ⟨name, hname, fun hdigit => ?_⟩
    have hselected : entry.selected = true := by
      simp [Ns.ProcEntry.selected, hdir, hname, hdigit]
    have h := hpid entry (List.mem_filter.mpr ⟨mem_readable.mpr he, hselected⟩)
    rwa [Ns.ProcEntry.pid, if_pos hdir, hname] at h
  · intro h
    refine ⟨fun entry he hdir => ?_, fun entry he => ?_⟩
    · obtain ⟨name, hname, -⟩ := h entry he hdir
      rw [hname]
      rfl
    · obtain ⟨hmem, hselected⟩ := List.mem_filter.mp he
      rw [Ns.ProcEntry.selected, Bool.and_eq_true] at hselected
      obtain ⟨name, hname, hnumber⟩ := h entry (mem_readable.mp hmem) hselected.1
      rw [Ns.ProcEntry.pid, if_pos hselected.1, hname]
      exact hnumber (by simpa [hname] using hselected.2)

/-- A directory whose name mixes letters and digits, beside a process. -/
theorem mixedName_panics :
    (∃ message, getPidList (.ok [.ok ⟨some "1", true⟩, .ok ⟨some "bus2", true⟩]) =
        .panic message) ∧
      ¬ ListsPids [.ok ⟨some "1", true⟩, .ok ⟨some "bus2", true⟩] := by
  have hpanic : ∃ message, getPidList (.ok [.ok ⟨some "1", true⟩, .ok ⟨some "bus2", true⟩]) =
      .panic message := ⟨_, rfl⟩
  refine ⟨hpanic, fun h => ?_⟩
  obtain ⟨message, hpanic⟩ := hpanic
  exact nomatch hpanic.symm.trans h.1

end Checkc

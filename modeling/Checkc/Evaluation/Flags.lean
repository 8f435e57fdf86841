import Checkc.Config.Lists
import Checkc.Evaluation.Message
import Checkc.Patterns.Uuid

/-! # Flag files seen outside the container

The flag files that the container run wrote are grouped by their path over all mount
namespaces in which they were found. A group is a leak and becomes one line.
-/

namespace Checkc

open Outcome

/-- The namespaces in which a flag path was found, by path. -/
abbrev FlagMatches := HashMap String (List Ns.Id)

/-- Append the namespace to the entry of the flag, or begin a new entry. -/
def recordFlag (nsId : Option Ns.Id) (flagMatches : FlagMatches) (flag : String) :
    Result FlagMatches :=
  match flagMatches.get flag with
  | some ids => do
    let id ← unwrap nsId
    pure (flagMatches.insert flag (ids ++ [id]))
  | none => do
    let id ← unwrap nsId
    pure (flagMatches.insert flag [id])

/-- The body of the inner loop of `do_check_flags_host`. -/
def checkFlagHost (allowed : List PathBuf) (rootDir : PathBuf) (nsId : Option Ns.Id)
    (flagMatches : FlagMatches) (flag : String) : Result FlagMatches :=
  match Regex.search regexUuid flag.toList with
  | none => pure flagMatches
  | some _ =>
    if Path.startsWith flag rootDir then pure flagMatches
    else do
      -- the `continue` in the loop over the allowed locations continues that loop only
      let _ := allowed.foldl (fun _ allow => if Path.startsWith flag allow then () else ()) ()
      recordFlag nsId flagMatches flag

/-- The lines for the collected flags. -/
def flagLines (env : Env) (site : String) (flagMatches : FlagMatches) : List String :=
  (flagMatches.iter env.σ site).map fun (flag, ids) =>
    let ids := ", ".intercalate (ids.map fun nsId => s!"{nsId.stDev}:{nsId.stIno}")
    s!"{flag}: {ids}"

/-- The two nested loops over the mount namespaces and their flags, with the log level of
the message about each namespace and the body of the inner loop. -/
def groupFlags (env : Env) (level : LogLevel)
    (body : Option Ns.Id → FlagMatches → String → Result FlagMatches)
    (namespaces : List MountNamespace) : Result FlagMatches :=
  namespaces.foldlM (fun flagMatches mountns => do
    env.log level (unwrap mountns.nsId)
    mountns.flagFiles.foldlM (body mountns.nsId) flagMatches) ∅

/-- `do_check_flags_host`. -/
def doCheckFlagsHost (env : Env) (allowed : List PathBuf) (namespaces : List MountNamespace)
    (rootDir : PathBuf) : Result (List String) := do
  let flagMatches ← groupFlags env .trace (checkFlagHost allowed rootDir) namespaces
  pure (flagLines env "do_check_flags_host" flagMatches)

/-- `do_check_flags_refcontainer`. -/
def doCheckFlagsRefcontainer (env : Env) (namespaces : List MountNamespace) :
    Result (List String) := do
  let flagMatches ← groupFlags env .debug recordFlag namespaces
  pure (flagLines env "do_check_flags_refcontainer" flagMatches)

/-- A flag path that the host report counts as a leak. -/
def Leaks (rootDir : PathBuf) (flag : String) : Prop :=
  ContainsUuid flag ∧ ¬ Path.Below flag rootDir

/-! ## One flag -/

theorem recordFlag_eq_ok {m m' : FlagMatches} {flag : String} {nsId : Option Ns.Id} :
    recordFlag nsId m flag = .ok m' ↔
      ∃ id, nsId = some id ∧ m' = m.insert flag ((m.get flag).getD [] ++ [id]) := by
  unfold recordFlag
  cases h : m.get flag <;>
    simp only [bind_eq_ok, unwrap_eq_ok, pure_eq_ok, eq_comm (b := m'), Option.getD_some,
      Option.getD_none, List.nil_append]

theorem checkFlagHost_eq_ok {allowed : List PathBuf} {root : PathBuf} {nsId : Option Ns.Id}
    {m m' : FlagMatches} {flag : String} :
    checkFlagHost allowed root nsId m flag = .ok m' ↔
      (Leaks root flag ∧ recordFlag nsId m flag = .ok m') ∨ (¬ Leaks root flag ∧ m' = m) := by
  unfold checkFlagHost Leaks
  rw [← search_regexUuid_isSome_iff, ← Path.startsWith_iff]
  cases Regex.search regexUuid flag.toList with
  | none => simp [eq_comm (b := m')]
  | some x => by_cases h : Path.startsWith flag root = true <;> simp [h, eq_comm (b := m')]

/-! ## All flags -/

theorem isSome_recordFlag {m m' : FlagMatches} {flag k : String} {nsId : Option Ns.Id}
    (h : recordFlag nsId m flag = .ok m') :
    (m'.get k).isSome = true ↔ (m.get k).isSome = true ∨ k = flag := by
  obtain ⟨id, -, rfl⟩ := recordFlag_eq_ok.mp h
  rw [HashMap.get_insert]
  by_cases hk : k = flag <;> simp [hk]

theorem flagLines_eq_nil_iff {env : Env} {site : String} {m : FlagMatches} :
    flagLines env site m = [] ↔ ∀ k, ¬ (m.get k).isSome = true := by
  rw [flagLines, List.map_eq_nil_iff, List.eq_nil_iff_forall_not_mem]
  constructor
  · intro h k hk
    obtain ⟨ids, hids⟩ := Option.isSome_iff_exists.mp hk
    exact h (k, ids) (HashMap.mem_iter.mpr hids)
  · rintro h ⟨k, ids⟩ hm
    exact h k (by rw [HashMap.mem_iter.mp hm, Option.isSome_some])

section Grouping

variable {env : Env} {level : LogLevel} {namespaces : List MountNamespace}
  {body : Option Ns.Id → FlagMatches → String → Result FlagMatches}

/-- Grouping returns when every namespace has an id. -/
theorem groupFlags_isOk (env : Env) (level : LogLevel)
    (hb : ∀ id m flag, ∃ m', body (some id) m flag = .ok m')
    (hid : ∀ mountns ∈ namespaces, mountns.nsId.isSome = true) :
    ∃ m, groupFlags env level body namespaces = .ok m := by
  refine foldlM_isOk (fun m mountns hm => ?_) ∅
  obtain ⟨id, hid⟩ := Option.isSome_iff_exists.mp (hid mountns hm)
  obtain ⟨m', hm'⟩ := foldlM_isOk (fun m flag _ => hb id m flag) m (l := mountns.flagFiles)
  exact ⟨m', bind_eq_ok.mpr ⟨(), Env.log_eq_ok.mpr fun _ => ⟨id, by rw [hid, unwrap_some]⟩,
    by rw [hid, hm']⟩⟩

/-- If the body groups the flags with property `P`, then the report is empty exactly when
no namespace lists such a flag. -/
theorem flagLines_groupFlags_eq_nil {P : String → Prop}
    (hb : ∀ nsId m m' flag k, body nsId m flag = .ok m' →
      ((m'.get k).isSome = true ↔ (m.get k).isSome = true ∨ (P flag ∧ k = flag)))
    {m : FlagMatches} (h : groupFlags env level body namespaces = .ok m) (site : String) :
    flagLines env site m = [] ↔ ∀ mountns ∈ namespaces, ∀ flag ∈ mountns.flagFiles, ¬ P flag := by
  have hk : ∀ k, (m.get k).isSome = true ↔
      ∃ mountns ∈ namespaces, ∃ flag ∈ mountns.flagFiles, P flag ∧ k = flag := by
    intro k
    have hns := foldlM_accumulates (M := fun m : FlagMatches => (m.get k).isSome = true)
      (Q := fun mountns => ∃ flag ∈ mountns.flagFiles, P flag ∧ k = flag) ?_ h
    · simpa using hns
    · intro m m' mountns _ hm
      obtain ⟨-, -, hm⟩ := bind_eq_ok.mp hm
      exact foldlM_accumulates (M := fun m : FlagMatches => (m.get k).isSome = true)
        (fun m m' flag _ hf => hb _ m m' flag k hf) hm
  rw [flagLines_eq_nil_iff]
  simp only [hk, not_exists, not_and]
  constructor
  · intro h mountns hm flag hf hp
    exact h flag mountns hm flag hf hp rfl
  · rintro h k mountns hm flag hf hp rfl
    exact h mountns hm _ hf hp

end Grouping

variable {env : Env} {allowed : List PathBuf} {namespaces : List MountNamespace} {root : PathBuf}

theorem recordFlag_isOk (id : Ns.Id) (m : FlagMatches) (flag : String) :
    ∃ m', recordFlag (some id) m flag = .ok m' :=
  ⟨_, recordFlag_eq_ok.mpr ⟨id, rfl, rfl⟩⟩

theorem checkFlagHost_isOk (allowed : List PathBuf) (root : PathBuf) (id : Ns.Id)
    (m : FlagMatches) (flag : String) :
    ∃ m', checkFlagHost allowed root (some id) m flag = .ok m' := by
  by_cases hl : Leaks root flag
  · obtain ⟨m', hm'⟩ := recordFlag_isOk id m flag
    exact ⟨m', checkFlagHost_eq_ok.mpr (Or.inl ⟨hl, hm'⟩)⟩
  · exact ⟨m, checkFlagHost_eq_ok.mpr (Or.inr ⟨hl, rfl⟩)⟩

theorem doCheckFlagsHost_isOk (env : Env) (allowed : List PathBuf) (root : PathBuf)
    (hid : ∀ mountns ∈ namespaces, mountns.nsId.isSome = true) :
    ∃ lines, doCheckFlagsHost env allowed namespaces root = .ok lines := by
  obtain ⟨m, hm⟩ := groupFlags_isOk env .trace (checkFlagHost_isOk allowed root) hid
  exact ⟨_, bind_eq_ok.mpr ⟨m, hm, rfl⟩⟩

theorem doCheckFlagsRefcontainer_isOk (env : Env)
    (hid : ∀ mountns ∈ namespaces, mountns.nsId.isSome = true) :
    ∃ lines, doCheckFlagsRefcontainer env namespaces = .ok lines := by
  obtain ⟨m, hm⟩ := groupFlags_isOk env .debug recordFlag_isOk hid
  exact ⟨_, bind_eq_ok.mpr ⟨m, hm, rfl⟩⟩

/-- The host report is empty exactly when no host namespace lists a leaking flag. -/
theorem doCheckFlagsHost_eq_nil {lines : List String}
    (h : doCheckFlagsHost env allowed namespaces root = .ok lines) :
    lines = [] ↔ ∀ mountns ∈ namespaces, ∀ flag ∈ mountns.flagFiles, ¬ Leaks root flag := by
  obtain ⟨m, hm, h⟩ := bind_eq_ok.mp h
  obtain rfl := pure_eq_ok.mp h
  refine flagLines_groupFlags_eq_nil (fun nsId m m' flag k hs => ?_) hm _
  rcases checkFlagHost_eq_ok.mp hs with ⟨hl, hs⟩ | ⟨hl, rfl⟩
  · simp [isSome_recordFlag hs, hl]
  · simp [hl]

/-- The report about the reference container is empty exactly when no flag is listed. -/
theorem doCheckFlagsRefcontainer_eq_nil {lines : List String}
    (h : doCheckFlagsRefcontainer env namespaces = .ok lines) :
    lines = [] ↔ ∀ mountns ∈ namespaces, mountns.flagFiles = [] := by
  obtain ⟨m, hm, h⟩ := bind_eq_ok.mp h
  obtain rfl := pure_eq_ok.mp h
  rw [flagLines_groupFlags_eq_nil (P := fun _ => True)
    (fun nsId m m' flag k hs => by simp [isSome_recordFlag hs]) hm]
  simp [List.eq_nil_iff_forall_not_mem]

end Checkc

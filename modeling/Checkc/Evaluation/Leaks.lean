import Checkc.Evaluation.Flags
import Mathlib.Data.List.Count

/-! # Lines of the leak reports

A report has one line for each path of a flag, which names the namespaces that list it. The
locations where flags are allowed do not change it.
-/

namespace Checkc

open Outcome (bind_eq_ok pure_eq_ok)

/-- The line for a flag with the ids of the namespaces that list it. -/
def flagLine (flag : String) (ids : List Ns.Id) : String :=
  let ids := ", ".intercalate (ids.map fun nsId => s!"{nsId.stDev}:{nsId.stIno}")
  s!"{flag}: {ids}"

theorem flagLines_eq_map (env : Env) (site : String) (flagMatches : FlagMatches) :
    flagLines env site flagMatches =
      (flagMatches.iter env.σ site).map fun e => flagLine e.1 e.2 := rfl

/-- The id of a namespace, once for each time that a flag is listed. -/
def repeatedId (nsId : Option Ns.Id) (flagFiles : List String) (flag : String) : List Ns.Id :=
  nsId.elim [] (List.replicate (flagFiles.count flag))

/-- The ids of the namespaces that list a flag, once for each time that they list it. -/
def listedBy (namespaces : List MountNamespace) (flag : String) : List Ns.Id :=
  namespaces.flatMap fun mountns => repeatedId mountns.nsId mountns.flagFiles flag

/-- Some namespace lists the flag. -/
def Listed (namespaces : List MountNamespace) (flag : String) : Prop :=
  ∃ mountns ∈ namespaces, flag ∈ mountns.flagFiles

/-- The flags are those that are listed and have a property. -/
structure Selects (namespaces : List MountNamespace) (P : String → Prop) (flags : List String) :
    Prop where
  nodup : flags.Nodup
  mem_iff : ∀ flag, flag ∈ flags ↔ P flag ∧ Listed namespaces flag

/-- The lines are one for each listed flag with a property. -/
def Reports (namespaces : List MountNamespace) (P : String → Prop) (lines : List String) : Prop :=
  ∃ flags, Selects namespaces P flags ∧
    lines = flags.map fun flag => flagLine flag (listedBy namespaces flag)

theorem listedBy_ne_nil_iff {namespaces : List MountNamespace} {flag : String}
    (hid : ∀ mountns ∈ namespaces, mountns.nsId.isSome = true) :
    listedBy namespaces flag ≠ [] ↔ Listed namespaces flag := by
  rw [listedBy, ne_eq, List.flatMap_eq_nil_iff, not_forall, Listed]
  apply exists_congr
  intro mountns
  rw [Classical.not_imp]
  apply and_congr_right
  intro hm
  obtain ⟨id, hid⟩ := Option.isSome_iff_exists.mp (hid mountns hm)
  simp [repeatedId, hid, List.count_eq_zero]

theorem repeatedId_append (nsId : Option Ns.Id) (l : List String) (flag k : String) :
    repeatedId nsId (l ++ [flag]) k =
      repeatedId nsId l k ++ if k = flag then nsId.toList else [] := by
  cases nsId with
  | none => simp [repeatedId]
  | some id =>
    rw [repeatedId, List.count_append, List.count_singleton]
    by_cases hk : k = flag
    · simp [repeatedId, hk, List.replicate_succ']
    · simp [repeatedId, hk, Ne.symm hk]

/-! ## Grouping -/

/-- The body of the inner loop records the flags with property `P`. -/
def RecordsFlags (P : String → Prop)
    (body : Option Ns.Id → FlagMatches → String → Result FlagMatches) : Prop :=
  ∀ nsId m m' flag, body nsId m flag = .ok m' →
    (P flag ∧ recordFlag nsId m flag = .ok m') ∨ (¬ P flag ∧ m' = m)

/-- The map has the ids `f k` under each key `k` with property `P` that has any. -/
def Groups (P : String → Prop) (f : String → List Ns.Id) (m : FlagMatches) : Prop :=
  ∀ k ids, m.get k = some ids ↔ P k ∧ ids = f k ∧ ids ≠ []

section

variable {P : String → Prop} {body : Option Ns.Id → FlagMatches → String → Result FlagMatches}
  {f : String → List Ns.Id} {m m' : FlagMatches} {namespaces : List MountNamespace}

theorem Groups.getD (h : Groups P f m) {flag : String} (hP : P flag) :
    (m.get flag).getD [] = f flag := by
  by_cases hf : f flag = []
  · have hnone : m.get flag = none := by
      rw [Option.eq_none_iff_forall_ne_some]
      intro ids hids
      obtain ⟨-, rfl, hne⟩ := (h flag ids).mp hids
      exact hne hf
    rw [hnone, hf]
    rfl
  · rw [(h flag (f flag)).mpr ⟨hP, rfl, hf⟩]
    rfl

/-- A flag adds the id of its namespace. -/
theorem Groups.step (hb : RecordsFlags P body) (h : Groups P f m) {nsId : Option Ns.Id}
    {flag : String} (hm : body nsId m flag = .ok m') :
    Groups P (fun k => f k ++ if k = flag then nsId.toList else []) m' := by
  intro k ids
  beta_reduce
  rcases hb nsId m m' flag hm with ⟨hP, hm⟩ | ⟨hP, rfl⟩
  · obtain ⟨id, rfl, rfl⟩ := recordFlag_eq_ok.mp hm
    rw [HashMap.get_insert, h.getD hP]
    by_cases hk : k = flag
    · obtain rfl := hk
      simp only [if_true, Option.some.injEq, Option.toList_some, hP, true_and]
      constructor
      · rintro rfl
        exact ⟨rfl, List.append_ne_nil_of_right_ne_nil _ (List.cons_ne_nil _ _)⟩
      · exact fun h => h.1.symm
    · rw [if_neg hk, if_neg hk, List.append_nil, h k ids]
  · rw [h k ids]
    apply and_congr_right
    intro hk
    have hne : k ≠ flag := by
      rintro rfl
      exact hP hk
    rw [if_neg hne, List.append_nil]

/-- The flags of a namespace add its id once for each time that it lists them. -/
theorem Groups.namespace (hb : RecordsFlags P body) (h : Groups P f m) {nsId : Option Ns.Id}
    {flagFiles : List String} (hm : flagFiles.foldlM (body nsId) m = .ok m') :
    Groups P (fun k => f k ++ repeatedId nsId flagFiles k) m' := by
  refine foldlM_induction (P := fun l m => Groups P (fun k => f k ++ repeatedId nsId l k) m)
    ?_ ?_ hm
  · have hnil : (fun k => f k ++ repeatedId nsId [] k) = f := by
      funext k
      cases nsId <;> simp [repeatedId]
    rwa [hnil]
  · intro l flag s s' hs hstep
    simp only [repeatedId_append, ← List.append_assoc]
    exact hs.step hb hstep

theorem groups_groupFlags {env : Env} {level : LogLevel} (hb : RecordsFlags P body)
    (hm : groupFlags env level body namespaces = .ok m) : Groups P (listedBy namespaces) m := by
  refine foldlM_induction (P := fun l m => Groups P (listedBy l) m) ?_ ?_ hm
  · intro k ids
    simp [listedBy]
  · intro l mountns s s' hs hstep
    obtain ⟨-, -, hstep⟩ := bind_eq_ok.mp hstep
    have happend : listedBy (l ++ [mountns]) =
        fun k => listedBy l k ++ repeatedId mountns.nsId mountns.flagFiles k := by
      funext k
      rw [listedBy, List.flatMap_append, List.flatMap_singleton, listedBy]
    rw [happend]
    exact hs.namespace hb hstep

/-- The lines for a grouping report the flags that were grouped. -/
theorem Groups.reports (hid : ∀ mountns ∈ namespaces, mountns.nsId.isSome = true)
    (h : Groups P (listedBy namespaces) m) (env : Env) (site : String) :
    Reports namespaces P (flagLines env site m) := by
  refine ⟨(m.iter env.σ site).map Prod.fst, ⟨HashMap.nodup_keys_iter _ _ _, fun flag => ?_⟩, ?_⟩
  · rw [← listedBy_ne_nil_iff hid, List.mem_map]
    constructor
    · rintro ⟨⟨k, ids⟩, hm, rfl⟩
      obtain ⟨hP, rfl, hne⟩ := (h k ids).mp (HashMap.mem_iter.mp hm)
      exact ⟨hP, hne⟩
    · rintro ⟨hP, hne⟩
      exact ⟨(flag, _), HashMap.mem_iter.mpr ((h flag _).mpr ⟨hP, rfl, hne⟩), rfl⟩
  · rw [flagLines_eq_map, List.map_map]
    apply List.map_congr_left
    intro e he
    obtain ⟨-, hids, -⟩ := (h e.1 e.2).mp (HashMap.mem_iter.mp he)
    rw [hids]
    rfl

end

/-! ## The two reports -/

section

variable {namespaces : List MountNamespace}

theorem recordsFlags_host (allowed : List PathBuf) (root : PathBuf) :
    RecordsFlags (Leaks root) (checkFlagHost allowed root) :=
  fun _ _ _ _ => checkFlagHost_eq_ok.mp

theorem recordsFlags_refcontainer : RecordsFlags (fun _ => True) recordFlag :=
  fun _ _ _ _ h => Or.inl ⟨trivial, h⟩

/-- Whatever the allowed locations are, the host report has the leaking flags. -/
theorem doCheckFlagsHost_reports (env : Env) (allowed : List PathBuf) (root : PathBuf)
    (hid : ∀ mountns ∈ namespaces, mountns.nsId.isSome = true) :
    ∃ lines, doCheckFlagsHost env allowed namespaces root = .ok lines ∧
      Reports namespaces (Leaks root) lines := by
  obtain ⟨lines, hlines⟩ := doCheckFlagsHost_isOk env allowed root hid
  refine ⟨lines, hlines, ?_⟩
  obtain ⟨m, hm, h⟩ := bind_eq_ok.mp hlines
  obtain rfl := pure_eq_ok.mp h
  exact (groups_groupFlags (recordsFlags_host allowed root) hm).reports hid env _

theorem doCheckFlagsRefcontainer_reports (env : Env)
    (hid : ∀ mountns ∈ namespaces, mountns.nsId.isSome = true) :
    ∃ lines, doCheckFlagsRefcontainer env namespaces = .ok lines ∧
      Reports namespaces (fun _ => True) lines := by
  obtain ⟨lines, hlines⟩ := doCheckFlagsRefcontainer_isOk env hid
  refine ⟨lines, hlines, ?_⟩
  obtain ⟨m, hm, h⟩ := bind_eq_ok.mp hlines
  obtain rfl := pure_eq_ok.mp h
  exact (groups_groupFlags recordsFlags_refcontainer hm).reports hid env _

/-- The host report has one line for each leaking flag, the report about the reference container
one for each flag, and a line names the namespaces that list its flag. -/
theorem flags_reported (env : Env) (root : PathBuf)
    (hid : ∀ mountns ∈ namespaces, mountns.nsId.isSome = true) :
    (∃ lines, doCheckFlagsHost env flagLocationAllow namespaces root = .ok lines ∧
      Reports namespaces (Leaks root) lines) ∧
    ∃ lines, doCheckFlagsRefcontainer env namespaces = .ok lines ∧
      Reports namespaces (fun _ => True) lines :=
  ⟨doCheckFlagsHost_reports env flagLocationAllow root hid,
    doCheckFlagsRefcontainer_reports env hid⟩

end

/-- The flag file of a run. -/
def sampleFlag : String := "/srv/xyz_checkc_flag_01234567-89ab-cdef-0123-456789abcdef"

/-- Two mount namespaces of the host that list the same flag file. -/
def leakyNamespaces : List MountNamespace :=
  [⟨some ⟨4, 10⟩, [1], [], [], [sampleFlag]⟩, ⟨some ⟨4, 11⟩, [2], [], [], ["/srv/old", sampleFlag]⟩]

theorem flags_reported_leakyNamespaces : ∃ lines lines',
    doCheckFlagsHost .logging flagLocationAllow leakyNamespaces "/var/c" = .ok lines ∧
      doCheckFlagsRefcontainer .logging leakyNamespaces = .ok lines' ∧
      Reports leakyNamespaces (Leaks "/var/c") lines ∧
      Reports leakyNamespaces (fun _ => True) lines' ∧
      listedBy leakyNamespaces sampleFlag = [⟨4, 10⟩, ⟨4, 11⟩] := by
  have hid : ∀ mountns ∈ leakyNamespaces, mountns.nsId.isSome = true := by decide
  obtain ⟨⟨lines, hlines, h⟩, lines', hlines', h'⟩ := flags_reported .logging "/var/c" hid
  exact ⟨lines, lines', hlines, hlines', h, h', by decide⟩

/-! ## Allowed locations -/

section

variable {namespaces : List MountNamespace}

/-- The location of the flag is allowed. -/
def Allowed (allowed : List PathBuf) (flag : String) : Prop :=
  ∃ allow ∈ allowed, Path.Below flag allow

instance (allowed : List PathBuf) (flag : String) : Decidable (Allowed allowed flag) :=
  inferInstanceAs (Decidable (∃ allow ∈ allowed, _))

/-- The report leaves out the lines for flags in allowed locations, and only these. -/
def HonoursAllowed (env : Env) (allowed : List PathBuf) (namespaces : List MountNamespace)
    (root : PathBuf) : Prop :=
  ∃ flags lines, Selects namespaces (Leaks root) flags ∧
    doCheckFlagsHost env [] namespaces root =
      .ok (flags.map fun flag => flagLine flag (listedBy namespaces flag)) ∧
    doCheckFlagsHost env allowed namespaces root = .ok lines ∧
    lines.Perm ((flags.filter fun flag => ¬ Allowed allowed flag).map fun flag =>
      flagLine flag (listedBy namespaces flag))

/-- The allowed locations have no effect. -/
theorem doCheckFlagsHost_allowed (env : Env) (allowed : List PathBuf)
    (namespaces : List MountNamespace) (root : PathBuf) :
    doCheckFlagsHost env allowed namespaces root = doCheckFlagsHost env [] namespaces root := rfl

/-- The report leaves out the flags in allowed locations exactly when there are none. -/
theorem honoursAllowed_iff (env : Env) (allowed : List PathBuf) (root : PathBuf)
    (hid : ∀ mountns ∈ namespaces, mountns.nsId.isSome = true) :
    HonoursAllowed env allowed namespaces root ↔
      ∀ flag, Leaks root flag → Listed namespaces flag → ¬ Allowed allowed flag := by
  constructor
  · rintro ⟨flags, lines, hflags, hplain, hlines, hperm⟩ flag hl hlisted
    rw [doCheckFlagsHost_allowed] at hlines
    obtain rfl := Outcome.ok_unique hplain hlines
    have hlen := hperm.length_eq
    rw [List.length_map, List.length_map, eq_comm, List.length_filter_eq_length_iff] at hlen
    simpa using hlen flag ((hflags.mem_iff flag).mpr ⟨hl, hlisted⟩)
  · intro h
    obtain ⟨lines, hlines, flags, hflags, rfl⟩ := doCheckFlagsHost_reports env [] root hid
    refine ⟨flags, _, hflags, hlines, hlines, ?_⟩
    rw [List.filter_eq_self.mpr]
    intro flag hflag
    obtain ⟨hl, hlisted⟩ := (hflags.mem_iff flag).mp hflag
    simpa using h flag hl hlisted

theorem honoursAllowed_iff_leakyNamespaces :
    HonoursAllowed .logging ["/mnt"] leakyNamespaces "/var/c" := by
  apply (honoursAllowed_iff .logging ["/mnt"] "/var/c" (by decide)).mpr
  have hnone : ∀ mountns ∈ leakyNamespaces, ∀ flag ∈ mountns.flagFiles,
      ¬ Allowed ["/mnt"] flag := by decide
  rintro flag - ⟨mountns, hm, hf⟩
  exact hnone mountns hm flag hf

theorem leakyNamespaces_not_honoured :
    doCheckFlagsHost .logging ["/srv"] leakyNamespaces "/var/c" =
        .ok [flagLine sampleFlag [⟨4, 10⟩, ⟨4, 11⟩]] ∧
      Path.Below sampleFlag "/srv" ∧
      ¬ HonoursAllowed .logging ["/srv"] leakyNamespaces "/var/c" := by
  have hlines : doCheckFlagsHost .logging ["/srv"] leakyNamespaces "/var/c" =
      .ok [flagLine sampleFlag [⟨4, 10⟩, ⟨4, 11⟩]] := by decide +kernel
  have hall : ∀ mountns ∈ leakyNamespaces, ∀ flag ∈ mountns.flagFiles,
      Allowed ["/srv"] flag := by decide
  refine ⟨hlines, by decide, ?_⟩
  rintro ⟨flags, lines, hflags, -, hlines', hperm⟩
  obtain rfl := Outcome.ok_unique hlines hlines'
  -- all flags are in the allowed location, so that no line should be left
  have hnil : (flags.filter fun flag => ¬ Allowed ["/srv"] flag) = [] := by
    rw [List.filter_eq_nil_iff]
    intro flag hflag
    obtain ⟨-, mountns, hm, hf⟩ := (hflags.mem_iff flag).mp hflag
    simpa using hall mountns hm flag hf
  rw [hnil] at hperm
  exact List.cons_ne_nil _ _ hperm.eq_nil

end

end Checkc

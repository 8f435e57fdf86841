import Checkc.CConfig.Cgroup
import Checkc.Rust.Words

/-! # Layouts of control groups

A process is in one group of each hierarchy. There is only the hierarchy of version 2, or there are
hierarchies of version 1, with or without it. Version 2 is recognised by the count of the lines,
and the prefix of its only line is then taken for granted.
-/

namespace Checkc.Cgroup

open Outcome (bind_eq_ok pure_eq_ok)

/-- The path of a group after its first separator. -/
abbrev GroupPath := { path : List Char // path.head? ≠ some '/' }

/-- A line of `/proc/<pid>/cgroup`. The path is `none` when it is not valid text. -/
inductive GroupLine where
  | v1 (id : ℕ) (controllers : List Char) (path : Option GroupPath) (id_pos : 0 < id)
  | v2 (path : Option GroupPath)

/-- The text of a line, if it is valid. -/
def GroupLine.text : GroupLine → Option (List Char)
  | v1 id controllers path _ => path.map fun path =>
      Nat.toDigits 10 id ++ ':' :: (controllers ++ ':' :: '/' :: path.1)
  | v2 path => path.map fun path => "0::/".toList ++ path.1

/-- A line as it is read. -/
def GroupLine.answer (line : GroupLine) : Except Errno String :=
  match line.text with
  | some text => .ok (String.ofList (chomp text))
  | none => .error .EILSEQ

/-- The call returns a value or an error of the system. -/
def Answered {α : Type} (r : Result α) : Prop := ∃ x : Except Errno α, r = ioResult x

theorem Answered.returns {α : Type} {r : Result α} (h : Answered r) : r.Returns := by
  obtain ⟨x, rfl⟩ := h
  exact returns_ioResult x

theorem Answered.ne_cgroupError {α : Type} {r : Result α} (h : Answered r) :
    r ≠ .err .cgroupError := by
  obtain ⟨x, rfl⟩ := h
  cases x <;> nofun

/-! ## Limits -/

theorem answered_askCpuMax (sys : System) (path : List Path.Component) :
    Answered (askCpuMax sys path) := by
  unfold askCpuMax
  cases sys.firstLine (file path "cpu.max") with
  | error e => exact ⟨.ok none, rfl⟩
  | ok line =>
    cases line with
    | error e => exact ⟨.error e, rfl⟩
    | ok content => exact ⟨.ok (some content), rfl⟩

theorem answered_askMemoryMax (sys : System) (path : List Path.Component) :
    Answered (askMemoryMax sys path) := by
  unfold askMemoryMax
  cases sys.firstLine (file path "memory.max") with
  | error e => exact ⟨.ok none, rfl⟩
  | ok line =>
    cases line with
    | error e => exact ⟨.error e, rfl⟩
    | ok content =>
      simp only [ioResult, Outcome.ok_bind]
      split_ifs
      · exact ⟨.ok (some content), rfl⟩
      · exact ⟨.ok none, rfl⟩

/-- A climb to the root comes to an end and never steps up from the root of the file system. -/
theorem answered_climb {ask : List Path.Component → Result (Option String)}
    (hask : ∀ path, Answered (ask path)) {path : List Path.Component} {fuel : ℕ}
    (hpath : .rootDir ∉ path) (hf : path.length < fuel) :
    Answered (climb ask fuel (root ++ path)) := by
  induction path using List.reverseRecOn generalizing fuel with
  | nil =>
    obtain ⟨fuel, rfl⟩ : ∃ n, fuel = n + 1 := ⟨fuel - 1, by omega⟩
    rw [climb, List.append_nil, if_pos rfl]
    exact ⟨.ok "", rfl⟩
  | append_singleton path c ih =>
    rw [List.length_append, List.length_singleton] at hf
    obtain ⟨fuel, rfl⟩ : ∃ n, fuel = n + 1 := ⟨fuel - 1, by omega⟩
    rw [List.mem_append, not_or, List.mem_singleton] at hpath
    have hne : root ++ (path ++ [c]) ≠ root := by simp
    have hparent : Path.parent (root ++ (path ++ [c])) = some (root ++ path) := by
      rw [← List.append_assoc]
      exact Path.parent_concat (Ne.symm hpath.2)
    rw [climb, if_neg hne]
    obtain ⟨x, hx⟩ := hask (root ++ (path ++ [c]))
    rw [hx]
    cases x with
    | error e => exact ⟨.error e, rfl⟩
    | ok limit =>
      cases limit with
      | some content => exact ⟨.ok content, rfl⟩
      | none =>
        simp only [ioResult, Outcome.ok_bind, hparent, unwrap_some]
        exact ih hpath.1 (by omega)

/-! ## Layouts -/

section

variable {sys : System} {pid : PidT} {content : List GroupLine}

/-- The lines that are valid text. -/
theorem readable_answers (content : List GroupLine) :
    (content.map GroupLine.answer).filterMap Except.toOption =
      (content.filterMap GroupLine.text).map fun text => String.ofList (chomp text) := by
  rw [List.filterMap_map, List.map_filterMap]
  apply List.filterMap_congr
  intro line _
  rw [Function.comp_apply, GroupLine.answer]
  cases line.text <;> rfl

/-- The number of a hierarchy of version 1 is not zero, so that its lines have another prefix. -/
theorem dropPrefix?_v1 {id : ℕ} (hid : 0 < id) (t : List Char) :
    (chomp (Nat.toDigits 10 id ++ ':' :: t)).dropPrefix? "0::/".toList = none := by
  have hsep : (Nat.toDigits 10 id ++ [':']).getLast? ≠ some '\r' := by simp
  rw [List.append_cons, chomp_append hsep, ← List.append_cons,
    Option.eq_none_iff_forall_not_mem]
  intro s hs
  obtain ⟨p, hp, hprefix⟩ := List.dropPrefix?_eq_some_iff.mp hs
  obtain rfl := eq_of_beq hprefix
  have hcolon : ':' ∉ Nat.toDigits 10 id := not_mem_toDigits (by decide) (by decide) (by decide)
  have hsplit : Nat.toDigits 10 id ++ ':' :: chomp t = ['0'] ++ ':' :: (':' :: '/' :: s) := hp
  rw [append_cons_inj hcolon (by decide)] at hsplit
  have hzero : id = 0 := by
    rw [← Nat.ofDigitChars_ten_toDigits (n := id), hsplit.1]
    rfl
  omega

theorem dropPrefix?_v2 (path : List Char) :
    (chomp ("0::/".toList ++ path)).dropPrefix? "0::/".toList = some (chomp path) := by
  have hprefix : "0::/".toList.getLast? ≠ some '\r' := by decide
  rw [chomp_append hprefix]
  exact List.dropPrefix?_append_of_beq _ (by rfl)

/-- What `get_cgroup` does: it returns the error unless a single line is valid text, it takes the
path of a line of version 2, and it panics for one of version 1. -/
theorem getCgroup_cases (h : sys.cgroup pid = .ok (content.map GroupLine.answer)) :
    ((content.filterMap GroupLine.text).length ≠ 1 ∧ getCgroup sys pid = .err .cgroupError) ∨
    (∃ path, .v2 (some path) ∈ content ∧ (content.filterMap GroupLine.text).length = 1 ∧
      getCgroup sys pid = .ok (String.ofList (chomp path.1))) ∨
    (∃ id controllers path id_pos, .v1 id controllers (some path) id_pos ∈ content ∧
      (content.filterMap GroupLine.text).length = 1 ∧
      getCgroup sys pid = .panic "called `Option::unwrap()` on a `None` value") := by
  have hmem : ∀ text ∈ content.filterMap GroupLine.text, ∃ line ∈ content, line.text = some text :=
    fun text => List.mem_filterMap.mp
  rw [getCgroup, h, ioResult, Outcome.ok_bind, readable_answers]
  generalize content.filterMap GroupLine.text = texts at hmem ⊢
  rcases texts with _ | ⟨text, _ | ⟨text', texts⟩⟩
  · exact Or.inl ⟨by simp, rfl⟩
  · obtain ⟨line, hline, htext⟩ := hmem text List.mem_cons_self
    right
    cases line with
    | v1 id controllers path hid =>
      obtain ⟨path, rfl, rfl⟩ := Option.map_eq_some_iff.mp htext
      refine Or.inr ⟨id, controllers, path, hid, hline, rfl, ?_⟩
      simp only [List.map_cons, List.map_nil, String.toList_ofList, dropPrefix?_v1 hid]
      rfl
    | v2 path =>
      obtain ⟨path, rfl, rfl⟩ := Option.map_eq_some_iff.mp htext
      refine Or.inl ⟨path, hline, rfl, ?_⟩
      simp only [List.map_cons, List.map_nil, String.toList_ofList, dropPrefix?_v2]
      rfl
  · exact Or.inl ⟨by simp, rfl⟩

/-- Both limits are looked for in the group that `get_cgroup` returns. -/
theorem exists_answered {path : GroupPath}
    (h : getCgroup sys pid = .ok (String.ofList (chomp path.1))) :
    ∃ N, ∀ fuel ≥ N, Answered (getCpuMax sys fuel pid) ∧ Answered (getMemoryMax sys fuel pid) := by
  have hroot : .rootDir ∉ ((chomp path.1).splitOn '/').filterMap Path.component :=
    Path.rootDir_not_mem_filterMap _
  refine ⟨(((chomp path.1).splitOn '/').filterMap Path.component).length + 1, fun fuel hf => ?_⟩
  rw [getCpuMax, getMemoryMax, h, Outcome.ok_bind, Outcome.ok_bind,
    components_groupPath_of_head (head?_chomp_ne path.2)]
  exact ⟨answered_climb (answered_askCpuMax sys) hroot hf,
    answered_climb (answered_askMemoryMax sys) hroot hf⟩

/-- Every layout but that of a single line of version 2 is reported with the error for it, by each
function and without a panic. -/
def Reported (sys : System) (pid : PidT) (content : List GroupLine) : Prop :=
  ∃ N, ∀ fuel ≥ N, ∀ r ∈ [getCgroup sys pid, getCpuMax sys fuel pid, getMemoryMax sys fuel pid],
    r.Returns ∧ (r = .err .cgroupError ↔ ¬ ∃ path, content = [.v2 path])

theorem reported_iff_of_err (hg : getCgroup sys pid = .err .cgroupError) :
    Reported sys pid content ↔ ¬ ∃ path, content = [.v2 path] := by
  have hcpu : ∀ fuel, getCpuMax sys fuel pid = .err .cgroupError := by
    intro fuel
    rw [getCpuMax, hg]
    rfl
  have hmemory : ∀ fuel, getMemoryMax sys fuel pid = .err .cgroupError := by
    intro fuel
    rw [getMemoryMax, hg]
    rfl
  constructor
  · rintro ⟨N, hN⟩
    exact (hN N le_rfl _ List.mem_cons_self).2.mp hg
  · intro hne
    refine ⟨0, fun fuel _ r hr => ?_⟩
    obtain rfl : r = .err .cgroupError := by simpa [hg, hcpu, hmemory] using hr
    exact ⟨trivial, iff_of_true rfl hne⟩

theorem reported_iff_of_ok {path : GroupPath}
    (hg : getCgroup sys pid = .ok (String.ofList (chomp path.1))) :
    Reported sys pid content ↔ ∃ path, content = [.v2 path] := by
  constructor
  · rintro ⟨N, hN⟩
    by_contra hne
    cases hg.symm.trans ((hN N le_rfl _ List.mem_cons_self).2.mpr hne)
  · intro hv2
    obtain ⟨N, hN⟩ := exists_answered hg
    refine ⟨N, fun fuel hf r hr => ?_⟩
    have hanswered : Answered r := by
      simp only [List.mem_cons, List.not_mem_nil, or_false] at hr
      obtain rfl | rfl | rfl := hr
      · exact ⟨.ok _, hg⟩
      · exact (hN fuel hf).1
      · exact (hN fuel hf).2
    exact ⟨hanswered.returns, iff_of_false hanswered.ne_cgroupError fun hne => hne hv2⟩

/-- The layout is reported as it should if and only if the only line is one of version 2 with a
path that is valid text, or there are other lines and not a single one of them is valid text. -/
theorem reported_iff (h : sys.cgroup pid = .ok (content.map GroupLine.answer)) :
    Reported sys pid content ↔
      (∃ path, content = [.v2 (some path)]) ∨
        ((¬ ∃ path, content = [.v2 path]) ∧ (content.filterMap GroupLine.text).length ≠ 1) := by
  rcases getCgroup_cases h with ⟨hlen, hg⟩ | ⟨path, hmem, hlen, hg⟩ |
    ⟨id, controllers, path, hid, hmem, hlen, hg⟩
  · rw [reported_iff_of_err hg]
    constructor
    · exact fun hne => Or.inr ⟨hne, hlen⟩
    · rintro (⟨path, rfl⟩ | ⟨hne, -⟩)
      · exact absurd rfl hlen
      · exact hne
  · rw [reported_iff_of_ok hg]
    constructor
    · rintro ⟨path', rfl⟩
      exact Or.inl ⟨path, congrArg (fun line => [line]) (List.mem_singleton.mp hmem).symm⟩
    · rintro (⟨path', hcontent⟩ | ⟨-, hne⟩)
      · exact ⟨_, hcontent⟩
      · exact absurd hlen hne
  · constructor
    · rintro ⟨N, hN⟩
      have hreturns := (hN N le_rfl _ List.mem_cons_self).1
      rw [hg] at hreturns
      exact hreturns.elim
    · rintro (⟨path', rfl⟩ | ⟨-, hne⟩)
      · simp at hmem
      · exact absurd hlen hne

end

/-- What a system answers about a process whose groups are in these lines. No limit is set. -/
def systemWith (content : List GroupLine) : System where
  cgroup _ := .ok (content.map GroupLine.answer)
  controllers _ := .error .ENOENT
  firstLine _ := .error .ENOENT

/-- The line of the hierarchy that `systemd` mounts for itself. -/
def systemdLine : GroupLine :=
  .v1 1 "name=systemd".toList (some ⟨"user.slice".toList, by decide⟩) (by decide)

/-- A host with hierarchies of both versions is reported. -/
theorem reported_iff_hybrid :
    Reported (systemWith [systemdLine, .v2 (some ⟨"user.slice".toList, by decide⟩)]) 7
      [systemdLine, .v2 (some ⟨"user.slice".toList, by decide⟩)] := by
  apply (reported_iff rfl).mpr
  refine Or.inr ⟨?_, by decide⟩
  rintro ⟨path, hcontent⟩
  cases hcontent

/-- A host with a single hierarchy of version 1 is not reported, but each function panics. -/
theorem systemdLine_not_reported :
    systemdLine.answer = .ok "1:name=systemd:/user.slice" ∧
      (∃ message, ∀ r ∈ [getCgroup (systemWith [systemdLine]) 7,
        getCpuMax (systemWith [systemdLine]) 1 7, getMemoryMax (systemWith [systemdLine]) 1 7],
          r = .panic message) ∧
      ¬ Reported (systemWith [systemdLine]) 7 [systemdLine] := by
  have hpanic : getCgroup (systemWith [systemdLine]) 7 =
      .panic "called `Option::unwrap()` on a `None` value" := by decide +kernel
  refine ⟨by decide, ⟨"called `Option::unwrap()` on a `None` value", ?_⟩, ?_⟩
  · rw [getCpuMax, getMemoryMax, hpanic]
    simp
  · rintro ⟨N, hN⟩
    have hreturns := (hN N le_rfl _ List.mem_cons_self).1
    rw [hpanic] at hreturns
    exact hreturns

end Checkc.Cgroup

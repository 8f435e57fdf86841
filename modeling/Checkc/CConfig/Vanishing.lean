import Checkc.CConfig.ContainerPids
import Mathlib.Data.List.Infix

/-! # Processes that vanish during a scan

Each read of a scan may find that a process is gone, and the name of a process is any sequence of
bytes. A process that is gone before its file is opened is passed over. One that is gone after
that, or whose name is no text, ends the scan, and so does one whose id maps are gone. If they are
gone while they are read, then the scan does not end.
-/

namespace Checkc

open Outcome (bind_eq_ok pure_eq_ok)

open Regex

/-! ## Stat files -/

/-- `read_to_string`. -/
def readToString (bytes : ByteArray) : Except Errno String :=
  match String.fromUTF8? bytes with
  | some text => .ok text
  | none => .error .EILSEQ

/-- The bytes of a text. -/
def asBytes (l : List Char) : ByteArray := (String.ofList l).toUTF8

theorem asBytes_append (l l' : List Char) : asBytes (l ++ l') = asBytes l ++ asBytes l' := by
  rw [asBytes, String.ofList_append]
  rfl

theorem readToString_asBytes (l : List Char) :
    readToString (asBytes l) = .ok (String.ofList l) := by
  have h : (asBytes l).IsValidUTF8 := ⟨l, rfl⟩
  rw [readToString, String.fromUTF8?, dif_pos h]
  rfl

/-- What the kernel prints in a stat file after the process id. The name of a process is not
restricted. -/
structure StatEntry where
  name : ByteArray
  state : Char
  parent : PidT
  rest : List Char
  state_alpha : state.isAlpha = true
  parent_range : 0 ≤ parent ∧ parent ≤ 2147483647
  rest_plain : rest.head? = some ' ' ∧ ')' ∉ rest

/-- The bytes of a stat file. -/
def StatEntry.bytes (e : StatEntry) (pid : PidT) : ByteArray :=
  asBytes (Nat.toDigits 10 pid.toNat ++ [' ', '(']) ++ e.name ++
    asBytes (')' :: ' ' :: e.state :: ' ' :: (Nat.toDigits 10 e.parent.toNat ++ e.rest))

/-- What a scan sees of a process: it is gone, it is gone after its file is opened, or its file
is read. -/
inductive Seen where
  | gone
  | vanished
  | stat (e : StatEntry)

/-- The answer of the system about a stat file. -/
def Seen.answer (pid : PidT) : Seen → StatAnswer
  | gone => .error .ENOENT
  | vanished => .ok (.error .ESRCH)
  | stat e => .ok (readToString (e.bytes pid))

/-- The number that the pattern reads as the parent. -/
def readPpid (text : String) : Option PidT :=
  (search regexProcStat text.toList).bind fun m => (m.get "ppid").bind Ns.parsePid

/-- The process is gone before its file is opened, or else its file is read as text, and the pattern
finds a number that fits in it. -/
def Seen.Legible (pid : PidT) (s : Seen) : Prop :=
  s = gone ∨ ∃ e text, s = stat e ∧ readToString (e.bytes pid) = .ok text ∧ readPpid text ≠ none

/-- The name of the process is a text without a line end. -/
def StatEntry.Plain (e : StatEntry) : Prop := ∃ name, e.name = asBytes name ∧ '\n' ∉ name

/-- The pattern reads the parent of a process whose name has no line end. -/
theorem StatEntry.readPpid_bytes {e : StatEntry} {name : List Char} (pid : PidT)
    (hname : e.name = asBytes name) (hn : '\n' ∉ name) :
    ∃ text, readToString (e.bytes pid) = .ok text ∧ readPpid text = some e.parent := by
  have hbytes : e.bytes pid = asBytes (Nat.toDigits 10 pid.toNat ++ ' ' :: '(' :: (name ++
      ')' :: ' ' :: e.state :: ' ' :: (Nat.toDigits 10 e.parent.toNat ++ e.rest))) := by
    rw [bytes, hname, ← asBytes_append, ← asBytes_append]
    simp
  refine ⟨_, hbytes ▸ readToString_asBytes _, ?_⟩
  rw [readPpid, String.toList_ofList]
  exact ppid_of_name hn e.state_alpha e.parent_range e.rest_plain

/-! ## Climbs -/

/-- Climbing leads to the process `c`. Where it leads from a process may change between rounds. -/
inductive Reaches (next : ℕ → PidT → Option PidT) (c : PidT) : ℕ → PidT → Prop
  | parent {i : ℕ} {q : PidT} : 1 < q → next i q = some c → Reaches next c i q
  | climb {i : ℕ} {q r : PidT} : 1 < q → next i q = some r → Reaches next c (i + 1) r →
      Reaches next c i q

/-- The parents of processes, as far as their stat files stay readable. -/
def parents (seen : ℕ → PidT → Seen) (i : ℕ) (q : PidT) : Option PidT :=
  match seen i q with
  | .stat e => some e.parent
  | _ => none

/-- The numbers that are read as parents. -/
def reads (seen : ℕ → PidT → Seen) (i : ℕ) (q : PidT) : Option PidT :=
  match (seen i q).answer q with
  | .ok (.ok text) => readPpid text
  | _ => none

/-- Climbing from the process `p` comes to a process in some round, and not by way of `c`. -/
inductive Visits (next : ℕ → PidT → Option PidT) (c p : PidT) : ℕ → PidT → Prop
  | start : Visits next c p 0 p
  | next {i : ℕ} {q r : PidT} : Visits next c p i q → 1 < q → next i q = some r → r ≠ c →
      Visits next c p (i + 1) r

section

variable {next next' : ℕ → PidT → Option PidT} {c p q r : PidT} {i : ℕ}

theorem reaches_iff : Reaches next c i q ↔
    1 < q ∧ ∃ r, next i q = some r ∧ (r = c ∨ Reaches next c (i + 1) r) := by
  constructor
  · rintro (⟨hq, hc⟩ | ⟨hq, hr, h⟩)
    · exact ⟨hq, c, hc, Or.inl rfl⟩
    · exact ⟨hq, _, hr, Or.inr h⟩
  · rintro ⟨hq, r, hr, rfl | h⟩
    · exact .parent hq hr
    · exact .climb hq hr h

/-- Where a climb leads depends on its own round and on later ones. -/
theorem Reaches.congr (h : Reaches next c i q) (hq : next' i q = next i q)
    (hlater : ∀ j, i < j → ∀ x, next' j x = next j x) : Reaches next' c i q := by
  induction h with
  | parent hlt hc => exact .parent hlt (hq.trans hc)
  | @climb i q r hlt hr _ ih =>
    refine .climb hlt (hq.trans hr) (ih (hlater _ (Nat.lt_succ_self i) r) fun j hj => ?_)
    exact hlater j (Nat.lt_of_succ_lt hj)

/-- Where a climb comes to depends on earlier rounds. -/
theorem Visits.congr (h : Visits next c p i q) (hnext : ∀ j < i, ∀ x, next' j x = next j x) :
    Visits next' c p i q := by
  induction h with
  | start => exact .start
  | @next i q r _ hlt hr hc ih =>
    refine .next (ih fun j hj => hnext j (Nat.lt_succ_of_lt hj)) hlt ?_ hc
    exact (hnext i (Nat.lt_succ_self i) q).trans hr

/-- A climb leads on from where it comes to. -/
theorem Visits.reaches (h : Visits next c p i q) (hr : Reaches next c i q) :
    Reaches next c 0 p := by
  induction h with
  | start => exact hr
  | next _ hlt hnext _ ih => exact ih (.climb hlt hnext hr)

end

section

variable {seen : ℕ → PidT → Seen} {c p q r : PidT} {b : Bool} {fuel i : ℕ}

theorem reads_eq_none_of_gone (h : seen i q = .gone) : reads seen i q = none := by
  rw [reads, h]
  rfl

/-- A number is read in a file that is opened and legible, and in no other one. -/
theorem legible_iff : (seen i q).Legible q ↔ seen i q = .gone ∨ ∃ r, reads seen i q = some r := by
  unfold Seen.Legible reads
  refine or_congr_right ?_
  cases hs : seen i q with
  | gone => simp [Seen.answer]
  | vanished => simp [Seen.answer]
  | stat e =>
    simp only [Seen.answer, Seen.stat.injEq, exists_and_left, exists_eq_left']
    cases readToString (e.bytes q) with
    | error errno => simp
    | ok text => simp [Option.ne_none_iff_exists']

/-- What a round of a climb can do. -/
theorem climb_succ_eq_ok :
    climb (fun i q => (seen i q).answer q) c (fuel + 1) i q = .ok b ↔
      (b = false ∧ (q ≤ 1 ∨ seen i q = .gone)) ∨
      (1 < q ∧ ∃ r, reads seen i q = some r ∧ (r = c ∧ b = true ∨
        r ≠ c ∧ climb (fun i q => (seen i q).answer q) c fuel (i + 1) r = .ok b)) := by
  rw [climb]
  by_cases hq : 1 < q
  · rw [if_pos hq]
    cases hs : seen i q with
    | gone => simp [Seen.answer, reads, hs, pure_eq_ok, eq_comm]
    | vanished => simp [Seen.answer, reads, hs, mapIoError, hq]
    | stat e =>
      cases ht : readToString (e.bytes q) with
      | error errno => simp [Seen.answer, reads, hs, ht, mapIoError, hq]
      | ok text =>
        simp only [Seen.answer, reads, hs, ht, mapIoError, Outcome.ok_bind, bind_eq_ok,
          parsePpid_eq_ok, hq, true_and, reduceCtorEq, or_false, not_le.mpr hq, and_false, false_or]
        refine exists_congr fun r => and_congr_right fun _ => ?_
        by_cases hc : r = c
        · simp [hc, pure_eq_ok, eq_comm]
        · simp [hc]
  · rw [if_neg hq]
    simp [hq, not_lt.mp hq, eq_comm]

/-- A climb that ends goes through all processes that it comes to. -/
theorem climb_of_visits (h : climb (fun i q => (seen i q).answer q) c fuel 0 p = .ok b)
    (hv : Visits (reads seen) c p i q) : ∃ fuel',
      climb (fun i q => (seen i q).answer q) c fuel' i q = .ok b ∧ fuel' + i = fuel := by
  induction hv with
  | start => exact ⟨fuel, h, rfl⟩
  | @next i q r _ hlt hr hc ih =>
    obtain ⟨fuel', hok, hsum⟩ := ih
    cases fuel' with
    | zero => cases hok
    | succ fuel' =>
      rcases climb_succ_eq_ok.mp hok with ⟨-, hq | hq⟩ | ⟨-, r', hr', hcase⟩
      · exact absurd hlt (not_lt.mpr hq)
      · cases (reads_eq_none_of_gone hq).symm.trans hr
      · obtain rfl := Option.some.inj (hr.symm.trans hr')
        exact ⟨fuel', (hcase.resolve_left fun hcr => hc hcr.1).2, by omega⟩

/-- A climb that ends opens no file that is not legible. -/
theorem legible_of_climb (h : climb (fun i q => (seen i q).answer q) c fuel 0 p = .ok b)
    (hv : Visits (reads seen) c p i q) (hlt : 1 < q) : (seen i q).Legible q := by
  obtain ⟨fuel', hok, -⟩ := climb_of_visits h hv
  cases fuel' with
  | zero => cases hok
  | succ fuel' =>
    rw [legible_iff]
    rcases climb_succ_eq_ok.mp hok with ⟨-, hq | hq⟩ | ⟨-, r, hr, -⟩
    · exact absurd hlt (not_lt.mpr hq)
    · exact Or.inl hq
    · exact Or.inr ⟨r, hr⟩

theorem not_visits_of_climb (h : climb (fun i q => (seen i q).answer q) c fuel 0 p = .ok b) :
    ¬ Visits (reads seen) c p fuel q := by
  intro hv
  obtain ⟨fuel', hok, hsum⟩ := climb_of_visits h hv
  obtain rfl : fuel' = 0 := by omega
  cases hok

/-- A climb that opens only legible files and comes to an end decides whether the numbers that it
reads lead to the process. -/
theorem exists_climb_of_legible
    (hlegible : ∀ i q, Visits (reads seen) c p i q → 1 < q → (seen i q).Legible q) {n : ℕ}
    (hend : ∀ q, ¬ Visits (reads seen) c p n q) : ∃ b,
      climb (fun i q => (seen i q).answer q) c n 0 p = .ok b ∧
        (b = true ↔ Reaches (reads seen) c 0 p) := by
  -- the fuel is the number of rounds that are left
  have hrest : ∀ fuel i q, i + fuel = n → Visits (reads seen) c p i q → ∃ b,
      climb (fun i q => (seen i q).answer q) c fuel i q = .ok b ∧
        (b = true ↔ Reaches (reads seen) c i q) := by
    intro fuel
    induction fuel with
    | zero => exact fun i q hsum hv => absurd (hsum ▸ hv) (hend q)
    | succ fuel ih =>
      intro i q hsum hv
      have hstop : q ≤ 1 ∨ seen i q = .gone → ¬ Reaches (reads seen) c i q := by
        intro hq h
        obtain ⟨hlt, r, hr, -⟩ := reaches_iff.mp h
        rcases hq with hq | hq
        · exact absurd hlt (not_lt.mpr hq)
        · cases (reads_eq_none_of_gone hq).symm.trans hr
      by_cases hq : q ≤ 1 ∨ seen i q = .gone
      · exact ⟨false, climb_succ_eq_ok.mpr (Or.inl ⟨rfl, hq⟩), iff_of_false nofun (hstop hq)⟩
      rw [not_or, not_le] at hq
      obtain ⟨r, hr⟩ := (legible_iff.mp (hlegible i q hv hq.1)).resolve_left hq.2
      by_cases hc : r = c
      · obtain rfl := hc
        exact ⟨true, climb_succ_eq_ok.mpr (Or.inr ⟨hq.1, r, hr, Or.inl ⟨rfl, rfl⟩⟩),
          iff_of_true rfl (.parent hq.1 hr)⟩
      · obtain ⟨b, hb, hiff⟩ := ih (i + 1) r (by omega) (.next hv hq.1 hr hc)
        refine ⟨b, climb_succ_eq_ok.mpr (Or.inr ⟨hq.1, r, hr, Or.inr ⟨hc, hb⟩⟩), hiff.trans ?_⟩
        rw [reaches_iff (q := q)]
        simp [hq.1, hr, hc]
  exact hrest n 0 p (Nat.zero_add n) .start

/-- The numbers that are read are the parents if all names are texts without line ends. -/
theorem reads_eq_parents (h : ∀ i q e, seen i q = .stat e → e.Plain) :
    reads seen = parents seen := by
  funext i q
  unfold reads parents
  cases hs : seen i q with
  | gone => rfl
  | vanished => rfl
  | stat e =>
    obtain ⟨name, hname, hn⟩ := h i q e hs
    obtain ⟨text, ht, hr⟩ := e.readPpid_bytes q hname hn
    simp only [Seen.answer, ht, hr]

end

/-! ## Scans -/

/-- A scan of the processes of a host. What is seen of a process in some round of the climb from
some process may differ from what is seen of it before. -/
structure Scan where
  procDir : Ns.ProcDir
  pids : List PidT
  seen : PidT → ℕ → PidT → Seen
  getPidList_eq : getPidList procDir = .ok pids

namespace Scan

/-- The answers of the system. -/
def stat (S : Scan) (p : PidT) (i : ℕ) (q : PidT) : StatAnswer := (S.seen p i q).answer q

/-- The scan when these processes are gone before their files are opened. -/
def without (S : Scan) (exits : PidT → ℕ → PidT → Bool) : Scan :=
  { S with seen := fun p i q => if exits p i q then .gone else S.seen p i q }

/-- Whatever processes are gone before their files are opened, the processes that are below `c` by
readable parents are found. -/
def FindsDescendants (S : Scan) (c : PidT) : Prop :=
  ∀ exits, ∃ N, ∀ fuel ≥ N, ∃ l,
    getContainerPids fuel S.procDir (S.without exits).stat c = .ok l ∧
      ∀ p ∈ S.pids, Reaches (parents ((S.without exits).seen p)) c 0 p → p ∈ l

/-- What is seen in the climb from a process does not end the scan, and does not lead it away from
`c`: each file that is opened is legible, the climb comes to an end, and if the process is below
`c`, then each file shows the real parent, or `c` itself. -/
structure Clear (S : Scan) (c p : PidT) : Prop where
  legible : ∀ i q, Visits (reads (S.seen p)) c p i q → 1 < q → (S.seen p i q).Legible q
  ends : ∃ n, ∀ q, ¬ Visits (reads (S.seen p)) c p n q
  shows_parent : p ≠ c → Reaches (parents (S.seen p)) c 0 p →
    ∀ i q, Visits (reads (S.seen p)) c p i q →
      reads (S.seen p) i q = some c ∨ reads (S.seen p) i q = parents (S.seen p) i q

variable {S : Scan} {c p q r : PidT} {exits : PidT → ℕ → PidT → Bool} {i : ℕ}

theorem reads_without (S : Scan) (exits : PidT → ℕ → PidT → Bool) (p : PidT) (i : ℕ) (q : PidT) :
    reads ((S.without exits).seen p) i q =
      if exits p i q then none else reads (S.seen p) i q := by
  unfold reads without
  dsimp only
  split_ifs <;> rfl

theorem parents_without (S : Scan) (exits : PidT → ℕ → PidT → Bool) (p : PidT) (i : ℕ) (q : PidT) :
    parents ((S.without exits).seen p) i q =
      if exits p i q then none else parents (S.seen p) i q := by
  unfold parents without
  dsimp only
  split_ifs <;> rfl

theorem visits_of_without (h : Visits (reads ((S.without exits).seen p)) c p i q) :
    Visits (reads (S.seen p)) c p i q := by
  induction h with
  | start => exact .start
  | next _ hlt hr hc ih =>
    rw [reads_without] at hr
    split_ifs at hr
    exact .next ih hlt hr hc

theorem reaches_of_without (h : Reaches (parents ((S.without exits).seen p)) c i q) :
    Reaches (parents (S.seen p)) c i q := by
  induction h with
  | parent hlt hc =>
    rw [parents_without] at hc
    split_ifs at hc
    exact .parent hlt hc
  | climb hlt hr _ ih =>
    rw [parents_without] at hr
    split_ifs at hr
    exact .climb hlt hr ih

/-- A process that is gone before its file is opened does no harm. -/
theorem Clear.without (h : S.Clear c p) (exits : PidT → ℕ → PidT → Bool) :
    (S.without exits).Clear c p where
  legible i q hv hlt := by
    have hq := h.legible i q (visits_of_without hv) hlt
    rw [legible_iff] at hq ⊢
    rw [reads_without]
    by_cases hexit : exits p i q = true
    · exact Or.inl (if_pos hexit)
    · rw [if_neg hexit]
      exact hq.imp_left fun hgone => (if_neg hexit).trans hgone
  ends := by
    obtain ⟨n, hn⟩ := h.ends
    exact ⟨n, fun q hv => hn q (visits_of_without hv)⟩
  shows_parent hc hr i q hv := by
    have hq := h.shows_parent hc (reaches_of_without hr) i q (visits_of_without hv)
    rw [reads_without, parents_without]
    split_ifs
    · exact Or.inr rfl
    · exact hq

/-- If the files show the parents, then the numbers that are read lead where the parents do. -/
theorem Clear.reaches (h : S.Clear c p) (hc : p ≠ c)
    (hr : Reaches (parents (S.seen p)) c 0 p) : Reaches (reads (S.seen p)) c 0 p := by
  have hrest : ∀ i q, Reaches (parents (S.seen p)) c i q → Visits (reads (S.seen p)) c p i q →
      Reaches (reads (S.seen p)) c i q := by
    intro i q hq
    induction hq with
    | @parent i q hlt hpar =>
      intro hv
      exact .parent hlt ((h.shows_parent hc hr i q hv).elim id fun he => he.trans hpar)
    | @climb i q r hlt hpar _ ih =>
      intro hv
      rcases h.shows_parent hc hr i q hv with hread | hread
      · exact .parent hlt hread
      rw [hpar] at hread
      by_cases hrc : r = c
      · exact .parent hlt (hrc ▸ hread)
      · exact .climb hlt hread (ih (.next hv hlt hread hrc))
  exact hrest 0 p hr .start

theorem findsDescendants_of_clear (h : ∀ p ∈ S.pids, S.Clear c p) : S.FindsDescendants c := by
  intro exits
  have hclear : ∀ p ∈ S.pids, (S.without exits).Clear c p := fun p hp => (h p hp).without exits
  obtain ⟨N, hN⟩ : ∃ N, ∀ fuel ≥ N, ∀ p ∈ S.pids, ∃ b,
      climb ((S.without exits).stat p) c fuel 0 p = .ok b ∧
        (b = true ↔ Reaches (reads ((S.without exits).seen p)) c 0 p) := by
    apply ProcTable.exists_bound
    intro p hp
    obtain ⟨N, hend⟩ := (hclear p hp).ends
    obtain ⟨b, hb, hiff⟩ := exists_climb_of_legible (hclear p hp).legible hend
    exact ⟨N, fun fuel hf => ⟨b, climb_mono hb hf, hiff⟩⟩
  refine ⟨N, fun fuel hf => ⟨_, (getContainerPids_eq_ok S.getPidList_eq).mpr ⟨fun p hp => ?_, rfl⟩,
    fun p hp hr => ?_⟩⟩
  · obtain ⟨b, hb, -⟩ := hN fuel hf p hp
    exact ⟨b, hb⟩
  · by_cases hc : p = c
    · exact hc ▸ List.mem_cons_self
    · obtain ⟨b, hb, hiff⟩ := hN fuel hf p hp
      rw [hiff.mpr ((hclear p hp).reaches hc hr)] at hb
      exact List.mem_cons_of_mem _ (List.mem_filter.mpr ⟨hp, decide_eq_true hb⟩)

/-- If the descendants are found, then each climb ends, and a descendant is reached. -/
theorem FindsDescendants.exists_climb (h : S.FindsDescendants c)
    (exits : PidT → ℕ → PidT → Bool) (hp : p ∈ S.pids) : ∃ fuel b,
      climb ((S.without exits).stat p) c fuel 0 p = .ok b ∧
        (p ≠ c → Reaches (parents ((S.without exits).seen p)) c 0 p → b = true) := by
  obtain ⟨N, hN⟩ := h exits
  obtain ⟨l, hl, hmem⟩ := hN N le_rfl
  obtain ⟨hall, rfl⟩ := (getContainerPids_eq_ok S.getPidList_eq).mp hl
  obtain ⟨b, hb⟩ := hall p hp
  refine ⟨N, b, hb, fun hc hr => ?_⟩
  have hp' := (List.mem_cons.mp (hmem p hp hr)).resolve_left hc
  rw [List.mem_filter, decide_eq_true_iff] at hp'
  exact Outcome.ok_unique hb hp'.2

theorem without_none (S : Scan) : S.without (fun _ _ _ => false) = S := rfl

/-- Only the process `r` is gone, in the round `i` of the climb from `p`. -/
def exitAt (p : PidT) (i : ℕ) (r : PidT) (p' : PidT) (j : ℕ) (x : PidT) : Bool :=
  decide (p' = p ∧ j = i ∧ x = r)

theorem exitAt_eq_false {j : ℕ} {x : PidT} (h : ¬ (j = i ∧ x = r)) : exitAt p i r p j x = false :=
  decide_eq_false fun he => h he.2

theorem parents_exitAt {j : ℕ} {x : PidT} (h : ¬ (j = i ∧ x = r)) :
    parents ((S.without (exitAt p i r)).seen p) j x = parents (S.seen p) j x := by
  rw [parents_without, exitAt_eq_false h]
  rfl

theorem reads_exitAt {j : ℕ} {x : PidT} (h : ¬ (j = i ∧ x = r)) :
    reads ((S.without (exitAt p i r)).seen p) j x = reads (S.seen p) j x := by
  rw [reads_without, exitAt_eq_false h]
  rfl

/-- The climb from `p` passes over a process that is gone when it comes to it. -/
theorem climb_of_exitAt {fuel : ℕ} {b : Bool}
    (hb : climb ((S.without (exitAt p i r)).stat p) c fuel 0 p = .ok b)
    (hv : Visits (reads ((S.without (exitAt p i r)).seen p)) c p i r) : b = false := by
  obtain ⟨fuel', hok, -⟩ := climb_of_visits hb hv
  have hgone : (S.without (exitAt p i r)).seen p i r = .gone :=
    if_pos (decide_eq_true ⟨rfl, rfl, rfl⟩)
  cases fuel' with
  | zero => cases hok
  | succ fuel' =>
    rcases climb_succ_eq_ok.mp hok with ⟨hfalse, -⟩ | ⟨-, x, hx, -⟩
    · exact hfalse
    · cases (reads_eq_none_of_gone hgone).symm.trans hx

/-- A file that shows another number than the parent leads the scan away from a descendant, as the
process with this number may be gone. -/
theorem FindsDescendants.shows_parent (h : S.FindsDescendants c) (hp : p ∈ S.pids) (hc : p ≠ c)
    (hv : Visits (reads (S.seen p)) c p i q) (hv' : Visits (parents (S.seen p)) c p i q)
    (hq : Reaches (parents (S.seen p)) c i q) :
    reads (S.seen p) i q = some c ∨ reads (S.seen p) i q = parents (S.seen p) i q := by
  obtain ⟨fuel, b, hb, -⟩ := h.exists_climb (fun _ _ _ => false) hp
  rw [without_none] at hb
  obtain ⟨hlt, r, hpar, hr⟩ := reaches_iff.mp hq
  rcases legible_iff.mp (legible_of_climb hb hv hlt) with hgone | ⟨r', hread⟩
  · rw [parents, hgone] at hpar
    cases hpar
  by_contra hne
  rw [not_or, hread, hpar] at hne
  have hrc : r' ≠ c := fun he => hne.1 (congrArg some he)
  have hrr : r ≠ r' := fun he => hne.2 (congrArg some he.symm)
  -- with the process gone that is shown, the climb still visits it, and `p` is still below `c`
  have hvisits : Visits (reads ((S.without (exitAt p (i + 1) r')).seen p)) c p (i + 1) r' :=
    .next (hv.congr fun j hj x => reads_exitAt (by omega)) hlt
      ((reads_exitAt (by omega)).trans hread) hrc
  have hreach : Reaches (parents ((S.without (exitAt p (i + 1) r')).seen p)) c 0 p := by
    refine (hv'.congr fun j hj x => parents_exitAt (by omega)).reaches ?_
    have hpar' : parents ((S.without (exitAt p (i + 1) r')).seen p) i q = some r :=
      (parents_exitAt (by omega)).trans hpar
    rcases hr with rfl | hr
    · exact .parent hlt hpar'
    · refine .climb hlt hpar' (hr.congr (parents_exitAt fun he => hrr he.2) fun j hj x => ?_)
      exact parents_exitAt (by omega)
  obtain ⟨fuel, b, hb, htrue⟩ := h.exists_climb (exitAt p (i + 1) r') hp
  exact Bool.false_ne_true ((climb_of_exitAt hb hvisits).symm.trans (htrue hc hreach))

theorem clear_of_findsDescendants (h : S.FindsDescendants c) (hp : p ∈ S.pids) : S.Clear c p := by
  obtain ⟨fuel, b, hb, -⟩ := h.exists_climb (fun _ _ _ => false) hp
  rw [without_none] at hb
  refine ⟨fun i q hv hlt => legible_of_climb hb hv hlt, ⟨fuel, fun q => not_visits_of_climb hb⟩,
    fun hc hr i q hv => ?_⟩
  -- as long as the files show the parents, the climb goes where these lead
  have hchain : Visits (parents (S.seen p)) c p i q ∧ Reaches (parents (S.seen p)) c i q := by
    induction hv with
    | start => exact ⟨.start, hr⟩
    | @next i q r hv hlt hread hrc ih =>
      have hpar := (h.shows_parent hp hc hv ih.1 ih.2).resolve_left fun he =>
        hrc (Option.some.inj (hread.symm.trans he))
      rw [hread] at hpar
      obtain ⟨-, r', hr', hrest⟩ := reaches_iff.mp ih.2
      obtain rfl := Option.some.inj (hpar.trans hr')
      exact ⟨.next ih.1 hlt hpar.symm hrc, hrest.resolve_left hrc⟩
  exact h.shows_parent hp hc hv hchain.1 hchain.2

/-- The descendants of a process are found if and only if each climb is clear. -/
theorem findsDescendants_iff (S : Scan) (c : PidT) :
    S.FindsDescendants c ↔ ∀ p ∈ S.pids, S.Clear c p :=
  ⟨fun h _ hp => clear_of_findsDescendants h hp, findsDescendants_of_clear⟩

end Scan

/-! ## Id maps -/

namespace UserNs

/-- What a scan sees of an id map: it is gone when it is opened, or while it is read, or all of its
entries are read. -/
inductive MapSeen where
  | gone (e : Errno)
  | vanished (read : List IdMapping)
  | entries (l : List IdMapping)

/-- The answer of the system about an id map. -/
def MapSeen.answer : MapSeen → Except Errno Lines
  | gone e => .error e
  | vanished read => .ok ⟨read.map fun m => .ok m.line, false⟩
  | entries l => .ok ⟨l.map fun m => .ok m.line, true⟩

/-- The id maps of the processes. The kernel has no entries that are empty or do not fit. -/
structure Maps where
  uid : PidT → MapSeen
  gid : PidT → MapSeen
  mapped : ∀ q l, uid q = .entries l → ∀ m ∈ l, Mapped m

/-- The files with the maps. -/
def Maps.files (M : Maps) (q : PidT) : IdMapping.Files where
  uidMap := (M.uid q).answer
  gidMap := (M.gid q).answer

/-- Both maps of the process can be opened and read. -/
def Maps.Readable (M : Maps) (q : PidT) : Prop := ∃ u g, M.uid q = .entries u ∧ M.gid q = .entries g

/-- The kernel has metadata for an open descriptor. -/
def HasMetadata (k : Ns.Kernel) : Prop := ∀ q, ∃ id, (k.owner q .user).ownerMetadata = .ok id

/-- What is read of a container that stays alive and of the process `1`. -/
structure Subject (k : Ns.Kernel) (M : Maps) (pid : PidT) where
  id : Ns.Id
  owner : Ns.Id
  init : Ns.Id
  initOwner : Ns.Id
  uidMap : List IdMapping
  gidMap : List IdMapping
  id_eq : Ns.Id.fromType k pid .user = .ok id
  owner_eq : Ns.nsGetOwnerUserNs k pid .user = .ok owner
  init_eq : Ns.Id.fromType k 1 .user = .ok init
  initOwner_eq : Ns.nsGetOwnerUserNs k 1 .user = .ok initOwner
  uidMap_eq : M.uid pid = .entries uidMap
  gidMap_eq : M.gid pid = .entries gidMap

section

variable {k : Ns.Kernel} {M : Maps} {pid q : PidT} (x : Subject k M pid)

/-- The namespace of the process can be read. It is another one than that of the container, and
lies below the initial one. -/
def Subject.Compares (q : PidT) : Prop :=
  ∃ id, Ns.Id.fromType k q .user = .ok id ∧ Ns.nsGetOwnerUserNs k q .user = .ok x.init ∧
    id ≠ x.id ∧ id ≠ x.init

/-- The process is compared, its maps can be read, and an entry of them maps a user of the
container. -/
def Subject.SharedBy (q : PidT) : Prop :=
  x.Compares q ∧ ∃ u g, M.uid q = .entries u ∧ M.gid q = .entries g ∧
    ∃ m ∈ u, ∃ m' ∈ x.uidMap, (m.hostRange ∩ m'.hostRange).Nonempty

/-- The mapping is judged by the processes whose namespace and maps can be read. -/
def Subject.Judged (checks : Bool) (procDir : Ns.ProcDir) (pids : List PidT) : Prop :=
  ∃ b, uniqueMapping checks k M.files procDir pid = .ok b ∧
    (b = true ↔ ¬ ∃ q ∈ pids.filter (· ≠ pid), x.SharedBy q)

variable {x}

theorem fromPid_files_eq_ok {u g : List IdMapping} (hu : M.uid q = .entries u)
    (hg : M.gid q = .entries g) : IdMapping.fromPid M.files q = .ok (u, g) := by
  simp only [IdMapping.fromPid, Maps.files, hu, hg, MapSeen.answer, mapIoError, Outcome.ok_bind,
    IdMapping.parseLines_line, if_true]
  rfl

/-- A map that is gone when it is opened is an error, and one that is gone while it is read is read
for ever. -/
theorem fromPid_files_ne_ok (h : ¬ M.Readable q) (maps : List IdMapping × List IdMapping) :
    IdMapping.fromPid M.files q ≠ .ok maps := by
  simp only [IdMapping.fromPid, Maps.files, ne_eq, bind_eq_ok, mapIoError_eq_ok, not_exists,
    not_and]
  intro uidMap huid gidMap hgid u hu g hg
  have hread : ∀ (seen : MapSeen) lines l, seen.answer = .ok lines →
      IdMapping.parseLines lines = .ok l → ∃ l, seen = .entries l := by
    intro seen lines l hanswer hl
    cases seen with
    | gone e => cases hanswer
    | vanished read =>
      obtain rfl := Except.ok.inj hanswer
      rw [IdMapping.parseLines_line] at hl
      cases hl
    | entries l => exact ⟨l, rfl⟩
  obtain ⟨u', hu'⟩ := hread _ _ _ huid hu
  obtain ⟨g', hg'⟩ := hread _ _ _ hgid hg
  exact absurd ⟨u', g', hu', hg'⟩ h

theorem Subject.fromPid_files (x : Subject k M pid) :
    IdMapping.fromPid M.files pid = .ok (x.uidMap, x.gidMap) :=
  fromPid_files_eq_ok x.uidMap_eq x.gidMap_eq

theorem returns_nsGetOwnerUserNs (h : HasMetadata k) (q : PidT) :
    (Ns.nsGetOwnerUserNs k q .user).Returns := by
  obtain ⟨id, hid⟩ := h q
  unfold Ns.nsGetOwnerUserNs
  rw [hid]
  split
  · trivial
  · split
    · split_ifs
      · cases (k.owner q .user).fstat <;> trivial
      · trivial
    · trivial

/-- The body of the loop ends the scan, or does not end itself, for a process that is compared
while its maps are gone. -/
theorem sharesMapping_ne_ok (checks : Bool) (hc : x.Compares q) (h : ¬ M.Readable q) (b : Bool) :
    sharesMapping checks k M.files ⟨ProtoEnum.toI32 NsType.user, some x.id, some x.owner⟩
      ⟨ProtoEnum.toI32 NsType.user, some x.init, some x.initOwner⟩ x.uidMap q ≠ .ok b := by
  obtain ⟨id, hid, ho, h1, h2⟩ := hc
  rw [sharesMapping, Ns.Info.infoByNsType_eq_ok.mpr ⟨id, _, hid, ho, rfl⟩]
  simp only [Ns.keepOk, Outcome.ok_bind, ne_eq, Option.some.injEq, h1, h2, not_false_eq_true,
    and_self, if_true, bind_eq_ok, not_exists, not_and]
  exact fun maps hmaps => absurd hmaps (fromPid_files_ne_ok h maps)

/-- For any other process it decides whether the process maps a user of the container. -/
theorem sharesMapping_of_readable {checks : Bool} (hk : HasMetadata k)
    (h : ¬ (x.Compares q ∧ ¬ M.Readable q)) : ∃ b,
      sharesMapping checks k M.files ⟨ProtoEnum.toI32 NsType.user, some x.id, some x.owner⟩
        ⟨ProtoEnum.toI32 NsType.user, some x.init, some x.initOwner⟩ x.uidMap q = .ok b ∧
        (b = true ↔ x.SharedBy q) := by
  have hinfo : (Ns.Info.infoByNsType k q .user).Returns :=
    (Ns.Id.returns_fromType k q .user).bind fun _ _ =>
      (returns_nsGetOwnerUserNs hk q).bind fun _ _ => trivial
  rcases hinfo.ok_or_err with ⟨i, hi⟩ | ⟨e, he⟩
  · obtain ⟨id, owner, hid, ho, rfl⟩ := Ns.Info.infoByNsType_eq_ok.mp hi
    have hcompares : x.Compares q ↔ id ≠ x.id ∧ owner = x.init ∧ id ≠ x.init := by
      simp only [Subject.Compares, hid, ho, Outcome.ok.injEq, exists_eq_left']
      tauto
    simp only [sharesMapping, hi, Ns.keepOk, Outcome.ok_bind, ne_eq, Option.some.injEq]
    split_ifs with hc
    · have hc := hcompares.mpr hc
      obtain ⟨u, g, hu, hg⟩ := not_not.mp (not_and.mp h hc)
      obtain ⟨b, hany, hiff⟩ := exists_anyM_overlaps checks (M.mapped q u hu)
        (M.mapped pid _ x.uidMap_eq)
      refine ⟨b, by rw [fromPid_files_eq_ok hu hg, Outcome.ok_bind]; exact hany, hiff.trans ?_⟩
      simp only [Subject.SharedBy, hc, hu, hg, MapSeen.entries.injEq, true_and, exists_and_left,
        exists_eq_left']
    · exact ⟨false, rfl, iff_of_false Bool.false_ne_true fun hs => hc (hcompares.mp hs.1)⟩
  · refine ⟨false, by rw [sharesMapping, he]; rfl, iff_of_false Bool.false_ne_true ?_⟩
    rintro ⟨⟨id, hid, ho, -⟩, -⟩
    cases he.symm.trans (Ns.Info.infoByNsType_eq_ok.mpr ⟨id, _, hid, ho, rfl⟩)

/-- The mapping of a container that stays alive is judged if and only if some process shares a user
with it before any process that is compared while its maps are gone. -/
theorem Subject.judged_iff (x : Subject k M pid) (checks : Bool) {procDir : Ns.ProcDir}
    {pids : List PidT} (hpids : getPidList procDir = .ok pids) (hk : HasMetadata k) :
    x.Judged checks procDir pids ↔
      ∀ l₁ q l₂, pids.filter (· ≠ pid) = l₁ ++ q :: l₂ → x.Compares q ∧ ¬ M.Readable q →
        ∃ q' ∈ l₁, x.SharedBy q' := by
  have hpid := Ns.Info.infoByNsType_eq_ok.mpr ⟨_, _, x.id_eq, x.owner_eq, rfl⟩
  have hinit := Ns.Info.infoByNsType_eq_ok.mpr ⟨_, _, x.init_eq, x.initOwner_eq, rfl⟩
  have hdisj : ∀ q, x.SharedBy q → ¬ (x.Compares q ∧ ¬ M.Readable q) := by
    rintro q ⟨-, u, g, hu, hg, -⟩ ⟨-, hq⟩
    exact hq ⟨u, g, hu, hg⟩
  rw [← anyM_decides_iff (fun q _ hq => sharesMapping_ne_ok checks hq.1 hq.2)
    (fun q _ hq => sharesMapping_of_readable hk hq) fun q _ => hdisj q]
  simp only [Judged, uniqueMapping, hpid, hinit, x.fromPid_files, hpids, unwrapOk, Outcome.ok_bind,
    bind_eq_ok, pure_eq_ok]
  constructor
  · rintro ⟨_, ⟨b, hb, rfl⟩, hiff⟩
    refine ⟨b, hb, ?_⟩
    rw [Bool.not_eq_true', ← Bool.not_eq_true] at hiff
    exact not_iff_not.mp hiff
  · rintro ⟨b, hb, hiff⟩
    exact ⟨!b, ⟨b, hb, rfl⟩, by rw [Bool.not_eq_true', ← Bool.not_eq_true, hiff]⟩

end

end UserNs

/-! ## Both scans -/

/-- A scan for the descendants of a process and one for a process with the same users do not fail
because of other processes under exactly these conditions. The first one needs what is seen in each
climb to be clear. The second one needs each process that is compared while its maps are gone to
come after one that shares a user. -/
theorem scans_ignore_others_iff (S : Scan) (c : PidT) {k : Ns.Kernel} {M : UserNs.Maps} {pid : PidT}
    (x : UserNs.Subject k M pid) (hk : UserNs.HasMetadata k) (checks : Bool) :
    (S.FindsDescendants c ↔ ∀ p ∈ S.pids, S.Clear c p) ∧
    (x.Judged checks S.procDir S.pids ↔
      ∀ l₁ q l₂, S.pids.filter (· ≠ pid) = l₁ ++ q :: l₂ → x.Compares q ∧ ¬ M.Readable q →
        ∃ q' ∈ l₁, x.SharedBy q') :=
  ⟨S.findsDescendants_iff c, x.judged_iff checks S.getPidList_eq hk⟩

/-- A child of the process `1`. -/
def childStat (name : ByteArray) : StatEntry where
  name := name
  state := 'S'
  parent := 1
  rest := " 1 1 0 -1 4194560".toList
  state_alpha := rfl
  parent_range := by decide
  rest_plain := by decide

/-- A scan of three processes. This is seen of the process `3`. -/
def scanWith (s : Seen) : Scan where
  procDir := .ok [.ok ⟨some "1", true⟩, .ok ⟨some "3", true⟩, .ok ⟨some "2", true⟩]
  pids := [1, 3, 2]
  seen _ _ q := if q = 3 then s else .stat (childStat (asBytes "sh".toList))
  getPidList_eq := by decide

/-- Each process has namespaces of its own. The process `3` may be gone when they are looked up. -/
def kernelWith (gone : Bool) : Ns.Kernel :=
  { UserNs.kernelOfContainers with
    ofType := fun pid t =>
      if pid = 3 ∧ gone then { openNs := .error .ENOENT, metadata := .error .ENOENT }
      else UserNs.kernelOfContainers.ofType pid t }

/-- The maps of two containers. This is seen of those of the process `3`, which is gone. -/
def mapsWith (m : UserNs.MapSeen) (h : ∀ l, m ≠ .entries l) : UserNs.Maps where
  uid pid := if pid = 3 then m else .entries [⟨0, 100000, 65536⟩]
  gid _ := .entries []
  mapped q l hl e he := by
    split_ifs at hl
    · exact absurd hl (h l)
    · obtain rfl := UserNs.MapSeen.entries.inj hl
      obtain rfl := List.mem_singleton.mp he
      exact ⟨by decide, show 100000 + 65536 < UInt32.size by decide⟩

def subjectWith (gone : Bool) (m : UserNs.MapSeen) (h : ∀ l, m ≠ .entries l) :
    UserNs.Subject (kernelWith gone) (mapsWith m h) 2 where
  id := ⟨4, 2⟩
  owner := ⟨4, 1⟩
  init := ⟨4, 1⟩
  initOwner := ⟨4, 1⟩
  uidMap := [⟨0, 100000, 65536⟩]
  gidMap := []
  id_eq := rfl
  owner_eq := rfl
  init_eq := rfl
  initOwner_eq := rfl
  uidMap_eq := rfl
  gidMap_eq := rfl

theorem hasMetadata_kernelWith (gone : Bool) : UserNs.HasMetadata (kernelWith gone) :=
  fun _ => ⟨_, rfl⟩

/-- What is seen in a climb is clear if the parents are read in all rounds and the climb ends. -/
theorem Scan.clear_of_plain {S : Scan} {c p : PidT} {n : ℕ}
    (hseen : ∀ i q, S.seen p i q = .gone ∨ ∃ e, S.seen p i q = .stat e ∧ e.Plain)
    (hend : ∀ q, ¬ Visits (parents (S.seen p)) c p n q) : S.Clear c p := by
  have hreads : reads (S.seen p) = parents (S.seen p) := by
    refine reads_eq_parents fun i q e he => ?_
    rcases hseen i q with hgone | ⟨e', he', hplain⟩
    · cases he.symm.trans hgone
    · obtain rfl := Seen.stat.inj (he.symm.trans he')
      exact hplain
  refine ⟨fun i q _ _ => ?_, ⟨n, hreads.symm ▸ hend⟩, fun _ _ i q _ => Or.inr (by rw [hreads])⟩
  rw [legible_iff]
  refine (hseen i q).imp_right ?_
  rintro ⟨e, he, -⟩
  exact ⟨e.parent, by rw [hreads, parents, he]⟩

/-- A process that is gone before its files are opened does no harm. -/
theorem scans_ignore_others_iff_gone :
    (scanWith .gone).FindsDescendants 2 ∧
      (subjectWith true (.gone .ENOENT) nofun).Judged true (scanWith .gone).procDir [1, 3, 2] := by
  have h := scans_ignore_others_iff (scanWith .gone) 2 (subjectWith true (.gone .ENOENT) nofun)
    (hasMetadata_kernelWith true) true
  refine ⟨h.1.mpr fun p hp => Scan.clear_of_plain (n := 2) (fun i q => ?_) fun q hv => ?_,
    h.2.mpr ?_⟩
  · by_cases hq : q = 3
    · exact Or.inl (if_pos hq)
    · exact Or.inr ⟨_, if_neg hq, "sh".toList, rfl, by decide⟩
  · have hparent : ∀ i q r, parents ((scanWith .gone).seen p) i q = some r → r = 1 := by
      intro i q r hr
      have hseen : (scanWith .gone).seen p i q =
          if q = 3 then .gone else .stat (childStat (asBytes "sh".toList)) := rfl
      rw [parents, hseen] at hr
      by_cases hq : q = 3
      · rw [if_pos hq] at hr
        cases hr
      · rw [if_neg hq] at hr
        exact (Option.some.inj hr).symm
    -- the climb is at the process `1` after one round
    cases hv with
    | next hv hlt _ _ =>
      cases hv with
      | next _ _ hr _ => exact absurd hlt (by rw [hparent _ _ _ hr]; decide)
  · rintro l₁ q l₂ - ⟨⟨id, hid, -⟩, hread⟩
    by_cases hq : q = 3
    · subst hq
      cases hid
    · exact absurd ⟨_, _, if_neg hq, rfl⟩ hread

/-- A process that is gone after its stat file is opened, a process whose name is no text, and a
process that is gone after its namespace is read: each of them ends the scan with an error. If it is
gone while its maps are read, then the scan does not end. -/
theorem scans_not_ignore_others :
    (∀ s ∈ [Seen.vanished, .stat (childStat ⟨#[255]⟩)], ¬ (scanWith s).FindsDescendants 2) ∧
      UserNs.uniqueMapping true (kernelWith false) (mapsWith (.gone .ENOENT) nofun).files
        (scanWith .gone).procDir 2 = .err (.myIoError "/proc/3/uid_map" .ENOENT) ∧
      UserNs.uniqueMapping true (kernelWith false) (mapsWith (.vanished []) nofun).files
        (scanWith .gone).procDir 2 = .outOfFuel ∧
      ¬ (subjectWith false (.gone .ENOENT) nofun).Judged true (scanWith .gone).procDir [1, 3, 2] ∧
      ¬ (subjectWith false (.vanished []) nofun).Judged true (scanWith .gone).procDir
        [1, 3, 2] := by
  have hgone : UserNs.uniqueMapping true (kernelWith false)
      (mapsWith (.gone .ENOENT) nofun).files (scanWith .gone).procDir 2 =
        .err (.myIoError "/proc/3/uid_map" .ENOENT) := by
    decide +kernel
  have hvanished : UserNs.uniqueMapping true (kernelWith false)
      (mapsWith (.vanished []) nofun).files (scanWith .gone).procDir 2 = .outOfFuel := by
    decide +kernel
  refine ⟨fun s hs hfinds => ?_, hgone, hvanished, ?_, ?_⟩
  · have hclear := ((scanWith s).findsDescendants_iff 2).mp hfinds 3 (by simp [scanWith])
    have hlegible := hclear.legible 0 3 .start (by decide)
    rw [legible_iff] at hlegible
    rcases List.mem_pair.mp hs with rfl | rfl
    · rcases hlegible with hg | ⟨r, hr⟩
      · cases hg
      · cases hr
    · have hread : reads (fun _ _ => .stat (childStat ⟨#[255]⟩)) 0 3 = none := by decide +kernel
      rcases hlegible with hg | ⟨r, hr⟩
      · cases hg
      · cases hread.symm.trans hr
  · rintro ⟨b, hb, -⟩
    exact Outcome.ne_ok_of_err hgone b hb
  · rintro ⟨b, hb, -⟩
    cases hvanished.symm.trans hb

end Checkc

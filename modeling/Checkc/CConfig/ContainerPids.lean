import Checkc.CConfig.UserNs
import Checkc.Patterns.ProcStat

/-! # Processes of a container

The processes of a container are those from which its init process is reached by climbing from
parent to parent. The parent of a process is read from its stat file.
-/

namespace Checkc

open Outcome (bind_eq_ok pure_eq_ok)

open Regex

/-- `PROC_PID_STAT_PPID_INDEX`. -/
def procPidStatPpidIndex : ℕ := 3

/-- Opening a stat file may fail, and so may reading it. -/
abbrev StatAnswer := Except Errno (Except Errno String)

/-- Indexing a vector. -/
def index (tokens : List (List Char)) (i : ℕ) : Result (List Char) :=
  match tokens[i]? with
  | some token => pure token
  | none => .panic s!"index out of bounds: the len is {tokens.length} but the index is {i}"

/-- The parent that is read in a stat file. -/
def parsePpid (procStatPath procStat : String) : Result PidT :=
  let tokens := procStat.toList.splitOn ' '
  match search regexProcStat procStat.toList with
  | none => .err (.valueError "Failed to parse PPID from /proc/<pid>/stat" procStat procStatPath)
  | some matched => do
    let ppid ← unwrap (matched.get "ppid")
    match Ns.parsePid ppid with
    | some ppid => pure ppid
    | none => do
      let token ← index tokens procPidStatPpidIndex
      .err (.valueError "Failed to parse PPID from value" (String.ofList token) procStatPath)

/-- The loop of `get_container_pids` over the parents of a process. The answers are those of the
system in each round. -/
def climb (stat : ℕ → PidT → StatAnswer) (cinitPid : PidT) : ℕ → ℕ → PidT → Result Bool
  | 0, _, _ => .outOfFuel
  | fuel + 1, i, current =>
    -- while not reached init
    if 1 < current then
      match stat i current with
      | .error _ => pure false
      | .ok content => do
        let procStatPath := s!"/proc/{current}/stat"
        let procStat ← mapIoError procStatPath content
        let ppid ← parsePpid procStatPath procStat
        if ppid = cinitPid then pure true else climb stat cinitPid fuel (i + 1) ppid
    else pure false

/-- `get_container_pids`. -/
def getContainerPids (fuel : ℕ) (procDir : Ns.ProcDir) (stat : PidT → ℕ → PidT → StatAnswer)
    (cinitPid : PidT) : Result (List PidT) := do
  let allPids ← getPidList procDir
  allPids.foldlM (fun containerPids p => do
    let reached ← climb (stat p) cinitPid fuel 0 p
    pure (if reached then containerPids ++ [p] else containerPids)) [cinitPid]

/-! ## Climbing -/

section

variable {stat : ℕ → PidT → StatAnswer} {c p : PidT} {b : Bool}

theorem parsePpid_eq_ok {path procStat : String} {r : PidT} : parsePpid path procStat = .ok r ↔
    ((search regexProcStat procStat.toList).bind fun m => (m.get "ppid").bind Ns.parsePid) =
      some r := by
  unfold parsePpid
  cases hm : search regexProcStat procStat.toList with
  | none => simp
  | some m =>
    obtain ⟨ppid, hg⟩ := exists_get_of_search (n := "ppid") hm rfl
    simp only [Option.bind_some, hg, unwrap_some, Outcome.ok_bind]
    cases Ns.parsePid ppid with
    | some ppid => simp
    | none => simp

/-- More fuel does not change an answer. -/
theorem climb_mono {fuel fuel' i : ℕ} (h : climb stat c fuel i p = .ok b) (hle : fuel ≤ fuel') :
    climb stat c fuel' i p = .ok b := by
  induction fuel generalizing fuel' i p with
  | zero => cases h
  | succ fuel ih =>
    obtain ⟨fuel', rfl⟩ : ∃ n, fuel' = n + 1 := ⟨fuel' - 1, by omega⟩
    rw [climb] at h ⊢
    split_ifs at h ⊢ with hp
    · cases hs : stat i p with
      | error e =>
        rw [hs] at h
        exact h
      | ok content =>
        simp only [hs, bind_eq_ok] at h ⊢
        obtain ⟨procStat, hread, ppid, hppid, h⟩ := h
        refine ⟨procStat, hread, ppid, hppid, ?_⟩
        split_ifs at h ⊢
        · exact h
        · exact ih h (Nat.le_of_succ_le_succ hle)
    · exact h

/-- If the system always answers the same, then the count of the rounds does not matter. -/
theorem climb_const {stat : PidT → StatAnswer} {fuel : ℕ} (i j : ℕ) :
    climb (fun _ => stat) c fuel i p = climb (fun _ => stat) c fuel j p := by
  induction fuel generalizing i j p with
  | zero => rfl
  | succ fuel ih =>
    rw [climb, climb]
    simp only [ih (i + 1) (j + 1)]

/-- The loop over all processes adds those from which the init process is reached. -/
theorem getContainerPids_eq_ok {fuel : ℕ} {procDir : Ns.ProcDir} {pids l : List PidT}
    {stat : PidT → ℕ → PidT → StatAnswer} (hpids : getPidList procDir = .ok pids) :
    getContainerPids fuel procDir stat c = .ok l ↔
      (∀ p ∈ pids, ∃ b, climb (stat p) c fuel 0 p = .ok b) ∧
        l = c :: pids.filter fun p => climb (stat p) c fuel 0 p = .ok true := by
  have hfold : ∀ l acc : List PidT, l.foldl (fun acc p =>
      if climb (stat p) c fuel 0 p = .ok true then acc ++ [p] else acc) acc =
        acc ++ l.filter fun p => climb (stat p) c fuel 0 p = .ok true := by
    intro l
    induction l with
    | nil => simp
    | cons p l ih =>
      intro acc
      rw [List.foldl_cons, ih, List.filter_cons]
      split_ifs <;> simp_all
  rw [getContainerPids, hpids, Outcome.ok_bind, foldlM_eq_ok_iff
    (P := fun p => ∃ b, climb (stat p) c fuel 0 p = .ok b)
    (g := fun acc p => if climb (stat p) c fuel 0 p = .ok true then acc ++ [p] else acc), hfold]
  · rfl
  · intro s r p _
    simp only [bind_eq_ok, pure_eq_ok]
    constructor
    · rintro ⟨b, hb, rfl⟩
      refine ⟨⟨b, hb⟩, ?_⟩
      cases b <;> simp [hb]
    · rintro ⟨⟨b, hb⟩, rfl⟩
      refine ⟨b, hb, ?_⟩
      cases b <;> simp [hb]

end

theorem isRun_toDigits (n : ℕ) : IsRun Char.isDigit (Nat.toDigits 10 n) :=
  ⟨Nat.toDigits_ne_nil, fun _ => Nat.isDigit_of_mem_toDigits (by decide) (by decide)⟩

theorem parsePid_toDigits {n : ℕ} (hn : n ≤ 2147483647) :
    Ns.parsePid (Nat.toDigits 10 n) = some (n : Int) := by
  have hparse : fromStrRadix 10 (2 ^ 31 - 1) (Nat.toDigits 10 n) = .ok n :=
    fromStrRadix_toDigits (by decide) (by decide) hn 0
  have hminus : '-' ∉ Nat.toDigits 10 n := not_mem_toDigits (by decide) (by decide) (by decide)
  unfold Ns.parsePid
  split
  · case h_1 ds he =>
    rw [he] at hminus
    exact absurd List.mem_cons_self hminus
  · rw [hparse]
    rfl

/-- A climb from a process goes to the number that is read in its stat file. -/
theorem climb_of_read {stat : ℕ → PidT → StatAnswer} {c p r : PidT} {fuel i : ℕ} {text : String}
    (hlt : 1 < p) (hstat : stat i p = .ok (.ok text))
    (hr : ((search regexProcStat text.toList).bind fun m => (m.get "ppid").bind Ns.parsePid) =
      some r) :
    climb stat c (fuel + 1) i p = if r = c then .ok true else climb stat c fuel (i + 1) r := by
  have hparse : parsePpid s!"/proc/{p}/stat" text = .ok r := parsePpid_eq_ok.mpr hr
  rw [climb, if_pos hlt, hstat]
  simp only [mapIoError, Outcome.ok_bind, hparse]
  rfl

/-! ## Lines of processes -/

/-- A line that describes a process. Its name may be any text without a line end, and the fields
after that of its parent have no closing parenthesis. -/
structure StatLine where
  pid : ℕ
  name : List Char
  state : Char
  ppid : ℕ
  rest : List Char
  name_line : '\n' ∉ name
  state_alpha : state.isAlpha = true
  ppid_fits : ppid ≤ 2147483647
  rest_separated : ∀ c ∈ rest.head?, c.isDigit = false
  rest_plain : ')' ∉ rest

namespace StatLine

def text (l : StatLine) : List Char :=
  Nat.toDigits 10 l.pid ++ ' ' :: '(' :: (l.name ++ ')' :: ' ' :: l.state :: ' ' ::
    (Nat.toDigits 10 l.ppid ++ l.rest))

theorem captured (l : StatLine) : ∃ m, search regexProcStat l.text = some m ∧
    m.get "ppid" = some (Nat.toDigits 10 l.ppid) :=
  search_regexProcStat (isRun_toDigits l.pid) l.name_line l.state_alpha (isRun_toDigits l.ppid)
    l.rest_separated l.rest_plain

theorem read_ppid (l : StatLine) :
    ((search regexProcStat l.text).bind fun m => (m.get "ppid").bind Ns.parsePid) =
      some (l.ppid : PidT) := by
  obtain ⟨m, hm, hget⟩ := l.captured
  rw [hm, Option.bind_some, hget, Option.bind_some, parsePid_toDigits l.ppid_fits]

/-- The name of a process cannot forge its parent: whatever it is, the pattern captures the field
of the parent, and a climb from the process goes there. -/
theorem climbs_to_ppid (l : StatLine) :
    (∃ m, search regexProcStat l.text = some m ∧ m.get "ppid" = some (Nat.toDigits 10 l.ppid)) ∧
      ∀ stat c p fuel i, 1 < p → stat i p = .ok (.ok (String.ofList l.text)) →
        climb stat c (fuel + 1) i p =
          if (l.ppid : PidT) = c then .ok true else climb stat c fuel (i + 1) l.ppid := by
  refine ⟨l.captured, fun stat c p fuel i hlt hstat => climb_of_read hlt hstat ?_⟩
  rw [String.toList_ofList]
  exact l.read_ppid

/-- The name of this child of the process `2` looks like the end of a name before a parent `1`. -/
def forgingLine : StatLine where
  pid := 3
  name := "sh) S 1 (sh".toList
  state := 'R'
  ppid := 2
  rest := " 3 3 0 -1 4194304".toList
  name_line := by decide
  state_alpha := by decide
  ppid_fits := by decide
  rest_separated := fun _ h => Option.some.inj h ▸ rfl
  rest_plain := by decide

theorem climbs_to_ppid_forgingLine :
    forgingLine.text = "3 (sh) S 1 (sh) R 2 3 3 0 -1 4194304".toList ∧
      (∃ m, search regexProcStat forgingLine.text = some m ∧ m.get "ppid" = some ['2']) ∧
      climb (fun _ _ => .ok (.ok (String.ofList forgingLine.text))) 2 1 0 3 = .ok true := by
  obtain ⟨hcaptured, hclimb⟩ := forgingLine.climbs_to_ppid
  refine ⟨by decide, hcaptured, ?_⟩
  exact (hclimb _ 2 3 0 0 (by decide) rfl).trans (if_pos rfl)

end StatLine

/-- The pattern reads the parent from a stat file if the name of the process has no line end. -/
theorem ppid_of_name {pid : ℕ} {name rest : List Char} {state : Char} {parent : PidT}
    (hn : '\n' ∉ name) (hstate : state.isAlpha = true)
    (hparent : 0 ≤ parent ∧ parent ≤ 2147483647) (hrest : rest.head? = some ' ' ∧ ')' ∉ rest) :
    ((search regexProcStat (Nat.toDigits 10 pid ++ ' ' :: '(' :: (name ++ ')' :: ' ' :: state ::
      ' ' :: (Nat.toDigits 10 parent.toNat ++ rest)))).bind fun m =>
        (m.get "ppid").bind Ns.parsePid) = some parent := by
  have hhead : ∀ c ∈ rest.head?, c.isDigit = false := by
    rw [hrest.1]
    rintro c ⟨⟩
    rfl
  have h := StatLine.read_ppid ⟨pid, name, state, parent.toNat, rest, hn, hstate,
    Int.toNat_le.mpr hparent.2, hhead, hrest.2⟩
  rwa [Int.toNat_of_nonneg hparent.1] at h

/-! ## Process tables -/

/-- A process table. The chain of parents of each process ends at the process `1` or at `0`, and
the name of a process is any text. The other fields of a stat file have no parentheses. -/
structure ProcTable where
  procDir : Ns.ProcDir
  pids : List PidT
  parent : PidT → PidT
  name : PidT → List Char
  state : PidT → Char
  rest : PidT → List Char
  getPidList_eq : getPidList procDir = .ok pids
  nodup : pids.Nodup
  pos : ∀ p ∈ pids, 1 ≤ p
  parent_mem : ∀ p ∈ pids, 1 < p → 1 < parent p → parent p ∈ pids
  ends : ∀ p ∈ pids, ∃ n, parent^[n] p ≤ 1
  parent_range : ∀ p ∈ pids, 0 ≤ parent p ∧ parent p ≤ 2147483647
  state_alpha : ∀ p ∈ pids, (state p).isAlpha = true
  rest_plain : ∀ p ∈ pids, (rest p).head? = some ' ' ∧ ')' ∉ rest p

namespace ProcTable

/-- The text of a stat file. -/
def statText (T : ProcTable) (p : PidT) : List Char :=
  Nat.toDigits 10 p.toNat ++ ' ' :: '(' :: (T.name p ++ ')' :: ' ' :: T.state p :: ' ' ::
    (Nat.toDigits 10 (T.parent p).toNat ++ T.rest p))

/-- Every process of the table has a stat file. -/
def stat (T : ProcTable) (p : PidT) : StatAnswer :=
  if p ∈ T.pids then .ok (.ok (String.ofList (T.statText p))) else .error .ENOENT

/-- The process `c` is a proper ancestor of a process. -/
inductive Descends (T : ProcTable) (c : PidT) : PidT → Prop
  | child {p : PidT} : 1 < p → T.parent p = c → Descends T c p
  | step {p : PidT} : 1 < p → Descends T c (T.parent p) → Descends T c p

/-- The number that the pattern reads as the parent of a process. -/
def readPpid (T : ProcTable) (p : PidT) : Option PidT :=
  (search regexProcStat (T.statText p)).bind fun m => (m.get "ppid").bind Ns.parsePid

/-- The pattern reads the parent of a process, or else neither what it reads nor the parent is
a process of the table. -/
def ReadsParent (T : ProcTable) (p : PidT) : Prop :=
  ∃ r, T.readPpid p = some r ∧ (r = T.parent p ∨ (r ∉ T.pids ∧ T.parent p ∉ T.pids))

/-- The processes of any container are found: its init process first, and then its descendants,
each once and as they are listed. -/
def Exact (T : ProcTable) : Prop :=
  ∀ c ∈ T.pids, ∃ N, ∀ fuel ≥ N, ∃ l,
    getContainerPids fuel T.procDir (fun _ _ => T.stat) c = .ok (c :: l) ∧
      l.Sublist T.pids ∧ (c :: l).Nodup ∧ ∀ p, p ∈ l ↔ p ∈ T.pids ∧ T.Descends c p

variable {T : ProcTable} {c p : PidT}

theorem descends_iff : T.Descends c p ↔ 1 < p ∧ (T.parent p = c ∨ T.Descends c (T.parent p)) := by
  constructor
  · rintro (⟨hp, hc⟩ | ⟨hp, hc⟩)
    · exact ⟨hp, Or.inl hc⟩
    · exact ⟨hp, Or.inr hc⟩
  · rintro ⟨hp, hc | hc⟩
    · exact .child hp hc
    · exact .step hp hc

theorem Descends.trans {d : PidT} (h : T.Descends c d) (h' : T.Descends d p) : T.Descends c p := by
  induction h' with
  | child hp hd => exact .step hp (hd ▸ h)
  | step hp _ ih => exact .step hp ih

/-- Climbing through the parents of the table comes to an end. -/
theorem parent_induction {motive : PidT → Prop} (hend : ∀ p, p ≤ 1 → motive p)
    (hstep : ∀ p ∈ T.pids, 1 < p → motive (T.parent p) → motive p) (hp : p ∈ T.pids) :
    motive p := by
  obtain ⟨n, hn⟩ := T.ends p hp
  induction n generalizing p with
  | zero => exact hend p hn
  | succ n ih =>
    rcases le_or_gt p 1 with h | h
    · exact hend p h
    apply hstep p hp h
    rcases le_or_gt (T.parent p) 1 with h' | h'
    · exact hend _ h'
    · exact ih (T.parent_mem p hp h h') hn

theorem not_descends_self (hp : p ∈ T.pids) : ¬ T.Descends p p := by
  have hgen : ∀ c, T.Descends p c → T.Descends c p → False := by
    refine parent_induction (T := T) (motive := fun p => ∀ c, T.Descends p c → T.Descends c p →
      False) (fun p hle c _ h => ?_) (fun p hp hlt ih c h h' => ?_) hp
    · exact absurd (descends_iff.mp h).1 (not_lt.mpr hle)
    · have hpar : T.Descends (T.parent p) p := .child hlt rfl
      rcases (descends_iff.mp h').2 with rfl | h'
      · exact ih p hpar h
      · exact ih c (hpar.trans h) h'
  exact fun h => hgen p h h

/-- An ancestor in the table is reached through the table. -/
theorem Descends.parent_mem (hc : c ∈ T.pids) (hp : p ∈ T.pids) (h : T.Descends c p) :
    T.parent p ∈ T.pids := by
  obtain ⟨hlt, rfl | h⟩ := descends_iff.mp h
  · exact hc
  · exact T.parent_mem p hp hlt (descends_iff.mp h).1

/-! ### The rounds of a climb -/

section

variable {fuel i : ℕ} {b : Bool}

theorem climb_of_le (hp : p ≤ 1) : climb (fun _ => T.stat) c (fuel + 1) i p = .ok false := by
  rw [climb, if_neg (not_lt.mpr hp)]
  rfl

theorem climb_of_not_mem (hp : p ∉ T.pids) :
    climb (fun _ => T.stat) c (fuel + 1) i p = .ok false := by
  rw [climb, stat, if_neg hp]
  split_ifs <;> rfl

theorem climb_of_readPpid (hp : p ∈ T.pids) (hlt : 1 < p) {r : PidT}
    (hr : T.readPpid p = some r) : climb (fun _ => T.stat) c (fuel + 1) i p =
      if r = c then .ok true else climb (fun _ => T.stat) c fuel (i + 1) r := by
  apply climb_of_read hlt (if_pos hp)
  rw [String.toList_ofList]
  exact hr

/-- A climb from a process of the table reads its parent. -/
theorem exists_readPpid (hp : p ∈ T.pids) (hlt : 1 < p)
    (h : climb (fun _ => T.stat) c fuel i p = .ok b) : ∃ r, T.readPpid p = some r := by
  cases fuel with
  | zero => cases h
  | succ fuel =>
    rw [climb, if_pos hlt, stat, if_pos hp] at h
    simp only [mapIoError, Outcome.ok_bind, bind_eq_ok, parsePpid_eq_ok,
      String.toList_ofList] at h
    obtain ⟨r, hr, -⟩ := h
    exact ⟨r, hr⟩

end

/-- What a climb decides if the pattern reads the parents. -/
theorem exists_climb (h : ∀ p ∈ T.pids, 1 < p → T.ReadsParent p) (hc : c ∈ T.pids)
    (hp : p ∈ T.pids) : ∃ fuel b,
      climb (fun _ => T.stat) c fuel 0 p = .ok b ∧ (b = true ↔ T.Descends c p) := by
  refine parent_induction (motive := fun p => ∃ fuel b,
    climb (fun _ => T.stat) c fuel 0 p = .ok b ∧ (b = true ↔ T.Descends c p))
    (fun p hle => ?_) (fun p hp hlt ih => ?_) hp
  · refine ⟨1, false, climb_of_le hle, ?_⟩
    simpa using fun hd => absurd (descends_iff.mp hd).1 (not_lt.mpr hle)
  · obtain ⟨r, hr, rfl | ⟨hrt, hpt⟩⟩ := h p hp hlt
    · obtain ⟨fuel, b, hb, hiff⟩ := ih
      by_cases he : T.parent p = c
      · refine ⟨1, true, ?_, iff_of_true rfl (.child hlt he)⟩
        rw [climb_of_readPpid hp hlt hr, if_pos he]
      · refine ⟨fuel + 1, b, ?_, hiff.trans ?_⟩
        · rw [climb_of_readPpid hp hlt hr, if_neg he, climb_const _ 0, hb]
        · rw [descends_iff (p := p), or_iff_right he, and_iff_right hlt]
    · -- the climb leaves the table, as the container is not reached there
      refine ⟨2, false, ?_, ?_⟩
      · have hrc : r ≠ c := fun he => hrt (he ▸ hc)
        rw [climb_of_readPpid hp hlt hr, if_neg hrc, climb_of_not_mem hrt]
      · simpa using fun hd => hpt (Descends.parent_mem hc hp hd)

theorem exists_bound {α : Type} {P : α → ℕ → Prop} {l : List α}
    (h : ∀ a ∈ l, ∃ N, ∀ n ≥ N, P a n) : ∃ N, ∀ n ≥ N, ∀ a ∈ l, P a n := by
  induction l with
  | nil => exact ⟨0, by simp⟩
  | cons a l ih =>
    rw [List.forall_mem_cons] at h
    obtain ⟨N, hN⟩ := h.1
    obtain ⟨N', hN'⟩ := ih h.2
    refine ⟨max N N', fun n hn => List.forall_mem_cons.mpr ⟨hN n ?_, hN' n ?_⟩⟩
    · exact (le_max_left N N').trans hn
    · exact (le_max_right N N').trans hn

theorem exact_of_readsParent (h : ∀ p ∈ T.pids, 1 < p → T.ReadsParent p) : T.Exact := by
  intro c hc
  have hfuel : ∀ p ∈ T.pids, ∃ N, ∀ fuel ≥ N, ∃ b,
      climb (fun _ => T.stat) c fuel 0 p = .ok b ∧ (b = true ↔ T.Descends c p) := by
    intro p hp
    obtain ⟨N, b, hb, hiff⟩ := exists_climb h hc hp
    exact ⟨N, fun fuel hf => ⟨b, climb_mono hb hf, hiff⟩⟩
  obtain ⟨N, hN⟩ := exists_bound hfuel
  refine ⟨N, fun fuel hf => ⟨_, (getContainerPids_eq_ok T.getPidList_eq).mpr ⟨fun p hp => ?_, rfl⟩,
    List.filter_sublist, ?_, ?_⟩⟩
  · obtain ⟨b, hb, -⟩ := hN fuel hf p hp
    exact ⟨b, hb⟩
  all_goals
    have hmem : ∀ p, p ∈ T.pids.filter (fun p => climb (fun _ => T.stat) c fuel 0 p = .ok true) ↔
        p ∈ T.pids ∧ T.Descends c p := by
      intro p
      rw [List.mem_filter, decide_eq_true_iff]
      apply and_congr_right
      intro hp
      obtain ⟨b, hb, hiff⟩ := hN fuel hf p hp
      rw [hb, Outcome.ok.injEq, hiff]
  · rw [List.nodup_cons, hmem]
    exact ⟨fun hc' => not_descends_self hc hc'.2, T.nodup.filter _⟩
  · exact hmem

/-- A container is found only if each climb decides whether it starts below the container. -/
theorem climb_of_exact (h : T.Exact) (hc : c ∈ T.pids) : ∃ N, ∀ fuel ≥ N, ∀ p ∈ T.pids, ∃ b,
    climb (fun _ => T.stat) c fuel 0 p = .ok b ∧ (b = true ↔ T.Descends c p) := by
  obtain ⟨N, hN⟩ := h c hc
  refine ⟨N, fun fuel hf p hp => ?_⟩
  obtain ⟨l, hl, -, -, hmem⟩ := hN fuel hf
  obtain ⟨hall, hcons⟩ := (getContainerPids_eq_ok T.getPidList_eq).mp hl
  obtain ⟨b, hb⟩ := hall p hp
  obtain rfl := (List.cons.inj hcons).2
  have hmem := hmem p
  rw [List.mem_filter, decide_eq_true_iff, hb, Outcome.ok.injEq] at hmem
  exact ⟨b, hb, fun he => (hmem.mp ⟨hp, he⟩).2, fun hd => (hmem.mpr ⟨hp, hd⟩).2⟩

/-- A number that is read for a process is that of an ancestor, if it is in the table. -/
theorem descends_of_readPpid (h : T.Exact) (hp : p ∈ T.pids) (hlt : 1 < p) {r : PidT}
    (hr : T.readPpid p = some r) (hrt : r ∈ T.pids) : T.Descends r p := by
  obtain ⟨N, hN⟩ := climb_of_exact h hrt
  obtain ⟨b, hb, hiff⟩ := hN (N + 1) (Nat.le_succ N) p hp
  rw [climb_of_readPpid hp hlt hr, if_pos rfl] at hb
  exact hiff.mp (Outcome.ok.inj hb).symm

theorem readsParent_of_exact (h : T.Exact) (hp : p ∈ T.pids) (hlt : 1 < p) : T.ReadsParent p := by
  obtain ⟨N, hN⟩ := climb_of_exact h hp
  obtain ⟨b, hb, -⟩ := hN N le_rfl p hp
  obtain ⟨r, hr⟩ := exists_readPpid hp hlt hb
  refine ⟨r, hr, ?_⟩
  by_cases hpt : T.parent p ∈ T.pids
  · refine Or.inl (by_contra fun hne => ?_)
    -- the parent is reached from the number that is read, which is an ancestor of the parent
    obtain ⟨N, hN⟩ := climb_of_exact h hpt
    obtain ⟨b, hb, hiff⟩ := hN (N + 2) (by omega) p hp
    obtain rfl := hiff.mpr (.child hlt rfl)
    rw [climb_of_readPpid hp hlt hr, if_neg hne] at hb
    have hrt : r ∈ T.pids := by
      by_contra hrt
      exact Bool.false_ne_true (Outcome.ok_unique (climb_of_not_mem hrt) hb)
    obtain ⟨b, hb', hiff⟩ := hN (N + 1) (by omega) r hrt
    rw [climb_const 0 1, hb] at hb'
    have htr : T.Descends (T.parent p) r := hiff.mp (Outcome.ok.inj hb').symm
    rcases (descends_iff.mp (descends_of_readPpid h hp hlt hr hrt)).2 with he | hd
    · exact hne he.symm
    · exact not_descends_self hpt (htr.trans hd)
  · refine Or.inr ⟨fun hrt => hpt ?_, hpt⟩
    exact Descends.parent_mem hrt hp (descends_of_readPpid h hp hlt hr hrt)

/-- The pattern reads the parent of a process whose name has no line end. -/
theorem readPpid_of_name (hp : p ∈ T.pids) (hn : '\n' ∉ T.name p) :
    T.readPpid p = some (T.parent p) :=
  ppid_of_name hn (T.state_alpha p hp) (T.parent_range p hp) (T.rest_plain p hp)

/-- If no process has a line end in its name, then the processes of any container are found. -/
theorem exact_of_names (h : ∀ p ∈ T.pids, '\n' ∉ T.name p) : T.Exact :=
  exact_of_readsParent fun p hp _ => ⟨_, readPpid_of_name hp (h p hp), Or.inl rfl⟩

/-- The name of the process `3` of the container `2` ends its line where a parent `1` is read. -/
def hiddenTable : ProcTable where
  procDir := .ok [.ok ⟨some "1", true⟩, .ok ⟨some "2", true⟩, .ok ⟨some "3", true⟩]
  pids := [1, 2, 3]
  parent p := if p = 3 then 2 else if p = 2 then 1 else 0
  name p := if p = 3 then ") S 1\n".toList else "sh".toList
  state _ := 'S'
  rest _ := " 1 1 0 -1 4194560".toList
  getPidList_eq := by decide
  nodup := by decide
  pos := by decide
  parent_mem := by decide
  ends p hp := ⟨2, by revert p; decide⟩
  parent_range := by decide
  state_alpha := by decide
  rest_plain := by decide

theorem hiddenTable_not_exact :
    getContainerPids 3 hiddenTable.procDir (fun _ _ => hiddenTable.stat) 2 = .ok [2] ∧
      hiddenTable.Descends 2 3 ∧ ¬ hiddenTable.Exact := by
  refine ⟨by decide +kernel, .child (by decide) (by decide), fun h => ?_⟩
  have hread : hiddenTable.readPpid 3 = some 1 := by decide +kernel
  obtain ⟨r, hr, hcases⟩ := readsParent_of_exact h (p := 3) (by decide) (by decide)
  obtain rfl := Option.some.inj (hread.symm.trans hr)
  revert hcases
  decide

/-- The processes of all containers are found if and only if the pattern reads the parents of all
processes. -/
theorem exact_iff (T : ProcTable) : T.Exact ↔ ∀ p ∈ T.pids, 1 < p → T.ReadsParent p :=
  ⟨fun h _ hp hlt => readsParent_of_exact h hp hlt, exact_of_readsParent⟩

end ProcTable

end Checkc

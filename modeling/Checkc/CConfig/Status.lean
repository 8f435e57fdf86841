import Checkc.CConfig.Caps
import Checkc.Kernel.Escape

/-! # Status files

The text of `/proc/<pid>/status` begins with the name of the process, which the process chooses
itself. The line of a capability set is found by its name, so that a process whose name contains
the name of a set is taken for the line of that set.
-/

namespace Checkc

open Outcome (bind_eq_ok pure_eq_ok)

/-- The code of a letter of a process name, which follows a backslash. -/
def nameCode (c : Char) : Option (List Char) :=
  if c = '\n' then some ['n'] else if c = '\\' then some ['\\'] else none

/-- A status file. The name of the process is `none` when it is not valid text, and no other
line than those of the capability sets contains the name of a set. -/
structure StatusFile where
  name : Option (List Char)
  before : List String
  mask : CapSet → BitVec 64
  after : List String
  before_other : ∀ line ∈ before, ∀ set : CapSet, ¬ set.display.toList <:+: line.toList

namespace StatusFile

variable (s : StatusFile)

/-- The line `Name:`, as it is read. -/
def nameLine : Option String :=
  s.name.map fun name =>
    String.ofList (chomp ("Name:\t".toList ++ escape '\\' nameCode name))

/-- A mask, as the kernel prints it with `%016llx`. -/
def hex (mask : BitVec 64) : List Char := (Nat.toDigits 16 mask.toNat).leftpad 16 '0'

/-- The line of a capability set. -/
def capLine (set : CapSet) : String :=
  String.ofList (set.display.toList ++ ':' :: '\t' :: hex (s.mask set))

/-- The lines of the file. -/
def lines : List (Option String) :=
  s.nameLine :: (s.before ++ CapSet.list.map s.capLine ++ s.after).map some

/-- The name of the process contains the name of a set. -/
def Disguised : Prop := ∃ name, s.name = some name ∧ ∃ set : CapSet, set.display.toList <:+: name

/-- Each set is read from its own line, so that it has the capabilities whose bits are set in
its mask. -/
def ReadRight : Prop :=
  ∃ capSets, CapSet.parseProcStatus (.ok s.lines) = .ok capSets ∧ ∀ set : CapSet,
    (s.lines.filterMap id).find? (fun line => containsStr line.toList set.display.toList) =
        some (s.capLine set) ∧
      ∃ caps, capSets.get set = some caps ∧ ∀ c : Capability,
        c ∈ caps ↔ c ≠ .unspecified ∧ (s.mask set).getLsbD (c.number - 1) = true

end StatusFile

/-! ## Lines of the file -/

namespace CapSet

theorem display_eq_cons (set : CapSet) : ∃ p, set.display.toList = 'C' :: p := by
  cases set <;> exact ⟨_, rfl⟩

theorem display_toList_injective {set set' : CapSet}
    (h : set.display.toList = set'.display.toList) : set = set' := by
  revert h
  cases set <;> cases set' <;> decide

theorem length_display (set : CapSet) : set.display.toList.length = 6 := by
  cases set <;> rfl

theorem not_mem_display (set : CapSet) : '\r' ∉ set.display.toList ∧
    '\\' ∉ set.display.toList ∧ ∀ c ∈ set.display.toList, nameCode c = none := by
  have hcode : set.display.toList.all (fun c => decide (nameCode c = none)) = true := by
    cases set <;> decide
  refine ⟨?_, ?_, by simpa using hcode⟩
  all_goals cases set <;> decide

end CapSet

theorem infix_chomp_iff {p line : List Char} (hp : p ≠ []) (hr : '\r' ∉ p) :
    p <:+: chomp line ↔ p <:+: line := by
  unfold chomp
  split_ifs with h
  · obtain ⟨l, rfl⟩ := List.getLast?_eq_some_iff.mp h
    rw [List.dropLast_concat, infix_concat_iff_of_not_mem hp hr]
  · rfl

namespace StatusFile

variable {s : StatusFile}

theorem nameLine_ne_capLine (set : CapSet) : s.nameLine ≠ some (s.capLine set) := by
  intro h
  obtain ⟨p, hp⟩ := set.display_eq_cons
  rw [nameLine, Option.map_eq_some_iff] at h
  obtain ⟨name, -, h⟩ := h
  have hl := String.ofList_injective h
  rw [hp] at hl
  have hN := List.head_eq_of_cons_eq ((chomp_cons_cons _ _ _).symm.trans hl)
  exact absurd hN (by decide)

/-- Escaping the name neither hides nor makes the name of a set. -/
theorem infix_nameLine_iff {line : String} (h : s.nameLine = some line) (set : CapSet) :
    set.display.toList <:+: line.toList ↔
      ∃ name, s.name = some name ∧ set.display.toList <:+: name := by
  obtain ⟨p, hp⟩ := set.display_eq_cons
  obtain ⟨hr, hb, hplain⟩ := set.not_mem_display
  rw [nameLine, Option.map_eq_some_iff] at h
  obtain ⟨name, hn, rfl⟩ := h
  have hcode : ∀ c w, nameCode c = some w → 'C' ∉ w := by
    intro c w hw
    unfold nameCode at hw
    split_ifs at hw <;> obtain rfl := Option.some.inj hw <;> decide
  rw [hp] at hr hb hplain ⊢
  rw [String.toList_ofList, infix_chomp_iff (List.cons_ne_nil _ _) hr,
    cons_infix_append_iff (by decide), infix_escape_iff hplain hb hcode]
  simp [hn]

theorem exists_digitChar_of_mem_hex {mask : BitVec 64} {c : Char} (hc : c ∈ hex mask) :
    ∃ d < 16, d.digitChar = c := by
  rw [hex, List.leftpad, List.mem_append] at hc
  rcases hc with hc | hc
  · exact ⟨0, by decide, (List.mem_replicate.mp hc).2.symm⟩
  · exact exists_digitChar_of_mem_toDigits (by decide) hc

theorem mem_hex {mask : BitVec 64} {c : Char} (hc : c ∈ hex mask) :
    c ≠ 'C' ∧ isAsciiWhitespace c = false := by
  obtain ⟨d, hd, rfl⟩ := exists_digitChar_of_mem_hex hc
  interval_cases d <;> decide

theorem hex_ne_nil (mask : BitVec 64) : hex mask ≠ [] :=
  List.append_ne_nil_of_right_ne_nil _ Nat.toDigits_ne_nil

/-- The line of a set contains the name of no other set. -/
theorem infix_capLine_iff {set set' : CapSet} :
    set.display.toList <:+: (s.capLine set').toList ↔ set = set' := by
  obtain ⟨p, hp⟩ := set.display_eq_cons
  obtain ⟨p', hp'⟩ := set'.display_eq_cons
  have hC : 'C' ∉ p' ++ ':' :: '\t' :: hex (s.mask set') := by
    have hp'' : 'C' ∉ p' := by
      cases set' <;> obtain rfl := List.tail_eq_of_cons_eq hp' <;> decide
    simp only [List.mem_append, List.mem_cons, not_or]
    exact ⟨hp'', by decide, by decide, fun h => (mem_hex h).1 rfl⟩
  constructor
  · intro h
    rw [capLine, String.toList_ofList, hp', List.cons_append, hp, List.infix_cons_iff] at h
    rcases h with h | h
    · -- both names have the same length
      rw [← hp, ← List.cons_append, ← hp'] at h
      refine CapSet.display_toList_injective (List.IsPrefix.eq_of_length ?_ ?_)
      · exact List.prefix_of_prefix_length_le h (List.prefix_append _ _)
          (by rw [CapSet.length_display, CapSet.length_display])
      · rw [CapSet.length_display, CapSet.length_display]
    · exact absurd (h.subset List.mem_cons_self) hC
  · rintro rfl
    rw [capLine, String.toList_ofList]
    exact (List.prefix_append _ _).isInfix

/-- The last word of the line of a set is its mask. -/
theorem getLast?_capLine (set : CapSet) :
    (splitAsciiWhitespace (s.capLine set).toList).getLast? = some (hex (s.mask set)) := by
  have hkey : set.display.toList ++ ':' :: '\t' :: hex (s.mask set) =
      (set.display.toList ++ [':']) ++ '\t' :: hex (s.mask set) := by
    rw [List.append_assoc]
    rfl
  rw [capLine, String.toList_ofList, hkey, splitAsciiWhitespace_append rfl,
    splitAsciiWhitespace_word (hex_ne_nil _) fun c hc => (mem_hex hc).2]
  exact List.getLast?_concat

theorem fromStrRadix_hex (mask : BitVec 64) :
    fromStrRadix 16 (UInt64.size - 1) (hex mask) = .ok mask.toNat :=
  fromStrRadix_toDigits (by decide) (by decide) (Nat.le_sub_one_of_lt mask.isLt) _

/-- A set that is read from its own line has the mask of that line. -/
theorem capsEncoded_capLine {set : CapSet} {content : List String}
    (h : content.find? (fun line => containsStr line.toList set.display.toList) =
      some (s.capLine set)) : set.capsEncoded content = .ok (s.mask set) := by
  simp only [CapSet.capsEncoded, h, unwrap_some, Outcome.ok_bind, getLast?_capLine,
    fromStrRadix_hex]
  rw [BitVec.ofNat_toNat, BitVec.setWidth_eq]

/-! ## Reading the file -/

theorem find?_capLines (set : CapSet) :
    (CapSet.list.map s.capLine).find? (fun line => containsStr line.toList set.display.toList) =
      some (s.capLine set) := by
  have hdec : ∀ set' : CapSet, containsStr (s.capLine set').toList set.display.toList =
      decide (set = set') := by
    intro set'
    rw [Bool.eq_iff_iff, containsStr_iff, infix_capLine_iff, decide_eq_true_iff]
  rw [List.find?_map]
  simp only [Function.comp_def, hdec]
  cases set <;> rfl

theorem find?_lines (set : CapSet) :
    (s.lines.filterMap id).find? (fun line => containsStr line.toList set.display.toList) =
      (s.nameLine.filter fun line => containsStr line.toList set.display.toList).or
        (some (s.capLine set)) := by
  have hb : s.before.find? (fun line => containsStr line.toList set.display.toList) = none := by
    rw [List.find?_eq_none]
    intro line hl hc
    exact s.before_other line hl set (containsStr_iff.mp hc)
  have hrest : (s.before ++ CapSet.list.map s.capLine ++ s.after).find?
      (fun line => containsStr line.toList set.display.toList) = some (s.capLine set) := by
    rw [List.find?_append, List.find?_append, hb, find?_capLines]
    rfl
  have hl : s.lines.filterMap id =
      s.nameLine.toList ++ (s.before ++ CapSet.list.map s.capLine ++ s.after) := by
    rw [lines, List.filterMap_cons, List.filterMap_map]
    cases s.nameLine <;> simp
  rw [hl, List.find?_append, hrest]
  cases s.nameLine with
  | none => rfl
  | some line =>
    rw [Option.toList_some, List.find?_cons, Option.filter_some]
    cases containsStr line.toList set.display.toList <;> rfl

/-- The line that is found for a set is its own if and only if the name of the process does not
contain the name of the set. -/
theorem find?_lines_eq_iff (set : CapSet) :
    (s.lines.filterMap id).find? (fun line => containsStr line.toList set.display.toList) =
        some (s.capLine set) ↔
      ¬ ∃ name, s.name = some name ∧ set.display.toList <:+: name := by
  rw [find?_lines]
  cases hn : s.nameLine with
  | none =>
    rw [nameLine, Option.map_eq_none_iff] at hn
    simp [hn]
  | some line =>
    rw [← infix_nameLine_iff hn, ← containsStr_iff, Option.filter_some]
    split_ifs with hc
    · refine iff_of_false (fun h => ?_) (not_not.mpr hc)
      exact nameLine_ne_capLine set (hn.trans h)
    · exact iff_of_true rfl hc

/-- A process with all capabilities whose name hides the permitted ones. -/
def disguisedFile : StatusFile where
  name := some "CapPrm 0".toList
  before := ["Umask:\t0022", "State:\tS (sleeping)", "SigCgt:\t0000000000000000"]
  mask set := if set = .capInh then 0#64 else 0x1ffffffffff#64
  after := ["NoNewPrivs:\t0"]
  before_other line hl set := by
    have h : ∀ line ∈ ["Umask:\t0022", "State:\tS (sleeping)", "SigCgt:\t0000000000000000"],
        ∀ set ∈ CapSet.list, ¬ set.display.toList <:+: line.toList := by decide
    exact h line hl set set.mem_list

theorem disguisedFile_misread :
    disguisedFile.lines.take 6 = [some "Name:\tCapPrm 0", some "Umask:\t0022",
        some "State:\tS (sleeping)", some "SigCgt:\t0000000000000000",
        some "CapInh:\t0000000000000000", some "CapPrm:\t000001ffffffffff"] ∧
      CapSet.capPrm.capsEncoded (disguisedFile.lines.filterMap id) = .ok 0#64 ∧
      ¬ disguisedFile.ReadRight := by
  refine ⟨by decide +kernel, by decide +kernel, ?_⟩
  rintro ⟨capSets, -, h⟩
  exact (find?_lines_eq_iff .capPrm).mp (h .capPrm).1 ⟨_, rfl, by decide⟩

/-- Each capability set is read from its own line, with the capabilities whose bits are set in
its mask, if and only if the process does not bear the name of a set. -/
theorem readRight_iff (s : StatusFile) : s.ReadRight ↔ ¬ s.Disguised := by
  constructor
  · rintro ⟨capSets, -, h⟩ ⟨name, hn, set, hset⟩
    exact (find?_lines_eq_iff set).mp (h set).1 ⟨name, hn, hset⟩
  · intro h
    have hfind : ∀ set : CapSet, (s.lines.filterMap id).find?
        (fun line => containsStr line.toList set.display.toList) = some (s.capLine set) := by
      intro set
      rw [find?_lines_eq_iff]
      rintro ⟨name, hn, hset⟩
      exact h ⟨name, hn, set, hset⟩
    have hdecode : ∀ set : CapSet, ∃ caps,
        set.decodeLine (s.lines.filterMap id) = .ok caps ∧
          CapSet.decode (s.mask set) = .ok caps := by
      intro set
      obtain ⟨caps, hcaps⟩ := CapSet.decode_isOk (s.mask set)
      refine ⟨caps, ?_, hcaps⟩
      rw [CapSet.decodeLine, capsEncoded_capLine (hfind set)]
      exact hcaps
    have hok : ∃ capSets, CapSet.parseProcStatus (.ok s.lines) = .ok capSets := by
      refine foldlM_isOk (fun m set _ => ?_) _
      obtain ⟨caps, hcaps, -⟩ := hdecode set
      exact ⟨_, bind_eq_ok.mpr ⟨caps, hcaps, rfl⟩⟩
    obtain ⟨capSets, hok⟩ := hok
    refine ⟨capSets, hok, fun set => ⟨hfind set, ?_⟩⟩
    obtain ⟨lines, hl, hget⟩ := CapSet.parseProcStatus_eq_ok hok
    obtain rfl := Except.ok.inj hl
    obtain ⟨caps, hc, hg⟩ := hget set
    obtain ⟨caps', hc', hd⟩ := hdecode set
    obtain rfl := Outcome.ok_unique hc hc'
    exact ⟨caps, hg, fun c => CapSet.mem_decode hd⟩

end StatusFile

end Checkc

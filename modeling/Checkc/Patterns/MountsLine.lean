import Checkc.Patterns.Mountinfo

/-! # The kernel's mounts lines

The grammar of the lines of `/proc/<pid>/mounts`, and what the pattern reads in them. The pattern
begins with a repetition that leaves a single character for the mount point.
-/

namespace Checkc

open Regex

/-- A line of a mount table. The options begin with the access mode. -/
structure MountsLine where
  source : Field
  mountpoint : Field
  fsType : Field
  mountopts : Field
  access : ['r', 'w'] <+: mountopts.1 ∨ ['r', 'o'] <+: mountopts.1

namespace MountsLine

variable {l : MountsLine}

/-- The fields before the last number. -/
def words (l : MountsLine) : List (List Char) :=
  [l.source.1, l.mountpoint.1, l.fsType.1, l.mountopts.1, ['0']]

def text (l : MountsLine) : List Char := marked ' ' l.words ++ ['0']

/-- The pattern captures the fields of the line. -/
def Captured (l : MountsLine) : Prop :=
  ∃ m, search regexMounts l.text = some m ∧ m.get "mountpoint" = some l.mountpoint.1 ∧
    m.get "fs_type" = some l.fsType.1 ∧ m.get "mountopts" = some l.mountopts.1

theorem blank_notMem_words : ∀ w ∈ l.words, ' ' ∉ w := by
  simp only [words, List.forall_mem_cons]
  exact ⟨l.source.blank_notMem, l.mountpoint.blank_notMem, l.fsType.blank_notMem,
    l.mountopts.blank_notMem, by decide, by simp⟩

/-- The options are no number. -/
theorem mountopts_ne_digit {d : Char} (hd : d.isDigit = true) : l.mountopts.1 ≠ [d] := by
  intro h
  have hhead : l.mountopts.1.head? = some 'r' := by
    rcases l.access with ⟨t, ht⟩ | ⟨t, ht⟩ <;> rw [← ht] <;> rfl
  rw [h] at hhead
  obtain rfl : d = 'r' := Option.some.inj hhead
  exact absurd hd (by decide)

/-- The part of the pattern after the mount point. -/
theorem parses_mounts_rest_iff {u : List Char} {c : Captures} :
    Parses (.seq (.group "fs_type" (plus notSpace)) <| .seq (lit ' ') <|
      .seq (.group "mountopts" (plus notSpace)) <| .seq (lit ' ') <| .seq (.char Char.isDigit) <|
      .seq (lit ' ') (.char Char.isDigit)) u c ↔
      ∃ fsType mountopts d d', u = marked ' ' [fsType, mountopts, [d]] ++ [d'] ∧
        c = [("fs_type", fsType), ("mountopts", mountopts)] ∧ IsRun notSpace fsType ∧
        IsRun notSpace mountopts ∧ d.isDigit = true ∧ d'.isDigit = true := by
  have hdigits : ∀ {u c}, Parses (.seq (.char Char.isDigit) <| .seq (lit ' ') <|
      .char Char.isDigit) u c ↔
      (∃ d d', u = [d, ' ', d'] ∧ d.isDigit = true ∧ d'.isDigit = true) ∧ c = [] := by
    intro u c
    simp only [parses_seq_iff, parses_char_iff, parses_lit_iff]
    constructor
    · rintro ⟨_, _, _, _, rfl, rfl, ⟨d, hd, rfl, rfl⟩, _, _, _, _, rfl, rfl, ⟨rfl, rfl⟩, d', hd',
        rfl, rfl⟩
      exact ⟨⟨d, d', rfl, hd, hd'⟩, rfl⟩
    · rintro ⟨⟨d, d', rfl, hd, hd'⟩, rfl⟩
      exact ⟨[d], [], _, [], rfl, rfl, ⟨d, hd, rfl, rfl⟩, [' '], [], [d'], [], rfl, rfl, ⟨rfl, rfl⟩,
        d', hd', rfl, rfl⟩
  simp only [parses_group_plus_lit_iff, hdigits]
  constructor
  · rintro ⟨fsType, _, _, rfl, rfl, hf, mountopts, _, _, rfl, rfl, ho, ⟨d, d', rfl, hd, hd'⟩, rfl⟩
    exact ⟨fsType, mountopts, d, d', by simp, rfl, hf, ho, hd, hd'⟩
  · rintro ⟨fsType, mountopts, d, d', rfl, rfl, hf, ho, hd, hd'⟩
    exact ⟨fsType, _, _, by simp, rfl, hf, mountopts, _, _, rfl, rfl, ho, ⟨d, d', rfl, hd, hd'⟩,
      rfl⟩

/-- What a search in the line captures: the last character of the mount point, the file system type
and the options. -/
theorem captures_of_search {m : Match} (h : search regexMounts l.text = some m) :
    ∃ u b, l.mountpoint.1 = u ++ [b] ∧ isWhitespace b = false ∧
      m.captures = [("mountpoint", [b]), ("fs_type", l.fsType.1), ("mountopts", l.mountopts.1)] ∧
      IsRun notSpace l.fsType.1 ∧ IsRun notSpace l.mountopts.1 := by
  obtain ⟨pre, s, htext, hfirst⟩ := exists_first_of_search h
  obtain ⟨u, b, w, t, c, rfl, hu, hb, hw, hc⟩ := first_star_group_plus_lit (by decide) hfirst
  obtain ⟨fsType, mountopts, d, d', rfl, rfl, hf, ho, hd, -⟩ := parses_mounts_rest_iff.mp hw
  have hub : IsRun notSpace (u ++ [b]) :=
    ⟨by simp, List.forall_mem_append.mpr ⟨hu, by simpa using hb⟩⟩
  have hblank : ∀ w ∈ [u ++ [b], fsType, mountopts, [d]], ' ' ∉ w := by
    simp only [List.forall_mem_cons]
    exact ⟨blank_notMem_of_isRun_notSpace hub, blank_notMem_of_isRun_notSpace hf,
      blank_notMem_of_isRun_notSpace ho, fun hm => by simp [← List.mem_singleton.mp hm] at hd,
      by simp⟩
  have haligned : pre ++ (marked ' ' [u ++ [b], fsType, mountopts, [d]] ++ d' :: t) =
      marked ' ' l.words ++ ['0'] := by
    rw [← text, htext]
    simp
  -- the digit before the last one cannot be the options, so the match begins at the mount point
  obtain ⟨before, x, after, hwords, -, -⟩ :=
    marked_aligned hblank blank_notMem_words (by decide) haligned
  rcases before with _ | ⟨source, _ | ⟨w, before⟩⟩
  · simp only [words, List.nil_append, List.cons_append, List.cons.injEq] at hwords
    exact absurd hwords.2.2.2.1 (mountopts_ne_digit hd)
  · simp only [words, List.nil_append, List.cons_append, List.cons.injEq] at hwords
    obtain ⟨-, hmount, hfs, hopts, -⟩ := hwords
    refine ⟨x ++ u, b, by simp [hmount], ?_, by rw [hc, hfs, hopts], hfs ▸ hf, hopts ▸ ho⟩
    simpa [notSpace] using hb
  · have hlen := congrArg List.length hwords
    simp only [words, List.length_cons, List.length_append, List.length_nil] at hlen
    omega

/-- The pattern matches unless there is white space in one of the fields that it captures. -/
theorem search_isSome (hm : ∀ c ∈ l.mountpoint.1, isWhitespace c = false)
    (hf : ∀ c ∈ l.fsType.1, isWhitespace c = false)
    (ho : ∀ c ∈ l.mountopts.1, isWhitespace c = false) :
    (search regexMounts l.text).isSome = true := by
  have hrest := parses_mounts_rest_iff.mpr ⟨l.fsType.1, l.mountopts.1, '0', '0', rfl, rfl,
    isRun_notSpace_iff.mpr ⟨l.fsType.2.1, hf⟩, isRun_notSpace_iff.mpr ⟨l.mountopts.2.1, ho⟩, rfl,
    rfl⟩
  have hgroup := (parses_group_plus_lit_iff (n := "mountpoint") (a := ' ')).mpr
    ⟨l.mountpoint.1, _, _, rfl, rfl, isRun_notSpace_iff.mpr ⟨l.mountpoint.2.1, hm⟩, hrest⟩
  refine search_isSome_iff.mpr ⟨l.source.1 ++ [' '], _, [], ?_, _, .seq .star_nil hgroup⟩
  simp [text, words]

/-- The pattern captures the fields if and only if the mount point is a single character and none of
the captured fields has white space. -/
theorem captured_iff (l : MountsLine) : l.Captured ↔
    (∃ c, l.mountpoint.1 = [c]) ∧ (∀ c ∈ l.mountpoint.1, isWhitespace c = false) ∧
      (∀ c ∈ l.fsType.1, isWhitespace c = false) ∧ ∀ c ∈ l.mountopts.1, isWhitespace c = false := by
  constructor
  · rintro ⟨m, hm, hmount, -, -⟩
    obtain ⟨u, b, hub, hb, hc, hf, ho⟩ := captures_of_search hm
    have hsingle : l.mountpoint.1 = [b] := by
      simpa [Match.get, hc, eq_comm] using hmount
    refine ⟨⟨b, hsingle⟩, ?_, (isRun_notSpace_iff.mp hf).2, (isRun_notSpace_iff.mp ho).2⟩
    rw [hsingle]
    simpa using hb
  · rintro ⟨⟨c, hsingle⟩, hm, hf, ho⟩
    obtain ⟨m, hsearch⟩ := Option.isSome_iff_exists.mp (search_isSome hm hf ho)
    obtain ⟨u, b, hub, -, hc, -, -⟩ := captures_of_search hsearch
    obtain rfl : c = b := by
      rw [hsingle] at hub
      simpa using congrArg List.getLast? hub
    exact ⟨m, hsearch, by simp [Match.get, hc, hsingle]⟩

end MountsLine

end Checkc

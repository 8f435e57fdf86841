import Checkc.Patterns.Mounts

/-! # The kernel's mountinfo lines

The grammar of the lines of `/proc/<pid>/mountinfo`, and which of them the pattern reads
correctly.
-/

namespace Checkc

open Regex

/-- The characters that the kernel does not escape in a field. -/
def notBlank (c : Char) : Bool := c ≠ ' ' && c ≠ '\t' && c ≠ '\n'

/-- A decimal number. -/
abbrev Number := { u : List Char // IsRun Char.isDigit u }

/-- A nonempty field without blanks. -/
abbrev Field := { u : List Char // IsRun notBlank u }

/-- The optional fields of a mountinfo line. -/
inductive OptionalField where
  | shared (peerGroup : Number)
  | master (peerGroup : Number)
  | propagateFrom (peerGroup : Number)
  | unbindable

def OptionalField.text : OptionalField → List Char
  | shared n => ['s', 'h', 'a', 'r', 'e', 'd'] ++ ':' :: n.1
  | master n => ['m', 'a', 's', 't', 'e', 'r'] ++ ':' :: n.1
  | propagateFrom n =>
    ['p', 'r', 'o', 'p', 'a', 'g', 'a', 't', 'e', '_', 'f', 'r', 'o', 'm'] ++ ':' :: n.1
  | unbindable => ['u', 'n', 'b', 'i', 'n', 'd', 'a', 'b', 'l', 'e']

structure MountinfoLine where
  mountId : Number
  parentId : Number
  major : Number
  minor : Number
  root : Field
  mountPoint : Field
  mountOptions : Field
  optionalFields : List OptionalField
  fsType : Field
  source : Field
  superOptions : Field

namespace MountinfoLine

/-- The device number. -/
def device (l : MountinfoLine) : List Char := l.major.1 ++ ':' :: l.minor.1

/-- The optional fields and the separator after them. -/
def optionalWords (l : MountinfoLine) : List (List Char) :=
  l.optionalFields.map OptionalField.text ++ [['-']]

/-- The fields before the super options. -/
def words (l : MountinfoLine) : List (List Char) :=
  l.mountId.1 :: l.parentId.1 :: l.device :: l.root.1 :: l.mountPoint.1 ::
    l.mountOptions.1 :: (l.optionalWords ++ [l.fsType.1, l.source.1])

def text (l : MountinfoLine) : List Char := marked ' ' l.words ++ l.superOptions.1

/-- The line has only optional fields with a tag of letters and a number, and no white space
in the fields before the source. -/
structure Parsable (l : MountinfoLine) : Prop where
  optionalFields : ∀ f ∈ l.optionalFields, ∃ n, f = .shared n ∨ f = .master n
  root : ∀ c ∈ l.root.1, isWhitespace c = false
  mountPoint : ∀ c ∈ l.mountPoint.1, isWhitespace c = false
  mountOptions : ∀ c ∈ l.mountOptions.1, isWhitespace c = false
  fsType : ∀ c ∈ l.fsType.1, isWhitespace c = false

/-- The fields around the mount point let the pattern find it. -/
structure Readable (l : MountinfoLine) : Prop where
  optionalFields : ∀ f ∈ l.optionalFields, ∃ n, f = .shared n ∨ f = .master n
  root : ∀ c ∈ l.root.1, isWhitespace c = false
  mountOptions : ∀ c ∈ l.mountOptions.1, isWhitespace c = false
  fsType : ∃ c t, l.fsType.1 = c :: t ∧ isWhitespace c = false

/-- The pattern finds the mount point. -/
structure Located (l : MountinfoLine) : Prop extends Readable l where
  mountPoint : ∀ c ∈ l.mountPoint.1, isWhitespace c = false

end MountinfoLine

/-! ## Words -/

theorem isRun_notSpace_iff {u : List Char} :
    IsRun notSpace u ↔ u ≠ [] ∧ ∀ c ∈ u, isWhitespace c = false := by
  simp [IsRun, notSpace]

/-- The groups of a match of the pattern. -/
theorem get_captures {m : Match} {mountpoint fsType : List Char}
    (h : m.captures = [("mountpoint", mountpoint)] ++ [("fs_type", fsType)]) :
    m.get "mountpoint" = some mountpoint ∧ m.get "fs_type" = some fsType := by
  simp [Match.get, h]

theorem Number.blank_notMem (n : Number) : ' ' ∉ n.1 := n.2.notMem (by decide)

theorem Field.blank_notMem (f : Field) : ' ' ∉ f.1 := f.2.notMem (by decide)

theorem blank_notMem_of_isRun_notSpace {u : List Char} (h : IsRun notSpace u) : ' ' ∉ u :=
  h.notMem (by decide)

/-- The word has only digits and colons. -/
def IsNumeric (u : List Char) : Prop := ∀ c ∈ u, c.isDigit = true ∨ c = ':'

theorem Regex.IsRun.isNumeric {u : List Char} (h : IsRun Char.isDigit u) : IsNumeric u :=
  fun c hc => Or.inl (h.2 c hc)

theorem IsDeviceNumber.isNumeric {u : List Char} (h : IsDeviceNumber u) : IsNumeric u := by
  obtain ⟨major, minor, rfl, hmajor, hminor⟩ := h
  intro c hc
  rw [List.mem_append, List.mem_cons] at hc
  rcases hc with hc | rfl | hc
  · exact hmajor.isNumeric c hc
  · exact Or.inr rfl
  · exact hminor.isNumeric c hc

theorem IsDeviceNumber.not_isRun {u : List Char} (h : IsDeviceNumber u) :
    ¬ IsRun Char.isDigit u := by
  obtain ⟨major, minor, rfl, -, -⟩ := h
  intro hr
  exact absurd (hr.2 ':' (by simp)) (by decide)

theorem IsDeviceNumber.blank_notMem {u : List Char} (h : IsDeviceNumber u) : ' ' ∉ u :=
  fun hm => by rcases h.isNumeric ' ' hm with h | h <;> exact absurd h (by decide)

theorem IsTag.blank_notMem {u : List Char} (h : IsTag u) : ' ' ∉ u := by
  obtain ⟨tag, n, rfl, ht, hn⟩ := h
  simp only [List.mem_append, List.mem_cons, not_or]
  exact ⟨ht.notMem (by decide), by decide, hn.notMem (by decide)⟩

theorem HeadWords.blank_notMem (x : HeadWords) : ∀ w ∈ x.mountId :: x.rest, ' ' ∉ w := by
  simp only [rest, List.forall_mem_cons, List.forall_mem_append]
  exact ⟨Number.blank_notMem ⟨_, x.mountId_run⟩, Number.blank_notMem ⟨_, x.parentId_run⟩,
    x.device_number.blank_notMem, blank_notMem_of_isRun_notSpace x.root_run,
    blank_notMem_of_isRun_notSpace x.mountPoint_run,
    blank_notMem_of_isRun_notSpace x.mountOptions_run,
    fun w hw => (x.tags_tag w hw).blank_notMem, by decide, by simp⟩

namespace OptionalField

theorem blank_notMem (f : OptionalField) : ' ' ∉ f.text := by
  cases f with
  | unbindable => decide
  | shared n | master n | propagateFrom n =>
    simp [text, n.blank_notMem]

theorem not_isNumeric (f : OptionalField) : ¬ IsNumeric f.text := by
  intro h
  cases f with
  | unbindable => exact absurd (h 'u' (by decide)) (by decide)
  | shared n => exact absurd (h 's' (by simp [text])) (by decide)
  | master n => exact absurd (h 'm' (by simp [text])) (by decide)
  | propagateFrom n => exact absurd (h 'p' (by simp [text])) (by decide)

theorem text_ne_separator (f : OptionalField) : f.text ≠ ['-'] := by
  cases f <;> simp [text]

/-- The pattern knows only some of the optional fields. -/
theorem isTag_text_iff (f : OptionalField) :
    IsTag f.text ↔ ∃ n, f = .shared n ∨ f = .master n := by
  cases f with
  | shared n =>
    exact iff_of_true ⟨_, n.1, rfl, by decide, n.2⟩ ⟨n, Or.inl rfl⟩
  | master n =>
    exact iff_of_true ⟨_, n.1, rfl, by decide, n.2⟩ ⟨n, Or.inr rfl⟩
  | propagateFrom n =>
    refine iff_of_false ?_ (by simp)
    rintro ⟨tag, k, h, ht, -⟩
    rw [text, append_cons_inj (by decide) (ht.notMem (by decide))] at h
    exact absurd (ht.2 '_' (h.1 ▸ by decide)) (by decide)
  | unbindable =>
    refine iff_of_false ?_ (by simp)
    rintro ⟨tag, k, h, -, -⟩
    have hm : ':' ∈ text unbindable := by rw [h]; simp
    exact absurd hm (by decide)

end OptionalField

/-! ## Lines -/

namespace MountinfoLine

variable {l : MountinfoLine}

theorem device_number (l : MountinfoLine) : IsDeviceNumber l.device :=
  ⟨_, _, rfl, l.major.2, l.minor.2⟩

theorem blank_notMem_words : ∀ w ∈ l.words, ' ' ∉ w := by
  simp only [words, optionalWords, List.forall_mem_cons, List.forall_mem_append,
    List.forall_mem_map]
  exact ⟨l.mountId.blank_notMem, l.parentId.blank_notMem, l.device_number.blank_notMem,
    l.root.blank_notMem, l.mountPoint.blank_notMem, l.mountOptions.blank_notMem,
    ⟨⟨fun f _ => f.blank_notMem, by decide, by simp⟩, l.fsType.blank_notMem,
      l.source.blank_notMem, by simp⟩⟩

theorem not_isNumeric_of_mem_optionalWords {w : List Char} (h : w ∈ l.optionalWords) :
    ¬ IsNumeric w := by
  rw [optionalWords, List.mem_append, List.mem_map, List.mem_singleton] at h
  rcases h with ⟨f, -, rfl⟩ | rfl
  · exact f.not_isNumeric
  · exact fun hn => absurd (hn '-' (by decide)) (by decide)

/-- A word with two others after it is none of the last two words. -/
theorem mem_of_append_cons_eq {α : Type*} {b r f t : List α} {w : α}
    (h : b ++ w :: r = f ++ t) (hr : t.length ≤ r.length) : w ∈ f := by
  rw [List.append_eq_append_iff] at h
  rcases h with ⟨f', rfl, h⟩ | ⟨b', rfl, rfl⟩
  · cases f' with
    | nil =>
      rw [List.nil_append] at h
      rw [← h, List.length_cons] at hr
      omega
    | cons v f' =>
      rw [List.cons_append, List.cons.injEq] at h
      simp [h.1]
  · rw [List.length_append, List.length_cons] at hr
    omega

/-- The words of the pattern can only begin at the first field. -/
theorem before_eq_nil {x : HeadWords} {before after : List (List Char)} {y : List Char}
    (h : l.words = before ++ (y ++ x.mountId) :: (x.rest ++ after))
    (hm : x.mountPoint = l.mountPoint.1) : before = [] := by
  have hnum {w : List Char} {b r} (hw : IsNumeric w)
      (he : l.optionalWords ++ [l.fsType.1, l.source.1] = b ++ w :: r)
      (hr : 2 ≤ r.length) : False :=
    not_isNumeric_of_mem_optionalWords (mem_of_append_cons_eq he.symm hr) hw
  have hparent := x.parentId_run.isNumeric
  have hdevice := x.device_number.isNumeric
  simp only [words, HeadWords.rest] at h
  rcases before with _ | ⟨b₀, _ | ⟨b₁, _ | ⟨b₂, _ | ⟨b₃, _ | ⟨b₄, _ | ⟨b₅, before⟩⟩⟩⟩⟩⟩
  · rfl
  all_goals
    exfalso
    simp only [List.cons_append, List.nil_append, List.append_assoc, List.cons.injEq] at h
  · -- the device number would be a parent id
    obtain ⟨-, -, hd, -⟩ := h
    exact l.device_number.not_isRun (hd ▸ x.parentId_run)
  · obtain ⟨-, -, -, -, hd, -, h⟩ := h
    exact hnum (b := []) (hm ▸ hd ▸ hdevice) h (by simp; omega)
  · obtain ⟨-, -, -, -, hp, -, h⟩ := h
    exact hnum (b := [x.root]) (hm ▸ hp ▸ hparent) h (by simp; omega)
  · obtain ⟨-, -, -, -, -, -, h⟩ := h
    exact hnum (b := []) hdevice h (by simp)
  · obtain ⟨-, -, -, -, -, -, h⟩ := h
    exact hnum (b := []) hparent h (by simp)
  · obtain ⟨-, -, -, -, -, -, h⟩ := h
    exact hnum (b := before ++ [y ++ x.mountId]) hparent (by simpa using h) (by simp)

/-- Where they begin later, the mount point is one of the words after the mount options. -/
theorem mountPoint_mem_optionalWords {x : HeadWords} {before after : List (List Char)}
    {y : List Char} (h : l.words = before ++ (y ++ x.mountId) :: (x.rest ++ after)) :
    before = [] ∨ x.mountPoint ∈ l.optionalWords := by
  have hmem {b} (he : l.optionalWords ++ [l.fsType.1, l.source.1] =
      b ++ x.mountPoint :: x.mountOptions :: (x.tags ++ ['-'] :: after)) :
      x.mountPoint ∈ l.optionalWords :=
    mem_of_append_cons_eq he.symm (by simp; omega)
  simp only [words, HeadWords.rest] at h
  rcases before with _ | ⟨b₀, _ | ⟨b₁, _ | ⟨b₂, _ | ⟨b₃, _ | ⟨b₄, _ | ⟨b₅, before⟩⟩⟩⟩⟩⟩
  · exact Or.inl rfl
  all_goals
    right
    simp only [List.cons_append, List.nil_append, List.append_assoc, List.cons.injEq] at h
  · -- the device number would be a parent id
    obtain ⟨-, -, hd, -⟩ := h
    exact absurd (hd ▸ x.parentId_run) l.device_number.not_isRun
  · exact hmem (b := []) h.2.2.2.2.2.2
  · exact hmem (b := [x.root]) h.2.2.2.2.2.2
  · exact hmem (b := [x.device, x.root]) h.2.2.2.2.2.2
  · exact hmem (b := [x.parentId, x.device, x.root]) h.2.2.2.2.2.2
  · exact hmem (b := before ++ [y ++ x.mountId, x.parentId, x.device, x.root])
      (by simpa using h.2.2.2.2.2.2)

/-- Where the words of the pattern begin at the first field, they are the fields of the line. -/
theorem eq_of_words_eq {x : HeadWords} {after : List (List Char)} {y : List Char}
    (h : l.words = (y ++ x.mountId) :: (x.rest ++ after)) :
    x.mountPoint = l.mountPoint.1 ∧ after = [l.fsType.1, l.source.1] ∧
      x.root = l.root.1 ∧ x.mountOptions = l.mountOptions.1 ∧
      x.tags = l.optionalFields.map OptionalField.text := by
  simp only [words, optionalWords, HeadWords.rest, List.cons_append, List.append_assoc,
    List.nil_append, List.cons.injEq] at h
  obtain ⟨-, -, -, hr, hm, ho, h⟩ := h
  have hsep : ['-'] ∉ l.optionalFields.map OptionalField.text := by
    simp [OptionalField.text_ne_separator]
  rw [append_cons_inj hsep fun ht => ?_] at h
  · exact ⟨hm.symm, h.2.symm, hr.symm, ho.symm, h.1.symm⟩
  · obtain ⟨tag, n, he, -⟩ := x.tags_tag _ ht
    have hc : ':' ∈ ['-'] := he ▸ by simp
    exact absurd hc (by decide)

/-- A part of a line that the pattern matches is aligned with the fields of the line. -/
theorem exists_aligned {pre u t : List Char} {c : Captures} (hu : Parses regexMountinfoHead u c)
    (h : l.text = pre ++ (u ++ t)) :
    ∃ (x : HeadWords) (before after : List (List Char)) (y : List Char),
      c = [("mountpoint", x.mountPoint)] ∧
      l.words = before ++ (y ++ x.mountId) :: (x.rest ++ after) ∧
      pre = marked ' ' before ++ y ∧ t = marked ' ' after ++ l.superOptions.1 := by
  obtain ⟨x, rfl, rfl⟩ := parses_regexMountinfoHead_iff.mp hu
  obtain ⟨before, y, after, hw, hpre, ht⟩ := marked_aligned x.blank_notMem blank_notMem_words
    l.superOptions.blank_notMem h.symm
  exact ⟨x, before, after, y, rfl, hw, hpre, ht⟩

/-- The words of the pattern in a line whose mount point is found. -/
def Located.headWords (h : l.Located) : HeadWords where
  mountId := l.mountId.1
  parentId := l.parentId.1
  device := l.device
  root := l.root.1
  mountPoint := l.mountPoint.1
  mountOptions := l.mountOptions.1
  tags := l.optionalFields.map OptionalField.text
  mountId_run := l.mountId.2
  parentId_run := l.parentId.2
  device_number := l.device_number
  root_run := isRun_notSpace_iff.mpr ⟨l.root.2.1, h.root⟩
  mountPoint_run := isRun_notSpace_iff.mpr ⟨l.mountPoint.2.1, h.mountPoint⟩
  mountOptions_run := isRun_notSpace_iff.mpr ⟨l.mountOptions.2.1, h.mountOptions⟩
  tags_tag := List.forall_mem_map.mpr fun f hf => f.isTag_text_iff.mpr (h.optionalFields f hf)

/-- A captured file system type ends at the first white space of the field. -/
theorem takeWhile_fsType (f t : List Char) :
    (f ++ ' ' :: t).takeWhile notSpace = f.takeWhile notSpace := by
  induction f with
  | nil => rfl
  | cons c f ih => rw [List.cons_append, List.takeWhile_cons, List.takeWhile_cons, ih]

theorem takeWhile_fsType_ne_nil {f : List Char} :
    f.takeWhile notSpace ≠ [] ↔ ∃ c t, f = c :: t ∧ isWhitespace c = false := by
  cases f with
  | nil => simp
  | cons c f =>
    rw [List.takeWhile_cons]
    cases hc : isWhitespace c <;> simp [notSpace, hc]

theorem Located.exists_first (h : l.Located) : ∃ m, first regexMountinfo l.text = some m := by
  have hhead := parses_regexMountinfoHead_iff.mpr ⟨h.headWords, rfl, rfl⟩
  have hrun : IsRun notSpace (l.fsType.1.takeWhile notSpace) :=
    ⟨takeWhile_fsType_ne_nil.mpr h.fsType, fun _ => List.mem_takeWhile_imp⟩
  have hfs : Parses (plus notSpace) (l.fsType.1.takeWhile notSpace) [] :=
    parses_plus_iff.mpr ⟨hrun, rfl⟩
  have hm := mem_run_of_parses (.seq hhead (hfs.group "fs_type"))
    (l.fsType.1.dropWhile notSpace ++ ' ' :: (l.source.1 ++ ' ' :: l.superOptions.1))
  obtain ⟨m, hm⟩ := exists_first_of_mem_run hm
  refine ⟨m, ?_⟩
  have htext : l.text = marked ' ' (h.headWords.mountId :: h.headWords.rest) ++
      (l.fsType.1 ++ ' ' :: (l.source.1 ++ ' ' :: l.superOptions.1)) := by
    simp [text, words, optionalWords, marked_append, HeadWords.rest, headWords]
  rw [regexMountinfo, ← hm, htext, List.append_assoc, ← List.append_assoc (List.takeWhile _ _),
    List.takeWhile_append_dropWhile]

/-- The groups of the preferred match at the first field. -/
theorem Located.captured (h : l.Located) : ∃ m, search regexMountinfo l.text = some m ∧
    m.get "mountpoint" = some l.mountPoint.1 ∧
    m.get "fs_type" = some (l.fsType.1.takeWhile notSpace) := by
  obtain ⟨m, hm⟩ := h.exists_first
  obtain ⟨u, t, c, htext, hu, -, hc⟩ := first_seq_group_plus hm
  have htext' : l.text = [] ++ (u ++ t) := htext
  obtain ⟨x, before, after, y, rfl, hw, hpre, rfl⟩ := exists_aligned hu htext'
  obtain rfl : before = [] := by
    cases before with
    | nil => rfl
    | cons w before => simp at hpre
  obtain ⟨hmp, rfl, -⟩ := eq_of_words_eq hw
  obtain ⟨hmount, hfs⟩ := get_captures hc
  refine ⟨m, search_of_first hm, by rw [hmount, hmp], ?_⟩
  rw [hfs, marked_cons, List.append_assoc, List.cons_append, takeWhile_fsType]

/-- If the mount point is found, then the pattern begins at the first field. -/
theorem located_of_search {m : Match} (hm : search regexMountinfo l.text = some m)
    (hmount : m.get "mountpoint" = some l.mountPoint.1) :
    l.Located ∧ m.get "fs_type" = some (l.fsType.1.takeWhile notSpace) := by
  obtain ⟨pre, s, htext, hf⟩ := exists_first_of_search hm
  obtain ⟨u, t, c, rfl, hu, hne, hc⟩ := first_seq_group_plus hf
  obtain ⟨x, before, after, y, rfl, hw, -, rfl⟩ := exists_aligned hu htext
  obtain ⟨hmount', hfs⟩ := get_captures hc
  obtain rfl := before_eq_nil hw (Option.some.inj (hmount'.symm.trans hmount))
  obtain ⟨hmp, rfl, hr, ho, ht⟩ := eq_of_words_eq hw
  rw [marked_cons, List.append_assoc, List.cons_append, takeWhile_fsType] at hfs hne
  refine ⟨⟨⟨fun f hf => ?_, hr ▸ (isRun_notSpace_iff.mp x.root_run).2,
    ho ▸ (isRun_notSpace_iff.mp x.mountOptions_run).2, takeWhile_fsType_ne_nil.mp hne⟩,
    hmp ▸ (isRun_notSpace_iff.mp x.mountPoint_run).2⟩, hfs⟩
  exact f.isTag_text_iff.mp (x.tags_tag _ (ht ▸ List.mem_map_of_mem hf))

/-- The pattern reads the mount point and the file system type of a line exactly when the
line is parsable. -/
theorem captured_iff (l : MountinfoLine) :
    (∃ m, search regexMountinfo l.text = some m ∧ m.get "mountpoint" = some l.mountPoint.1 ∧
      m.get "fs_type" = some l.fsType.1) ↔ l.Parsable := by
  constructor
  · rintro ⟨m, hm, hmount, hfs⟩
    obtain ⟨h, hfs'⟩ := located_of_search hm hmount
    refine ⟨h.optionalFields, h.root, h.mountPoint, h.mountOptions, fun a ha => ?_⟩
    rw [← Option.some.inj (hfs'.symm.trans hfs)] at ha
    simpa [notSpace] using List.mem_takeWhile_imp ha
  · intro h
    obtain ⟨c, f, hf⟩ := List.exists_cons_of_ne_nil l.fsType.2.1
    have hl : l.Located := ⟨⟨h.optionalFields, h.root, h.mountOptions,
      c, f, hf, h.fsType c (by simp [hf])⟩, h.mountPoint⟩
    obtain ⟨m, hm, hmount, hfs⟩ := hl.captured
    refine ⟨m, hm, hmount, ?_⟩
    rw [hfs, List.takeWhile_eq_self_iff.mpr fun a ha => by simpa [notSpace] using h.fsType a ha]

end MountinfoLine

end Checkc

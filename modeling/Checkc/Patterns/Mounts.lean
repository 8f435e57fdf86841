import Checkc.Regex.Greedy
import Checkc.Rust.Text
import Checkc.Rust.Words

/-! # Lines of mount tables

The pattern for `mountinfo` lines finds the mount point and the file system type of a line
unless one of the optional fields has another shape than a tag with a number, or one of the
fields that it skips or captures contains white space.
-/

namespace Checkc

open Regex

/-- The class `[^\s]`. -/
def notSpace (c : Char) : Bool := !isWhitespace c

/-- `REGEX_MOUNTS`. -/
def regexMounts : Regex :=
  .seq (.star (.char notSpace)) <| .seq (.group "mountpoint" (plus notSpace)) <|
    .seq (lit ' ') <| .seq (.group "fs_type" (plus notSpace)) <|
    .seq (lit ' ') <| .seq (.group "mountopts" (plus notSpace)) <|
    .seq (lit ' ') <| .seq (.char Char.isDigit) <| .seq (lit ' ') (.char Char.isDigit)

/-- The part `[[:alpha:]]+:[0-9]+ ` of `REGEX_MOUNTINFO`. -/
def regexTag : Regex :=
  .seq (plus Char.isAlpha) <| .seq (lit ':') <| .seq (plus Char.isDigit) (lit ' ')

/-- `REGEX_MOUNTINFO` up to the file system type. -/
def regexMountinfoHead : Regex :=
  .seq (plus Char.isDigit) <| .seq (lit ' ') <| .seq (plus Char.isDigit) <| .seq (lit ' ') <|
    .seq (plus Char.isDigit) <| .seq (lit ':') <| .seq (plus Char.isDigit) <| .seq (lit ' ') <|
    .seq (plus notSpace) <| .seq (lit ' ') <|
    .seq (.group "mountpoint" (plus notSpace)) <| .seq (lit ' ') <|
    .seq (plus notSpace) <| .seq (lit ' ') <|
    .seq (.star regexTag) <| .seq (lit '-') (lit ' ')

/-- `REGEX_MOUNTINFO`. -/
def regexMountinfo : Regex := .seq regexMountinfoHead (.group "fs_type" (plus notSpace))

/-! ## The words of the pattern -/

/-- A device number `major:minor`. -/
def IsDeviceNumber (u : List Char) : Prop :=
  ∃ major minor, u = major ++ ':' :: minor ∧ IsRun Char.isDigit major ∧ IsRun Char.isDigit minor

/-- A tag of letters with a number. -/
def IsTag (u : List Char) : Prop :=
  ∃ tag n, u = tag ++ ':' :: n ∧ IsRun Char.isAlpha tag ∧ IsRun Char.isDigit n

theorem parses_regexTag_iff {u : List Char} {c : Captures} :
    Parses regexTag u c ↔ (∃ w, IsTag w ∧ u = w ++ [' ']) ∧ c = [] := by
  rw [regexTag, parses_plus_lit_iff]
  simp only [parses_seq_iff, parses_plus_iff, parses_lit_iff, IsTag]
  constructor
  · rintro ⟨tag, _, rfl, ht, n, _, _, _, rfl, rfl, ⟨hn, rfl⟩, rfl, rfl⟩
    exact ⟨⟨_, ⟨tag, n, rfl, ht, hn⟩, by simp⟩, rfl⟩
  · rintro ⟨⟨_, ⟨tag, n, rfl, ht, hn⟩, rfl⟩, rfl⟩
    exact ⟨tag, _, by simp, ht, n, [], [' '], [], rfl, rfl, ⟨hn, rfl⟩, rfl, rfl⟩

theorem parses_star_regexTag_iff {u : List Char} {c : Captures} :
    Parses (.star regexTag) u c ↔ (∃ ws, (∀ w ∈ ws, IsTag w) ∧ u = marked ' ' ws) ∧ c = [] := by
  rw [parses_star_iff]
  constructor
  · rintro ⟨l, hl, rfl, rfl⟩
    induction l with
    | nil => exact ⟨⟨[], by simp, rfl⟩, rfl⟩
    | cons x l ih =>
      rw [List.forall_mem_cons] at hl
      obtain ⟨⟨w, hw, hx⟩, hc⟩ := parses_regexTag_iff.mp hl.1.2
      obtain ⟨⟨ws, hws, hl'⟩, hc'⟩ := ih hl.2
      refine ⟨⟨w :: ws, List.forall_mem_cons.mpr ⟨hw, hws⟩, ?_⟩, ?_⟩
      · rw [List.flatMap_cons, hx, hl', marked_cons, List.append_assoc, List.singleton_append]
      · rw [List.flatMap_cons, hc, hc', List.append_nil]
  · rintro ⟨⟨ws, hws, rfl⟩, rfl⟩
    refine ⟨ws.map fun w => (w ++ [' '], []), ?_, by simp [marked, List.flatMap_map], by simp⟩
    simp only [List.forall_mem_map]
    exact fun w hw => ⟨by simp, parses_regexTag_iff.mpr ⟨⟨w, hws w hw, rfl⟩, rfl⟩⟩

/-- The words before the file system type, as the pattern reads them. -/
structure HeadWords where
  mountId : List Char
  parentId : List Char
  device : List Char
  root : List Char
  mountPoint : List Char
  mountOptions : List Char
  tags : List (List Char)
  mountId_run : IsRun Char.isDigit mountId
  parentId_run : IsRun Char.isDigit parentId
  device_number : IsDeviceNumber device
  root_run : IsRun notSpace root
  mountPoint_run : IsRun notSpace mountPoint
  mountOptions_run : IsRun notSpace mountOptions
  tags_tag : ∀ w ∈ tags, IsTag w

/-- The words after the mount id. -/
def HeadWords.rest (x : HeadWords) : List (List Char) :=
  x.parentId :: x.device :: x.root :: x.mountPoint :: x.mountOptions :: (x.tags ++ [['-']])

theorem parses_regexMountinfoHead_iff {u : List Char} {c : Captures} :
    Parses regexMountinfoHead u c ↔ ∃ x : HeadWords,
      u = marked ' ' (x.mountId :: x.rest) ∧ c = [("mountpoint", x.mountPoint)] := by
  have hsep : ∀ {u c}, Parses (.seq (.star regexTag) (.seq (lit '-') (lit ' '))) u c ↔
      (∃ ws, (∀ w ∈ ws, IsTag w) ∧ u = marked ' ' (ws ++ [['-']])) ∧ c = [] := by
    intro u c
    simp only [parses_seq_iff, parses_star_regexTag_iff, parses_lit_iff, marked_append]
    constructor
    · rintro ⟨_, _, _, _, rfl, rfl, ⟨⟨ws, hws, rfl⟩, rfl⟩, _, _, _, _, rfl, rfl, ⟨rfl, rfl⟩, rfl,
        rfl⟩
      exact ⟨⟨ws, hws, rfl⟩, rfl⟩
    · rintro ⟨⟨ws, hws, rfl⟩, rfl⟩
      exact ⟨_, [], _, [], rfl, rfl, ⟨⟨ws, hws, rfl⟩, rfl⟩, ['-'], [], [' '], [], rfl, rfl,
        ⟨rfl, rfl⟩, rfl, rfl⟩
  simp only [regexMountinfoHead, parses_plus_lit_iff, parses_group_plus_lit_iff, hsep]
  constructor
  · rintro ⟨a, _, rfl, ha, b, _, rfl, hb, major, _, rfl, hmajor, minor, _, rfl, hminor,
      root, _, rfl, hroot, mp, _, _, rfl, rfl, hmp, opts, _, rfl, hopts, ⟨ws, hws, rfl⟩, rfl⟩
    refine ⟨⟨a, b, _, root, mp, opts, ws, ha, hb, ⟨major, minor, rfl, hmajor, hminor⟩, hroot, hmp,
      hopts, hws⟩, ?_, rfl⟩
    simp only [HeadWords.rest, marked_cons, List.append_assoc, List.cons_append]
  · rintro ⟨⟨a, b, _, root, mp, opts, ws, ha, hb, ⟨major, minor, rfl, hmajor, hminor⟩, hroot, hmp,
      hopts, hws⟩, rfl, rfl⟩
    refine ⟨a, _, ?_, ha, b, _, rfl, hb, major, _, rfl, hmajor, minor, _, rfl, hminor,
      root, _, rfl, hroot, mp, _, _, rfl, rfl, hmp, opts, _, rfl, hopts, ⟨ws, hws, rfl⟩, rfl⟩
    simp only [HeadWords.rest, marked_cons, List.append_assoc, List.cons_append]

end Checkc

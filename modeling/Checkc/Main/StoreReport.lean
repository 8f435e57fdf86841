import Checkc.CConfig.Basic
import Checkc.Rust.Path
import Mathlib.Logic.Function.Basic

/-! # Storing reports

A report is written to the given path, or below it if that is a directory. The file of the given
path is never overwritten, but the one below a directory is.
-/

namespace Checkc

/-- What a path can lead to. -/
inductive Node where
  | file (content : ByteArray)
  | dir
  | special

/-- The nodes of a file system. -/
abbrev Nodes (α : Type) := α → Option Node

/-- A file system, with the nodes that paths lead to and the nodes that are opened when files are
created. Only a node that exists is found, and only one that is not a directory is opened. -/
structure FileSystem (α : Type) where
  nodes : Nodes α
  resolve : PathBuf → Except Errno α
  create : PathBuf → Except Errno α
  nodes_of_resolve : ∀ {p a}, resolve p = .ok a → nodes a ≠ none
  create_existing : ∀ {p a b}, resolve p = .ok a → create p = .ok b → b = a ∧ nodes a ≠ some .dir
  create_new : ∀ {p e a}, resolve p = .error e → create p = .ok a → nodes a = none

/-- How a write ends: all bytes are written, or it fails after some of them. -/
inductive WriteEnd where
  | all
  | failed (n : ℕ) (e : Errno)

namespace FileSystem

variable {α : Type} (S : FileSystem α)

/-- `Path::is_file`. -/
def isFile (path : PathBuf) : Bool :=
  match S.resolve path with
  | .ok a => match S.nodes a with
    | some (.file _) => true
    | _ => false
  | .error _ => false

/-- `Path::is_dir`. -/
def isDir (path : PathBuf) : Bool :=
  match S.resolve path with
  | .ok a => match S.nodes a with
    | some .dir => true
    | _ => false
  | .error _ => false

/-- The path that `store_report` creates. -/
def outPath (out defaultFile : String) : PathBuf :=
  if S.isDir out then Path.join out defaultFile else out

/-- The path leads to a node that can be opened for writing. -/
def Overwritable (path : PathBuf) : Prop :=
  ∃ a, S.resolve path = .ok a ∧ S.create path = .ok a

variable {S} {path : PathBuf}

theorem isFile_of_isDir (h : S.isDir path = true) : S.isFile path = false := by
  unfold isDir at h
  unfold isFile
  cases hr : S.resolve path with
  | error e => rfl
  | ok a =>
    simp only [hr] at h
    rcases hn : S.nodes a with _ | _ | _ | _ <;> simp_all

end FileSystem

section

variable {α : Type} [DecidableEq α]

/-- Opening a node makes it an empty file, unless it is special. -/
def Nodes.open (nodes : Nodes α) (a : α) : Nodes α :=
  match nodes a with
  | some .special => nodes
  | _ => Function.update nodes a (some (.file .empty))

/-- Writing to an open node. -/
def Nodes.append (nodes : Nodes α) (a : α) (bytes : ByteArray) : Nodes α :=
  match nodes a with
  | some (.file content) => Function.update nodes a (some (.file (content ++ bytes)))
  | _ => nodes

/-- `write_all`. -/
def Nodes.writeAll (nodes : Nodes α) (a : α) (bytes : ByteArray) :
    WriteEnd → Result Unit × Nodes α
  | .all => (.ok (), nodes.append a bytes)
  | .failed n e => (.err (.ioError e), nodes.append a (bytes.extract 0 n))

/-- `store_report`, with the nodes that it leaves. -/
def FileSystem.storeReport (S : FileSystem α) (w : WriteEnd) (out data defaultFile : String) :
    Result Unit × Nodes α :=
  if S.isFile out then (.panic s!"Refusing to overwrite file at {out}", S.nodes)
  else
    match S.create (S.outPath out defaultFile) with
    | .error e => (.err (.ioError e), S.nodes)
    | .ok a => (S.nodes.open a).writeAll a data.toUTF8 w

/-! ## Frames -/

variable {nodes : Nodes α} {a b : α}

theorem Nodes.open_of_ne (h : b ≠ a) : nodes.open a b = nodes b := by
  unfold Nodes.open
  rcases nodes a with _ | _ | _ | _
  · exact Function.update_of_ne h _ _
  · exact Function.update_of_ne h _ _
  · exact Function.update_of_ne h _ _
  · rfl

theorem Nodes.open_new (h : nodes a = none) : nodes.open a a = some (.file .empty) := by
  rw [Nodes.open, h]
  exact Function.update_self a _ nodes

theorem Nodes.append_of_ne {bytes : ByteArray} (h : b ≠ a) : nodes.append a bytes b = nodes b := by
  unfold Nodes.append
  rcases nodes a with _ | content | _ | _
  · rfl
  · exact Function.update_of_ne h _ _
  · rfl
  · rfl

theorem Nodes.append_file {content bytes : ByteArray} (h : nodes a = some (.file content)) :
    nodes.append a bytes a = some (.file (content ++ bytes)) := by
  rw [Nodes.append, h]
  exact Function.update_self a _ nodes

/-- A write leaves all other nodes as they are. -/
theorem Nodes.writeAll_of_ne {bytes : ByteArray} {w : WriteEnd} (h : b ≠ a) :
    (nodes.writeAll a bytes w).2 b = nodes b := by
  cases w with
  | all => exact append_of_ne h
  | failed n e => exact append_of_ne h

namespace FileSystem

variable {S : FileSystem α} {out data defaultFile : String} {w : WriteEnd}

/-- What storing a report can do: nothing, because the path leads to a file or because no file can
be opened, or a write to the node that is opened. -/
theorem storeReport_cases (S : FileSystem α) (w : WriteEnd) (out data defaultFile : String) :
    (S.isFile out = true ∧ S.storeReport w out data defaultFile =
      (.panic s!"Refusing to overwrite file at {out}", S.nodes)) ∨
    (S.isFile out = false ∧ ∃ e, S.create (S.outPath out defaultFile) = .error e ∧
      S.storeReport w out data defaultFile = (.err (.ioError e), S.nodes)) ∨
    (S.isFile out = false ∧ ∃ a, S.create (S.outPath out defaultFile) = .ok a ∧
      S.storeReport w out data defaultFile = (S.nodes.open a).writeAll a data.toUTF8 w) := by
  unfold storeReport
  cases hf : S.isFile out with
  | true => exact Or.inl ⟨rfl, rfl⟩
  | false =>
    cases hc : S.create (S.outPath out defaultFile) with
    | error e => exact Or.inr (Or.inl ⟨rfl, e, rfl, rfl⟩)
    | ok a => exact Or.inr (Or.inr ⟨rfl, a, rfl, rfl⟩)

/-- A report is stored safely if every file that exists keeps its content, however the call ends,
and if after a success exactly one file is new and holds the report. -/
def StoresSafely (S : FileSystem α) (out data defaultFile : String) : Prop :=
  ∀ w, (∀ a content, S.nodes a = some (.file content) →
      (S.storeReport w out data defaultFile).2 a = some (.file content)) ∧
    ((S.storeReport w out data defaultFile).1 = .ok () →
      ∃ a, (S.storeReport w out data defaultFile).2 a = some (.file data.toUTF8) ∧
        ∀ b, S.nodes b = none ∧ (S.storeReport w out data defaultFile).2 b ≠ none ↔ b = a)

/-- Writing to a new node is safe. -/
theorem writeAll_new {a : α} (bytes : ByteArray) (ha : S.nodes a = none) :
    (∀ b content, S.nodes b = some (.file content) →
      ((S.nodes.open a).writeAll a bytes w).2 b = some (.file content)) ∧
    (((S.nodes.open a).writeAll a bytes w).1 = .ok () →
      ((S.nodes.open a).writeAll a bytes w).2 a = some (.file bytes) ∧
        ∀ b, S.nodes b = none ∧ ((S.nodes.open a).writeAll a bytes w).2 b ≠ none ↔ b = a) := by
  have hframe : ∀ b, b ≠ a → ((S.nodes.open a).writeAll a bytes w).2 b = S.nodes b := fun b hb =>
    (Nodes.writeAll_of_ne hb).trans (Nodes.open_of_ne hb)
  constructor
  · intro b content hb
    rw [hframe b (by rintro rfl; cases ha.symm.trans hb), hb]
  · intro hok
    have hwritten : ((S.nodes.open a).writeAll a bytes w).2 a = some (.file bytes) := by
      cases w with
      | all => exact (Nodes.append_file (Nodes.open_new ha)).trans (by rw [ByteArray.empty_append])
      | failed n e => cases hok
    refine ⟨hwritten, fun b => ⟨fun hb => ?_, ?_⟩⟩
    · by_contra hne
      exact hb.2 ((hframe b hne).trans hb.1)
    · rintro rfl
      exact ⟨ha, by simp [hwritten]⟩

/-- Writing to a node that exists makes no node new. -/
theorem writeAll_existing {a b : α} {bytes : ByteArray} (ha : S.nodes a ≠ none)
    (hb : S.nodes b = none) : ((S.nodes.open a).writeAll a bytes w).2 b = none := by
  have hne : b ≠ a := by
    rintro rfl
    exact ha hb
  rw [Nodes.writeAll_of_ne hne, Nodes.open_of_ne hne, hb]

/-- Writing to a path that leads to a node is not safe, because no file is new then. -/
theorem not_storesSafely (hf : S.isFile out = false)
    (h : S.Overwritable (S.outPath out defaultFile)) : ¬ S.StoresSafely out data defaultFile := by
  obtain ⟨a, ha, hc⟩ := h
  intro hsafe
  have hs : S.storeReport .all out data defaultFile =
      (S.nodes.open a).writeAll a data.toUTF8 .all := by
    simp [storeReport, hf, hc]
  obtain ⟨-, hnew⟩ := hsafe .all
  rw [hs] at hnew
  obtain ⟨b, -, hiff⟩ := hnew rfl
  obtain ⟨hnone, hsome⟩ := (hiff b).mpr rfl
  exact hsome (writeAll_existing (S.nodes_of_resolve ha) hnone)

theorem storesSafely_of_not_overwritable
    (h : S.isFile out = false → ¬ S.Overwritable (S.outPath out defaultFile)) :
    S.StoresSafely out data defaultFile := by
  intro w
  rcases S.storeReport_cases w out data defaultFile with
    ⟨-, hs⟩ | ⟨-, e, -, hs⟩ | ⟨hf, a, hc, hs⟩ <;> rw [hs]
  · exact ⟨fun _ _ ha => ha, nofun⟩
  · exact ⟨fun _ _ ha => ha, nofun⟩
  · have hfree : S.nodes a = none := by
      cases hr : S.resolve (S.outPath out defaultFile) with
      | error e => exact S.create_new hr hc
      | ok b =>
        obtain ⟨rfl, -⟩ := S.create_existing hr hc
        exact absurd ⟨a, hr, hc⟩ (h hf)
    obtain ⟨hkeep, hnew⟩ := writeAll_new (w := w) data.toUTF8 hfree
    exact ⟨hkeep, fun hok => ⟨a, hnew hok⟩⟩

/-- A report is stored safely if and only if the default file of a directory cannot be overwritten,
and neither can a node that is no file. -/
theorem storesSafely_iff (S : FileSystem α) (out data defaultFile : String) :
    S.StoresSafely out data defaultFile ↔
      (S.isDir out = true → ¬ S.Overwritable (Path.join out defaultFile)) ∧
        (S.isDir out = false → S.isFile out = false → ¬ S.Overwritable out) := by
  have hsafe : S.StoresSafely out data defaultFile ↔
      (S.isFile out = false → ¬ S.Overwritable (S.outPath out defaultFile)) :=
    ⟨fun h hf ho => not_storesSafely hf ho h, storesSafely_of_not_overwritable⟩
  rw [hsafe]
  cases hd : S.isDir out with
  | true => simp [outPath, hd, isFile_of_isDir hd]
  | false => simp [outPath, hd]

end FileSystem

end

/-- The directory `/r` has a report. -/
def reportDir : FileSystem ℕ where
  nodes a := if a = 0 then some .dir else if a = 1 then some (.file "old".toUTF8) else none
  resolve path :=
    if path = "/r" then .ok 0
    else if path = "/r/evaluation_report.json" then .ok 1
    else .error .ENOENT
  create path :=
    if path = "/r" then .error .EISDIR
    else if path = "/r/evaluation_report.json" then .ok 1
    else .error .ENOENT
  nodes_of_resolve := by
    intro p a h
    split_ifs at h
    all_goals
      cases h
      decide
  create_existing := by
    intro p a b h hc
    split_ifs at h hc
    cases h
    cases hc
    exact ⟨rfl, by simp⟩
  create_new := by
    intro p e a h hc
    split_ifs at h hc

/-- The path of the report is refused, but the path of its directory overwrites it. -/
theorem reportDir_overwritten :
    (reportDir.storeReport .all "/r/evaluation_report.json" "new" "evaluation_report.json").1 =
        .panic "Refusing to overwrite file at /r/evaluation_report.json" ∧
      (reportDir.storeReport .all "/r" "new" "evaluation_report.json").1 = .ok () ∧
      (reportDir.storeReport .all "/r" "new" "evaluation_report.json").2 1 =
        some (.file "new".toUTF8) ∧
      ¬ reportDir.StoresSafely "/r" "new" "evaluation_report.json" := by
  have hwritten : (reportDir.storeReport .all "/r" "new" "evaluation_report.json").2 1 =
      some (.file "new".toUTF8) := by
    rfl
  refine ⟨by decide +kernel, by decide +kernel, hwritten, fun hsafe => ?_⟩
  have hkept := (hsafe .all).1 1 "old".toUTF8 rfl
  rw [hwritten, Option.some.injEq, Node.file.injEq] at hkept
  revert hkept
  decide

/-! ## Runs of the program -/

/-- A file system over time. How paths are resolved depends on its nodes. -/
structure Disk (α : Type) where
  on : Nodes α → FileSystem α
  nodes_on : ∀ nodes, (on nodes).nodes = nodes

/-- The output path of a run, its report, the file name of its kind and how its write ends. -/
structure StoreCall where
  out : String
  data : String
  defaultFile : String
  writeEnd : WriteEnd

section

variable {α : Type} [DecidableEq α] (D : Disk α) {nodes : Nodes α} {calls : List StoreCall} {a : α}
  {content : ByteArray}

/-- The nodes that a run leaves. -/
def Disk.store (nodes : Nodes α) (c : StoreCall) : Nodes α :=
  ((D.on nodes).storeReport c.writeEnd c.out c.data c.defaultFile).2

/-- The output path is a directory, and below it the node is the file for reports of this kind. -/
def Disk.Replaces (nodes : Nodes α) (c : StoreCall) (a : α) : Prop :=
  (D.on nodes).isDir c.out = true ∧ (D.on nodes).resolve (Path.join c.out c.defaultFile) = .ok a

variable {D}

/-- A run changes a file only if it replaces it below a directory. -/
theorem Disk.store_file {c : StoreCall} (ha : nodes a = some (.file content))
    (h : ¬ D.Replaces nodes c a) : D.store nodes c a = some (.file content) := by
  have hnodes := D.nodes_on nodes
  unfold store
  rcases (D.on nodes).storeReport_cases c.writeEnd c.out c.data c.defaultFile with
    ⟨-, hs⟩ | ⟨-, e, -, hs⟩ | ⟨hf, b, hc, hs⟩ <;> rw [hs, hnodes]
  · exact ha
  · exact ha
  by_cases hab : a = b
  · subst hab
    cases hr : (D.on nodes).resolve ((D.on nodes).outPath c.out c.defaultFile) with
    | error e =>
      have hnew := (D.on nodes).create_new hr hc
      rw [hnodes, ha] at hnew
      cases hnew
    | ok b =>
      obtain ⟨rfl, -⟩ := (D.on nodes).create_existing hr hc
      cases hd : (D.on nodes).isDir c.out with
      | true =>
        rw [FileSystem.outPath, if_pos hd] at hr
        exact absurd ⟨hd, hr⟩ h
      | false =>
        -- the path itself leads to the file, so that the run is refused
        rw [FileSystem.outPath, if_neg (by simp [hd])] at hr
        simp [FileSystem.isFile, hr, hnodes, ha] at hf
  · rw [Nodes.writeAll_of_ne hab, Nodes.open_of_ne hab, ha]

/-- Over any sequence of runs, whatever their output paths are and however their writes end, a file
keeps its content as long as no run replaces it below a directory. -/
theorem Disk.foldl_store_file (ha : nodes a = some (.file content))
    (h : ∀ l c, l ++ [c] <+: calls → ¬ D.Replaces (l.foldl D.store nodes) c a) :
    calls.foldl D.store nodes a = some (.file content) := by
  induction calls using List.reverseRecOn with
  | nil => exact ha
  | append_singleton l c ih =>
    rw [List.foldl_append, List.foldl_cons, List.foldl_nil]
    refine Disk.store_file (ih fun l' c' hl => h l' c' ?_) (h l c (List.prefix_refl _))
    exact hl.trans (List.prefix_append l [c])

end

/-- A disk without links, on which each path leads to its own node. -/
def flatDisk : Disk String where
  on nodes :=
    { nodes
      resolve := fun p => if (nodes p).isSome then .ok p else .error .ENOENT
      create := fun p =>
        match nodes p with
        | some .dir => .error .EISDIR
        | _ => .ok p
      nodes_of_resolve := by
        intro p a h
        split_ifs at h with hp
        cases h
        exact Option.isSome_iff_ne_none.mp hp
      create_existing := by
        intro p a b h hc
        split_ifs at h with hp
        cases h
        split at hc
        · cases hc
        · case h_2 hdir =>
          cases hc
          exact ⟨rfl, hdir⟩
      create_new := by
        intro p e a h hc
        split_ifs at h with hp
        split at hc
        · cases hc
        · cases hc
          simpa using hp }
  nodes_on _ := rfl

/-- A directory with a report. -/
def savedNodes : Nodes String := fun p =>
  if p = "/r" then some .dir else if p = "/r/a.json" then some (.file "old".toUTF8) else none

/-- The report stays when runs are refused, and when they write a report next to it. -/
theorem foldl_store_file_flatDisk : [⟨"/r/a.json", "1", "evaluation_report.json", .all⟩,
    ⟨"/r", "2", "evaluation_report.json", .all⟩, ⟨"/r", "3", "host_data_raw.json", .all⟩].foldl
      flatDisk.store savedNodes "/r/a.json" = some (.file "old".toUTF8) := by
  refine Disk.foldl_store_file rfl fun l c hl ⟨_, hr⟩ => ?_
  have hc := hl.subset (List.mem_append_right l List.mem_cons_self)
  have hpath : Path.join c.out c.defaultFile = "/r/a.json" := by
    simp only [flatDisk] at hr
    split_ifs at hr
    exact Except.ok.inj hr
  revert hpath
  simp only [List.mem_cons, List.not_mem_nil, or_false] at hc
  rcases hc with rfl | rfl | rfl <;> decide

end Checkc

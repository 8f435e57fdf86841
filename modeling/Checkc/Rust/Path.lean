import Mathlib.Data.List.Infix

/-! # Paths

A path is compared by its components: separators may be repeated, a component `.`
counts only at the beginning of a relative path, and `..` is kept.
-/

namespace Checkc

abbrev PathBuf := String

namespace Path

/-- `std::path::Component` on Unix. A name is any bytes, which need not be valid text. -/
inductive Component where
  | rootDir | curDir | parentDir
  | normal (name : List Char)
  | raw (bytes : List UInt8)
  deriving DecidableEq, Repr

/-- The component for a part between separators, if it counts. -/
def component : List Char → Option Component
  | [] => none
  | ['.'] => none
  | ['.', '.'] => some .parentDir
  | name => some (.normal name)

/-- `Path::components`. -/
def components (path : List Char) : List Component :=
  let parts := path.splitOn '/'
  let leading := if path.head? = some '/' then [Component.rootDir]
    else if parts.head? = some ['.'] then [Component.curDir] else []
  leading ++ parts.filterMap component

/-- `Path::join`. An absolute path replaces the base. -/
def join (base path : PathBuf) : PathBuf :=
  if path.toList.head? = some '/' then path
  else if base.toList.getLast? = none ∨ base.toList.getLast? = some '/' then base ++ path
  else base ++ "/" ++ path

/-- `Path::parent`, in components. -/
def parent (path : List Component) : Option (List Component) :=
  match path.getLast? with
  | none => none
  | some .rootDir => none
  | some _ => some path.dropLast

/-- `Path::starts_with`. -/
def startsWith (path base : PathBuf) : Bool :=
  (components base.toList).isPrefixOf (components path.toList)

/-- The path is the base or lies below it, component by component. -/
def Below (path base : PathBuf) : Prop :=
  components base.toList <+: components path.toList

theorem startsWith_iff {path base : PathBuf} : startsWith path base = true ↔ Below path base :=
  List.isPrefixOf_iff_prefix

instance (path base : PathBuf) : Decidable (Below path base) :=
  decidable_of_iff _ startsWith_iff

theorem component_ne_rootDir {name : List Char} {c : Component} (h : component name = some c) :
    c ≠ .rootDir := by
  unfold component at h
  split at h
  · cases h
  · cases h
  · exact Option.some.inj h ▸ nofun
  · exact Option.some.inj h ▸ nofun

theorem rootDir_not_mem_filterMap (names : List (List Char)) :
    .rootDir ∉ names.filterMap component := by
  intro h
  obtain ⟨name, -, hname⟩ := List.mem_filterMap.mp h
  exact component_ne_rootDir hname rfl

theorem parent_concat {path : List Component} {c : Component} (h : c ≠ .rootDir) :
    parent (path ++ [c]) = some path := by
  rw [parent, List.getLast?_concat, List.dropLast_concat]
  cases c with
  | rootDir => exact absurd rfl h
  | curDir => rfl
  | parentDir => rfl
  | normal name => rfl
  | raw bytes => rfl

/-- The components of a base and of what follows a separator. -/
theorem components_append {base : List Char} (hbase : base ≠ []) (path : List Char) :
    components (base ++ '/' :: path) =
      components base ++ (path.splitOn '/').filterMap component := by
  obtain ⟨c, base', rfl⟩ := List.exists_cons_of_ne_nil hbase
  have hsplit : ((c :: base') ++ '/' :: path).splitOn '/' =
      (c :: base').splitOn '/' ++ path.splitOn '/' :=
    List.splitOn_append_cons_self _ _
  have hhead : ((c :: base').splitOn '/' ++ path.splitOn '/').head? =
      ((c :: base').splitOn '/').head? :=
    List.head?_append_of_ne_nil _ (List.splitOn_ne_nil _ _)
  simp only [components, hsplit, hhead, List.filterMap_append, List.append_assoc]
  rfl

/-- The components of names between separators. -/
theorem filterMap_splitOn_intercalate {names : List (List Char)} (h : ∀ name ∈ names, '/' ∉ name) :
    ((['/'].intercalate names).splitOn '/').filterMap component = names.filterMap component := by
  cases names with
  | nil => rfl
  | cons name names => rw [List.splitOn_intercalate '/' h (by simp)]

example : Below "/srv//c1/./data" "/srv/c1/" := by decide

-- a sibling whose name extends the name of the base is not below it
example : ¬ Below "/srv/c10/data" "/srv/c1" := by decide

end Path

end Checkc

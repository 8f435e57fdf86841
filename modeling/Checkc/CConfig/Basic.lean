import Checkc.Rust.Outcome
import Checkc.Rust.Collections

/-! # Errors and the surroundings of a run -/

namespace Checkc

/-- An error number of a system call. -/
structure Errno where
  code : Int
  deriving DecidableEq, Repr

def Errno.EPERM : Errno := ⟨1⟩

def Errno.ENOENT : Errno := ⟨2⟩

/-- Reading a file of a process that is gone. -/
def Errno.ESRCH : Errno := ⟨3⟩

/-- Opening a file without permission. -/
def Errno.EACCES : Errno := ⟨13⟩

/-- Opening a directory for writing. -/
def Errno.EISDIR : Errno := ⟨21⟩

/-- Reading a text that is not UTF-8. -/
def Errno.EILSEQ : Errno := ⟨84⟩

/-- The errors of the crate. A backtrace is not part of an error here. -/
inductive Error where
  | valueError (msg val path : String)
  | conversionFailed (msg : String)
  | ioError (source : Errno)
  | myIoError (path : String) (source : Errno)
  | ioctlFailed (errno : Errno)
  | nixError (source : Errno)
  | cgroupError
  | deviceError (path : String) (source : Option Errno)
  deriving DecidableEq, Repr

/-- The result of a call that may fail or panic. -/
abbrev Result (α : Type) := Outcome Error α

/-- The conversion of an I/O error by `?`. -/
def ioResult {α : Type} : Except Errno α → Result α
  | .error e => .err (.ioError e)
  | .ok a => .ok a

@[simp] theorem ioResult_eq_ok {α : Type} {x : Except Errno α} {a : α} :
    ioResult x = .ok a ↔ x = .ok a := by
  cases x <;> simp [ioResult]

theorem returns_ioResult {α : Type} (x : Except Errno α) : (ioResult x).Returns := by
  cases x <;> trivial

/-- A failure that `map_io_error` reports with the path. -/
def mapIoError {α : Type} (path : String) : Except Errno α → Result α
  | .error e => .err (.myIoError path e)
  | .ok a => .ok a

@[simp] theorem mapIoError_eq_ok {α : Type} {path : String} {x : Except Errno α} {a : α} :
    mapIoError path x = .ok a ↔ x = .ok a := by
  cases x <;> simp [mapIoError]

/-- What is left of answers without those that are errors. -/
theorem mem_readable {α : Type} {answers : List (Except Errno α)} {a : α} :
    a ∈ answers.filterMap Except.toOption ↔ .ok a ∈ answers := by
  rw [List.mem_filterMap]
  constructor
  · rintro ⟨answer, hanswer, h⟩
    cases answer with
    | error e => cases h
    | ok a' => exact Option.some.inj h ▸ hanswer
  · exact fun h => ⟨.ok a, h, rfl⟩

/-- A file that is read by lines: its lines, some of which may be no text, and whether it ends after
them. If it does not, then each further read fails. -/
structure Lines where
  answers : List (Except Errno String)
  ends : Bool

abbrev PidT := Int

inductive LogLevel where
  | error | warn | info | debug | trace
  deriving DecidableEq, Repr

/-- What a run depends on besides its arguments: the iteration orders of its hash
collections and the log levels that are enabled. -/
structure Env where
  σ : Traversal
  logs : LogLevel → Bool

/-- A run that traverses hash collections in order of insertion and logs everything. -/
def Env.logging : Env := ⟨.insertion, fun _ => true⟩

/-- A run that traverses hash collections against the order of insertion and logs nothing. -/
def Env.reversing : Env := ⟨.reversing, fun _ => false⟩

/-- The arguments of a log message are evaluated only when its level is enabled. -/
def Env.log {α : Type} (env : Env) (level : LogLevel) (args : Result α) : Result Unit :=
  if env.logs level then args >>= fun _ => pure () else pure ()

theorem Env.log_eq_ok {α : Type} {env : Env} {level : LogLevel} {args : Result α} {u : Unit} :
    env.log level args = .ok u ↔ (env.logs level = true → ∃ a, args = .ok a) := by
  unfold Env.log
  split <;> simp_all

end Checkc

import Checkc.CConfig.Config

/-! # The evaluation report -/

namespace Checkc

structure TestResult where
  passed : Bool
  valid : Bool
  info : List String
  deriving DecidableEq, Repr

structure Namespaces where
  active : List Int
  desired : List Int
  deriving DecidableEq, Repr

structure Chroot where
  chroot : Bool
  pivotRoot : Bool
  deriving DecidableEq, Repr

structure IsolationMechanisms where
  namespaces : Option Namespaces
  chroot : Option Chroot
  cgroup : Option Bool
  deriving DecidableEq, Repr

structure Category where
  isolation : Option IsolationMechanisms
  capabilities : List Int
  tests : HashMap String TestResult
  description : String

structure EvalInfo where
  pidsContainer : List PidT
  pidsRefContainer : List PidT
  pidHost : PidT
  containerRootHost : String
  deriving DecidableEq, Repr

structure EvalResult where
  unprivileged : Bool
  categories : HashMap String Category
  info : Option EvalInfo

end Checkc

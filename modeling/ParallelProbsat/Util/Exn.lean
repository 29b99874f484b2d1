/-
The exceptions the program throws, with their texts, and failed assertions (the build keeps
`assert`: `CMakeLists.txt` sets the release flags without `NDEBUG`).
-/
import Mathlib.Tactic

namespace ParallelProbsat.Util

inductive Exn where
  | runtimeError (what : String)
  | outOfRange (what : String)
  | invalidArgument (what : String)
  | assertion (expr : String)
  /-- `std::throw_with_nested` of a `runtime_error`. -/
  | nested (what : String) (inner : Exn)
  deriving DecidableEq, Repr

end ParallelProbsat.Util

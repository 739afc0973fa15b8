import Mathlib.Data.List.Basic

/-!
# Domain models

The values the layers of the app pass to each other, and the two queues its
code runs on.
-/

namespace OverwatchTeams

structure TeamModel where
  logoAddress : String
  name : String
  abbreviatedName : String
  location : String
  deriving DecidableEq, Repr

inductive DomainError where
  | domainUnkown
  deriving DecidableEq, Repr

/-- The queue a piece of code runs on: the main queue, or the delegate queue of
`URLSession`. -/
inductive Executor where
  | main
  | urlSession
  deriving DecidableEq, Repr

end OverwatchTeams

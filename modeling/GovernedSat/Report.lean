/-!
# Reports of a solve

A solve reports that the clauses are satisfiable under the assumptions, that they are not, or that
it was interrupted before either was decided. By the convention of incremental solvers the first
two have the codes 10 and 20, and every other code is an interruption.

## Main definitions

* `Report` — the three outcomes, with their `name`.
* `Report.ofCode` — the report of a numeric code.
-/

namespace GovernedSat

/-- The outcome of a solve. -/
inductive Report where
  /-- The clauses have a model which agrees with the assumptions. -/
  | satisfiable
  /-- They have none. -/
  | unsatisfiable
  /-- The solve ended before either was decided. -/
  | interrupted
  deriving DecidableEq, Repr

namespace Report

/-- The name of a report. -/
def name : Report → String
  | satisfiable => "Satisfiable"
  | unsatisfiable => "Unsatisfiable"
  | interrupted => "Interrupted"

/-- The report of a numeric code: 10 is satisfiable, 20 unsatisfiable, all else interrupted. -/
def ofCode (code : Int32) : Report :=
  if code = 10 then satisfiable
  else if code = 20 then unsatisfiable
  else interrupted

end Report

end GovernedSat

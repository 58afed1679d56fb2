import Criteria.Clause.Basic

/-!
# The clauses within a clause

`Clause.subclauses` lists a clause and whatever stands in it at any depth, depth first in declared order. What is
asked of every rule clause and every group is asked of the members of this list, and the first of several
offenders is the first in it.
-/

namespace Criteria
set_option autoImplicit false

namespace Clause

mutual

/-- The clause itself and the clauses within it, each before its members. -/
def subclauses : Clause → List Clause
  | .rule name negated params => [.rule name negated params]
  | .group members => .group members :: allSubclauses members

/-- The clauses of a list and those within them. -/
def allSubclauses : List Clause → List Clause
  | [] => []
  | clause :: rest => clause.subclauses ++ allSubclauses rest

end

theorem mem_allSubclauses {clauses : List Clause} {c : Clause} :
    c ∈ allSubclauses clauses ↔ ∃ clause ∈ clauses, c ∈ clause.subclauses := by
  induction clauses with
  | nil => simp [allSubclauses]
  | cons clause rest ih => simp [allSubclauses, ih]

end Clause
end Criteria

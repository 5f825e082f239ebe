import Scriptorium.Name.Basic

/-!
# Failures of a repository
-/

namespace Scriptorium

/-- Why a repository call failed. -/
inductive RepositoryError where
  | alreadyExists (name : QualifiedName)
  | access (detail : String)
  | noTransaction
  | transactionInProgress
  deriving DecidableEq, Repr

/-- The message of a failed repository call. -/
def RepositoryError.message : RepositoryError → String
  | .alreadyExists name => s!"Compiled unit [{name}] already exists in the repository"
  | .access detail => s!"Repository access failed: {detail}"
  | .noTransaction => "No transaction is in progress"
  | .transactionInProgress => "A transaction is already in progress"

end Scriptorium

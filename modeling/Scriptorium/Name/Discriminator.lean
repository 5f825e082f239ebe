import Scriptorium.Name.Basic
import Scriptorium.Dictionary

/-!
# Discriminators of one script

The expressions of a script are told apart by discriminators. The identifier
spelling of an expression's text serves while it is an identifier that no other
text of the script has taken; any other expression receives the next number
behind a dollar sign.
-/

namespace Scriptorium

/-- The discriminators handed out so far, with the texts that own them. -/
structure Discriminators where
  owners : Dictionary String String
  /-- The last number that was handed out. It grows without bound: a counter of 32 bits is taken not
  to overflow. -/
  counter : Nat

namespace Discriminators

/-- No discriminator has been handed out. -/
def start : Discriminators := ⟨∅, 0⟩

/-- The discriminator with this number. -/
def numbered (n : Nat) : String := String.ofList ('$' :: Text.natDigits n)

/-- Another text owns the discriminator. -/
def taken (ds : Discriminators) (candidate expression : String) : Bool :=
  (ds.owners.get? candidate).any (· ≠ expression)

/-- The discriminator of an expression, and the state after handing it out. -/
def allocate (ds : Discriminators) (expression : String) : String × Discriminators :=
  let candidate := Name.expressionDiscriminator expression
  if Text.isIdentifier candidate.toList && !ds.taken candidate expression then
    (candidate, { ds with owners := ds.owners.insert candidate expression })
  else
    let d := numbered (ds.counter + 1)
    (d, ⟨ds.owners.insert d expression, ds.counter + 1⟩)

/-- The discriminators of several expressions, handed out in order. -/
def allocateAll (ds : Discriminators) : List String → List String
  | [] => []
  | e :: es =>
    let (d, ds') := ds.allocate e
    d :: ds'.allocateAll es

end Discriminators

end Scriptorium

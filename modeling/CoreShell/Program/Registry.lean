/-!
# Dispatch Registry

Which units a virtual call may end up in. Every unit with a body is entered
under each proper supertype of its owner, together with its name and its
parameters; a unit without a body of its own looks up the entries under its
own owner, name and parameters.

## Main definitions

* `Signature`: An owner, a name and parameters.
* `Registry`: The entries in the order they were made.
* `Registry.find`: The units entered under a signature.
* `Registry.size`: The number of signatures with an entry.
-/

namespace CoreShell

/-- What a virtual call is resolved by. -/
structure Signature where
  /-- The position of the owning type. -/
  owner : Nat
  name : String
  parameters : List String
deriving DecidableEq, Inhabited

/-- The units with a body, entered under the signatures they override. -/
structure Registry where
  entries : List (Signature × Nat) := []
deriving Inhabited

namespace Registry

/-- The units entered under a signature, in the order they were entered. -/
def find (r : Registry) (signature : Signature) : List Nat :=
  (r.entries.filter fun entry => entry.1 = signature).map (·.2)

/-- The number of signatures with an entry. -/
def size (r : Registry) : Nat :=
  (r.entries.map (·.1)).eraseDups.length

/-- Whether no unit was entered. -/
def isEmpty (r : Registry) : Bool :=
  r.entries.isEmpty

end Registry

end CoreShell

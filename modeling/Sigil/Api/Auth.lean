import Mathlib.Order.Defs.LinearOrder

namespace Sigil
namespace Api

/-!
# Roles

A role includes the less privileged ones.  A handler that needs a role answers with 403
to a user who has neither it nor a higher one.
-/

/-- An access role, in the order of privilege. -/
inductive Role where
  | viewer
  | analyst
  | admin
  deriving DecidableEq, Repr

/-- The rank of a role. -/
def Role.rank : Role → Nat
  | .viewer => 0
  | .analyst => 1
  | .admin => 2

/-- The user of a request. -/
structure AuthUser where
  username : String
  roles : List Role
  deriving DecidableEq, Repr

/-- The user holds the role or a higher one. -/
def AuthUser.has (user : AuthUser) (role : Role) : Bool :=
  user.roles.any fun r => role.rank ≤ r.rank

end Api
end Sigil

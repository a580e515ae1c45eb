import CommandShell.Fault

/-!
# Services

What commands can ask their shell for, each under a token.

## Main definitions

* `Services`: the registered services.
* `Services.get`: the service under a token, or the fault that there is none.
-/

namespace CommandShell

/-- The registered services, each under its token. -/
structure Services (α : Type) where
  /-- The services in the order in which their tokens were first given. -/
  entries : Entries α := []

namespace Services

variable {α : Type}

/-- The services with one more under a token; an earlier one under it is replaced. -/
def register (s : Services α) (token : String) (service : α) : Services α :=
  ⟨s.entries.insert token service⟩

/-- The services without the one under a token. -/
def unregister (s : Services α) (token : String) : Services α :=
  ⟨s.entries.erase token⟩

/-- Whether there is a service under a token. -/
def has (s : Services α) (token : String) : Bool :=
  s.entries.has token

/-- The service under a token. -/
def get (s : Services α) (token : String) : Except Fault α :=
  match s.entries.get? token with
  | some service => .ok service
  | none => .error (.noService token)

end Services

end CommandShell

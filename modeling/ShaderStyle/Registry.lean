/-!
# Registered parts

The parts that a command is put together from are registered under names and fetched by them.
-/

namespace ShaderStyle

/-- Parts by the names under which they are registered. -/
structure Registry (α : Type) where
  entries : List (String × α) := []

/-- A name under which nothing is registered. -/
structure UnregisteredName where
  key : String
  deriving DecidableEq, Repr

namespace UnregisteredName

/-- The problem in words. -/
def message (e : UnregisteredName) : String :=
  "Dependency '" ++ e.key ++ "' not registered."

end UnregisteredName

namespace Registry

variable {α : Type}

/-- Registers a part, instead of what was registered under the name before. -/
def register (r : Registry α) (key : String) (part : α) : Registry α :=
  ⟨(key, part) :: r.entries.filter fun e => e.1 ≠ key⟩

/-- The part registered under a name. -/
def get (r : Registry α) (key : String) : Except UnregisteredName α :=
  match r.entries.lookup key with
  | none => .error ⟨key⟩
  | some part => .ok part

@[simp] theorem get_register (r : Registry α) (key : String) (part : α) :
    (r.register key part).get key = .ok part := by
  simp [register, get]

end Registry

/-- The parts that the commands are put together from. -/
inductive Service where
  | announcer
  | files
  | reporter
  | settings
  | formatting
  deriving DecidableEq, Repr

end ShaderStyle

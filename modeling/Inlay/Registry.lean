import Inlay.CallSite
import Inlay.Error
import Inlay.Text.Quoted

namespace Inlay

/-- Identifiers and what expands them. Only `register` adds to a registry. -/
structure Registry where
  transpilers : Table String Transpiler

namespace Registry

def empty : Registry := ⟨.empty⟩

/-- A later registration of an identifier takes the place of an earlier one. -/
def register (r : Registry) (identifier : String) (t : Transpiler) : Except Error Registry :=
  if isIdentifier identifier then .ok ⟨r.transpilers.insert identifier t⟩
  else .error (.invalidIdentifier identifier)

def registerAll (env : Environment) (r : Registry) : List (String × Descriptor) → Except Error Registry
  | [] => .ok r
  | (identifier, descriptor) :: rest => do
    let r ← r.register identifier (descriptor.transpiler env)
    r.registerAll env rest

def ofSettings (env : Environment) (s : Settings) : Except Error Registry :=
  empty.registerAll env s.dsl.entries

def resolve (r : Registry) (identifier : String) : Except Error Transpiler :=
  match r.transpilers.get? identifier with
  | some t => .ok t
  | none => .error (.unknownIdentifier identifier)

def contains (r : Registry) (identifier : String) : Bool := r.transpilers.contains identifier

def identifiers (r : Registry) : List String := r.transpilers.keys

def size (r : Registry) : Nat := r.transpilers.size

def isEmpty (r : Registry) : Bool := r.size == 0

def summary (r : Registry) : String :=
  "TranspilerRegistry \x7b identifiers: [" ++ ", ".intercalate (r.identifiers.map Text.quote) ++ "] \x7d"

end Registry

end Inlay

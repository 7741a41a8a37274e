import Inlay.Json.Value
import Inlay.Text.Quoted

namespace Inlay.Settings

inductive Found
  | null
  | bool (b : Bool)
  | number (n : Json.Number)
  | string (s : String)
  | sequence
  | map
  deriving DecidableEq, Repr

def Found.message : Found → String
  | .null => "null"
  | .bool b => "boolean `" ++ toString b ++ "`"
  | .number (.integer i) => "integer `" ++ toString i ++ "`"
  | .number (.float text) => "floating point `" ++ text ++ "`"
  | .string s => "string " ++ Text.quote s
  | .sequence => "sequence"
  | .map => "map"

inductive Fault
  | json (f : Json.Fault)
  | invalidType (found : Found) (expected : String)
  | notSingleKey
  | unknownVariant (name : String) (known : List String)
  | missingField (name : String)
  | duplicateField (name : String)
  | invalidLength (length : Nat) (expected : String)
  deriving DecidableEq, Repr

namespace Fault

def ticked (s : String) : String := "`" ++ s ++ "`"

def choice : List String → String
  | [a, b] => ticked a ++ " or " ++ ticked b
  | names => "one of " ++ ", ".intercalate (names.map ticked)

def message : Fault → String
  | .json f => f.message
  | .invalidType found expected => "invalid type: " ++ found.message ++ ", expected " ++ expected
  | .notSingleKey => "invalid value: map, expected map with a single key"
  | .unknownVariant name known => "unknown variant " ++ ticked name ++ ", expected " ++ choice known
  | .missingField name => "missing field " ++ ticked name
  | .duplicateField name => "duplicate field " ++ ticked name
  | .invalidLength length expected =>
    "invalid length " ++ toString length ++ ", expected " ++ expected

end Fault

abbrev Read := Except Fault

def ofJson {α : Type} : Except Json.Fault α → Read α
  | .ok a => .ok a
  | .error f => .error (.json f)

end Inlay.Settings

import Inlay.Settings.Basic
import Inlay.Settings.Fault

namespace Inlay

inductive DescriptorKind
  | template
  | command
  deriving DecidableEq, Repr

namespace DescriptorKind

def name : DescriptorKind → String
  | .template => "template"
  | .command => "command"

def all : List DescriptorKind := [.template, .command]

def ofName? (s : String) : Option DescriptorKind := all.find? (·.name == s)

theorem ofName?_name (k : DescriptorKind) : ofName? k.name = some k := by cases k <;> decide

end DescriptorKind

namespace Settings

open Json

def foundIn : Value → Found
  | .null => .null
  | .bool b => .bool b
  | .number n => .number n
  | .string s => .string s
  | .array _ => .sequence
  | .object _ => .map

def unexpected {α : Type} (expected : String) (v : Value) : Read α :=
  .error (.invalidType (foundIn v) expected)

def stringOf : Value → Read String
  | .string s => .ok s
  | v => unexpected "a string" v

def boolOf : Value → Read Bool
  | .bool b => .ok b
  | v => unexpected "a boolean" v

def stringsOf : Value → Read (List String)
  | .array items => items.mapM stringOf
  | v => unexpected "a sequence" v

def escapeNamed (s : String) : Read Escape :=
  match Escape.ofName? s with
  | some e => .ok e
  | none => .error (.unknownVariant s (Escape.all.map Escape.name))

/-- An escape is its name, or an object with the name as its only key and nothing as its value. -/
def escapeOf : Value → Read Escape
  | .string s => escapeNamed s
  | .object [(key, v)] => do
    let e ← escapeNamed key
    match v with
    | .null | .object [] => .ok e
    | v => unexpected "unit" v
  | .object _ => .error .notSingleKey
  | v => unexpected "string or map" v

def once {α : Type} (name : String) (known : Option α) (read : Value → Read α) (v : Value) :
    Read (Option α) :=
  match known with
  | some _ => .error (.duplicateField name)
  | none => (read v).map some

def required {α : Type} (name : String) : Option α → Read α
  | some a => .ok a
  | none => .error (.missingField name)

def templateFields (template : Option String) (escape : Option Escape) :
    List (String × Value) → Read Descriptor
  | [] => do .ok (.template (← required "template" template) (escape.getD .none))
  | (key, v) :: rest => do
    if key = "template" then templateFields (← once key template stringOf v) escape rest
    else if key = "escape" then templateFields template (← once key escape escapeOf v) rest
    else templateFields template escape rest

def commandFields (program : Option String) (args : Option (List String)) (trim : Option Bool) :
    List (String × Value) → Read Descriptor
  | [] => do .ok (.command (← required "program" program) (args.getD []) (trim.getD true))
  | (key, v) :: rest => do
    if key = "program" then commandFields (← once key program stringOf v) args trim rest
    else if key = "args" then commandFields program (← once key args stringsOf v) trim rest
    else if key = "trim_trailing_newline" then
      commandFields program args (← once key trim boolOf v) rest
    else commandFields program args trim rest

def ofFields : DescriptorKind → List (String × Value) → Read Descriptor
  | .template => templateFields none none
  | .command => commandFields none none none

def checkNoMore (count : Nat) : List Value → Read Unit
  | [] => .ok ()
  | rest => .error (.invalidLength (count + rest.length) (toString count ++ " elements in sequence"))

def optional {α : Type} (read : Value → Read α) (default : α) (vs : List Value) : Read α :=
  match vs with
  | [] => .ok default
  | v :: _ => read v

/-- The fields in their order; those at the end may be left out, the first may not. -/
def ofSequence : DescriptorKind → List Value → Read Descriptor
  | .template, [] =>
    .error (.invalidLength 0 "struct variant TranspilerDescriptor::Template with 2 elements")
  | .template, v :: vs => do
    let template ← stringOf v
    let escape ← optional escapeOf .none vs
    checkNoMore 2 (vs.drop 1)
    .ok (.template template escape)
  | .command, [] =>
    .error (.invalidLength 0 "struct variant TranspilerDescriptor::Command with 3 elements")
  | .command, v :: vs => do
    let program ← stringOf v
    let args ← optional stringsOf [] vs
    let trim ← optional boolOf true (vs.drop 1)
    checkNoMore 3 (vs.drop 2)
    .ok (.command program args trim)

def foundAt : Node → Read Found
  | .null => .ok .null
  | .bool b => .ok (.bool b)
  | .number n =>
    match n.number? with
    | some v => .ok (.number v)
    | none => .error (.json .outOfRange)
  | .string q => (ofJson q.text).map .string
  | .array _ => .ok .sequence
  | .object _ => .ok .map
  | .broken b => .error (.json b.read)

def mismatch {α : Type} (expected : String) (n : Node) : Read α := do
  let found ← foundAt n
  .error (.invalidType found expected)

def textAt (expected : String) : Node → Read String
  | .string q => ofJson q.text
  | n => mismatch expected n

def kindAt (n : Node) : Read DescriptorKind := do
  let name ← textAt "variant identifier" n
  match DescriptorKind.ofName? name with
  | some kind => .ok kind
  | none => .error (.unknownVariant name (DescriptorKind.all.map DescriptorKind.name))

def tagName : String := "type"

/-- The kind and the other members, each of them a value that may nest less than `depth` deep. -/
def tagged (depth : Nat) (kind : Option DescriptorKind) :
    Members → Read (DescriptorKind × List (String × Value))
  | .closed => do .ok (← required tagName kind, [])
  | .broken b => .error (.json b.read)
  | .cons key value tail => do
    let name ← ofJson key.text
    if name = tagName then
      match kind with
      | some _ => .error (.duplicateField tagName)
      | none => tagged depth (some (← kindAt value)) tail
    else
      let v ← ofJson (value.value depth)
      let (kind, rest) ← tagged depth kind tail
      .ok (kind, (name, v) :: rest)

def descriptorAt (depth : Nat) : Node → Read Descriptor
  | .object members => do
    let (kind, fields) ← tagged (depth - 1) none members
    ofFields kind fields
  | .array .closed => .error (.missingField tagName)
  | .array (.broken b) => .error (.json b.read)
  | .array (.cons head tail) => do
    let kind ← kindAt head
    ofSequence kind (← ofJson (tail.values (depth - 1)))
  | n => mismatch "internally tagged enum TranspilerDescriptor" n

end Settings

def Descriptor.parse (text : Bytes) : Settings.Read Descriptor :=
  Settings.descriptorAt Json.maxDepth (Json.parse text).root

end Inlay

import Inlay.Program.Tool

namespace Inlay.Program.Cat

structure Shown where
  controls : Bool
  tabs : Bool
  ends : Bool
  numbers : Bool
  filledOnly : Bool
  squeezed : Bool

def Shown.changes (s : Shown) : Bool := s.controls || s.tabs || s.ends || s.numbers || s.squeezed

structure Place where
  number : Nat := 0
  /-- How many line feeds were the last characters, none in the middle of a line. The start counts as
  the end of a line. -/
  breaks : Option Nat := some 0

def visible (c : Char) : Octets :=
  let low (n : Nat) : Octets :=
    if n < 32 then ['^', Char.ofNat (n + 64)] else if n = 127 then ['^', '?'] else [Char.ofNat n]
  if c.toNat < 128 then low c.toNat else 'M' :: '-' :: low (c.toNat - 128)

def numberText (n : Nat) : Octets := Octets.padLeft 6 ' ' (Octets.ofNat n) ++ ['\t']

def character (s : Shown) (c : Char) (next : Option Char) : Octets :=
  if c = '\t' then if s.tabs then ['^', 'I'] else [c]
  else if s.controls then visible c
  else if s.ends ∧ c = '\r' ∧ next = some '\n' then ['^', 'M']
  else [c]

def render (s : Shown) (p : Place) : Octets → Octets × Place
  | [] => ([], p)
  | c :: cs =>
    if c = '\n' then
      let breaks := match p.breaks with
        | none => 0
        | some n => n + 1
      if s.squeezed ∧ 2 ≤ breaks then render s { p with breaks := some breaks } cs
      else
        let numbered : Bool := 0 < breaks && s.numbers && !s.filledOnly
        let number := if numbered then p.number + 1 else p.number
        let (o, p) := render s ⟨number, some breaks⟩ cs
        ((if numbered then numberText number else []) ++ (if s.ends then ['$'] else []) ++ '\n' :: o, p)
    else
      let numbered := p.breaks.isSome && s.numbers
      let number := if numbered then p.number + 1 else p.number
      let (o, p) := render s ⟨number, none⟩ cs
      ((if numbered then numberText number else []) ++ character s c cs.head? ++ o, p)

def choices : List Choice :=
  [⟨"A", some 'A', some "show-all", .nothing⟩, ⟨"b", some 'b', some "number-nonblank", .nothing⟩,
    ⟨"e", some 'e', none, .nothing⟩, ⟨"E", some 'E', some "show-ends", .nothing⟩,
    ⟨"n", some 'n', some "number", .nothing⟩, ⟨"s", some 's', some "squeeze-blank", .nothing⟩,
    ⟨"t", some 't', none, .nothing⟩, ⟨"T", some 'T', some "show-tabs", .nothing⟩,
    ⟨"u", some 'u', none, .nothing⟩, ⟨"v", some 'v', some "show-nonprinting", .nothing⟩]

def shown (a : Arguments) : Shown :=
  let any (keys : List String) : Bool := keys.any a.has
  { controls := any ["A", "e", "t", "v"], tabs := any ["A", "t", "T"], ends := any ["A", "e", "E"],
    numbers := any ["b", "n"], filledOnly := a.has "b", squeezed := a.has "s" }

def isOutput (n : Nat) : Act Bool := do
  let p ← get
  match (p.descriptors.get? 1).bind (p.streams[·]?), p.streams[n]? with
  | some out, some s =>
    match s.channel with
    | .file _ => return out.channel = s.channel && s.offset < (p.content s.channel).length
    | _ => return false
  | _, _ => return false

def one (c : Call) (s : Shown) (place : Place) (name : Octets) : Act (Option (Place × Nat)) := do
  let refuse (e : IoError) : Act (Option (Place × Nat)) := do
    Tool.complain c (Quoting.word false name ++ ": ".toList ++ Tool.reason e)
    return some (place, 1)
  match ← Tool.source name with
  | .error e => refuse e
  | .ok n =>
    if ← isOutput n then
      Tool.complain c (Quoting.word false name ++ ": input file is output file".toList)
      return some (place, 1)
    match ← Process.pull n none with
    | .error e => refuse e
    | .ok text =>
      let (o, place) := if s.changes then render s place text else (text, place)
      if o.isEmpty then return some (place, 0)
      match ← Process.put 1 o with
      | .ok () => return some (place, 0)
      | .error e =>
        Tool.complain c ("write error: ".toList ++ Tool.reason e)
        return none

def all (c : Call) (s : Shown) (place : Place) (status : Nat) : List Octets → Act Nat
  | [] => return status
  | name :: names => do
    match ← one c s place name with
    | none => return 1
    | some (place, fault) => all c s place (max status fault) names

end Cat

open Cat in
def Tool.cat : Tool := Tool.ofOptions choices true fun c a => do
  match ← Process.stream 1 with
  | .error e => fail c ("standard output: ".toList ++ reason e)
  | .ok _ =>
    let names := sourcesOf a.operands
    let status ← all c (shown a) {} 0 names
    match ← Process.stream 0 with
    | .error e => if names.contains ['-'] then fail c ("closing standard input: ".toList ++ reason e) else return status
    | .ok _ => return status

end Inlay.Program

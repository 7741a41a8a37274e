import Inlay.Program.Shell.Syntax

namespace Inlay.Program.Shell.Arithmetic

inductive Sign
  | number (n : Int)
  | name (s : String)
  | operator (o : String)
  | unknown
  deriving DecidableEq, Repr

def operators : List String :=
  ["<<=", ">>=", "<<", ">>", "<=", ">=", "==", "!=", "&&", "||", "*=", "/=", "%=", "+=", "-=", "&=", "^=", "|=",
    "+", "-", "*", "/", "%", "<", ">", "!", "(", ")", "&", "|", "^", "~", "?", ":", "="]

def maxNumber : Nat := 0x7FFFFFFFFFFFFFFF

/-- A number at the start of a text that starts with a digit, and the rest. It is hexadecimal after
`0x`, octal after another zero, and cut off at the greatest number. -/
def numeral (cs : Octets) : Nat × Octets :=
  let read (base : Nat) (cs : Octets) : Nat × Octets :=
    (min maxNumber (Octets.valueOf base (cs.takeWhile (Octets.isDigitOf base))),
      cs.dropWhile (Octets.isDigitOf base))
  match cs with
  | '0' :: x :: h :: rest =>
    if (x = 'x' ∨ x = 'X') ∧ Octets.isDigitOf 16 h then read 16 (h :: rest)
    else read 8 (x :: h :: rest)
  | '0' :: rest => read 8 rest
  | cs => read 10 cs

def integer? (o : Octets) : Option Int :=
  let magnitude (cs : Octets) : Option Nat :=
    if (cs.head?.map Char.isDigit).getD false then
      let (n, rest) := numeral cs
      if rest.isEmpty then some n else none
    else none
  match o.bare with
  | [] => some 0
  | '-' :: cs => (magnitude cs).map fun n => -(n : Int)
  | '+' :: cs => (magnitude cs).map Int.ofNat
  | cs => (magnitude cs).map Int.ofNat

def signs : (fuel : Nat) → Octets → List Sign
  | 0, _ => []
  | fuel + 1, cs =>
    match cs with
    | [] => []
    | c :: rest =>
      if Octets.isSpace c then signs fuel rest
      else if c.isDigit then .number (numeral cs).1 :: signs fuel (numeral cs).2
      else if isNameStart c then
        .name (String.ofList (cs.takeWhile isNameChar)) :: signs fuel (cs.dropWhile isNameChar)
      else
        match operators.find? fun o => o.toList.isPrefixOf cs with
        | some o => .operator o :: signs fuel (cs.drop o.length)
        | none => .unknown :: signs fuel rest

def levels : List (List String) :=
  [["||"], ["&&"], ["|"], ["^"], ["&"], ["==", "!="], ["<=", ">=", "<", ">"], ["<<", ">>"], ["+", "-"],
    ["*", "/", "%"]]

inductive Fault
  | primary
  | closing
  | colon
  | ending
  | zeroDivision
  | illegalNumber (text : Octets)
  deriving DecidableEq, Repr

def Fault.message (source : Octets) (f : Fault) : Octets :=
  let complaint (reason : String) : Octets :=
    ("arithmetic expression: " ++ reason ++ ": \"").toList ++ source ++ ['"']
  match f with
  | .primary => complaint "expecting primary"
  | .closing => complaint "expecting ')'"
  | .colon => complaint "expecting ':'"
  | .ending => complaint "expecting EOF"
  | .zeroDivision => complaint "division by zero"
  | .illegalNumber text => "Illegal number: ".toList ++ text

/-- What is still to be read, and the values that variables have been given, the latest first. -/
structure Reading where
  rest : List Sign
  assigned : List (String × Int) := []

abbrev Evaluation := StateT Reading (Except Fault)

def ofBool (b : Bool) : Int := if b then 1 else 0

def wrap (n : Int) : Int := (Int64.ofInt n).toInt

def bitwise (f : Int64 → Int64 → Int64) (a b : Int) : Int := (f (.ofInt a) (.ofInt b)).toInt

def apply (o : String) (a b : Int) : Except Fault Int :=
  match o with
  | "||" => .ok (ofBool (a ≠ 0 || b ≠ 0))
  | "&&" => .ok (ofBool (a ≠ 0 && b ≠ 0))
  | "==" => .ok (ofBool (a = b))
  | "!=" => .ok (ofBool (a ≠ b))
  | "<=" => .ok (ofBool (a ≤ b))
  | ">=" => .ok (ofBool (a ≥ b))
  | "<" => .ok (ofBool (a < b))
  | ">" => .ok (ofBool (a > b))
  | "<<" => .ok (bitwise (· <<< ·) a b)
  | ">>" => .ok (bitwise (· >>> ·) a b)
  | "&" => .ok (bitwise (· &&& ·) a b)
  | "|" => .ok (bitwise (· ||| ·) a b)
  | "^" => .ok (bitwise (· ^^^ ·) a b)
  | "+" => .ok (wrap (a + b))
  | "-" => .ok (wrap (a - b))
  | "*" => .ok (wrap (a * b))
  | "/" => if b = 0 then .error .zeroDivision else .ok (a.tdiv b)
  | "%" => if b = 0 then .error .zeroDivision else .ok (a.tmod b)
  | _ => .error .primary

def assigning? : Sign → Option String
  | .operator o =>
    if ["=", "<<=", ">>=", "*=", "/=", "%=", "+=", "-=", "&=", "^=", "|="].contains o then
      some (String.ofList o.toList.dropLast)
    else none
  | _ => none

def decides (o : String) (a : Int) : Bool := (o == "||" && a ≠ 0) || (o == "&&" && a = 0)

section

variable (value : String → Except Fault Int)

def lookup (quiet : Bool) (name : String) : Evaluation Int := do
  if quiet then return 0
  match (← get).assigned.lookup name with
  | some n => return n
  | none => value name

def assign (quiet : Bool) (name : String) (n : Int) : Evaluation Unit :=
  if quiet then pure () else modify fun r => { r with assigned := (name, n) :: r.assigned }

def advance (rest : List Sign) : Evaluation Unit := modify fun r => { r with rest := rest }

def expect (o : String) (fault : Fault) : Evaluation Unit := do
  match (← get).rest with
  | .operator p :: rest => if p = o then advance rest else throw fault
  | _ => throw fault

def combine (quiet : Bool) (o : String) (a b : Int) : Evaluation Int :=
  if quiet then pure 0 else (apply o a b : Except Fault Int)

mutual

def atom (quiet : Bool) : (fuel : Nat) → Evaluation Int
  | 0 => throw .primary
  | fuel + 1 => do
    match (← get).rest with
    | .number n :: rest => advance rest; return n
    | .name s :: rest => advance rest; lookup value quiet s
    | .operator "-" :: rest => advance rest; return wrap (-(← atom quiet fuel))
    | .operator "+" :: rest => advance rest; atom quiet fuel
    | .operator "!" :: rest => advance rest; return ofBool ((← atom quiet fuel) = 0)
    | .operator "~" :: rest => advance rest; return -(← atom quiet fuel) - 1
    | .operator "(" :: rest =>
      advance rest
      let n ← assignment quiet fuel
      expect ")" .closing
      return n
    | _ => throw .primary

def level (quiet : Bool) : (fuel : Nat) → List (List String) → Evaluation Int
  | 0, _ => throw .primary
  | fuel + 1, [] => atom quiet fuel
  | fuel + 1, os :: tighter => do
    let a ← level quiet fuel tighter
    further quiet fuel os tighter a

def further (quiet : Bool) : (fuel : Nat) → List String → List (List String) → Int → Evaluation Int
  | 0, _, _, _ => throw .primary
  | fuel + 1, os, tighter, a => do
    match (← get).rest with
    | .operator o :: rest =>
      if os.contains o then
        advance rest
        let b ← level (quiet || decides o a) fuel tighter
        further quiet fuel os tighter (← combine quiet o a b)
      else return a
    | _ => return a

def conditional (quiet : Bool) : (fuel : Nat) → Evaluation Int
  | 0 => throw .primary
  | fuel + 1 => do
    let a ← level quiet fuel levels
    match (← get).rest with
    | .operator "?" :: rest =>
      advance rest
      let b ← assignment (quiet || a = 0) fuel
      expect ":" .colon
      let c ← conditional (quiet || a ≠ 0) fuel
      return if a ≠ 0 then b else c
    | _ => return a

def assignment (quiet : Bool) : (fuel : Nat) → Evaluation Int
  | 0 => throw .primary
  | fuel + 1 => do
    match (← get).rest with
    | .name s :: o :: rest =>
      match assigning? o with
      | none => conditional quiet fuel
      | some o =>
        advance rest
        let b ← assignment quiet fuel
        let n ← if o = "" then pure b else combine quiet o (← lookup value quiet s) b
        assign quiet s n
        return n
    | _ => conditional quiet fuel

end

def evaluate (source : Octets) : Except Fault (Int × List (String × Int)) := do
  let ss := signs (source.length + 1) source
  let (n, r) ← (assignment value false (20 * ss.length + 20)).run ⟨ss, []⟩
  if r.rest.isEmpty then .ok (n, r.assigned) else .error .ending

end

end Inlay.Program.Shell.Arithmetic

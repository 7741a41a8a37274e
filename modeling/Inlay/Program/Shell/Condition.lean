import Inlay.Program.Process

namespace Inlay.Program.Shell.Condition

def integer? (o : Octets) : Option Int :=
  let inRange (n : Int) : Option Int := if -0x8000000000000000 ≤ n ∧ n < 0x8000000000000000 then some n else none
  match o.bare with
  | '-' :: ds => (Octets.nat? ds).bind fun n => inRange (-(n : Int))
  | '+' :: ds => (Octets.nat? ds).bind fun n => inRange n
  | ds => (Octets.nat? ds).bind fun n => inRange n

inductive Role
  | operand
  | unary
  | binary
  | not
  | and
  | or
  | opening
  | closing
  | ended
  deriving DecidableEq, Repr

def unaryNames : List String :=
  ["-r", "-w", "-x", "-e", "-f", "-d", "-c", "-b", "-p", "-u", "-g", "-k", "-s", "-t", "-z", "-n", "-h", "-O",
    "-G", "-L", "-S"]

def binaryNames : List String :=
  ["=", "!=", "<", ">", "-eq", "-ne", "-ge", "-gt", "-le", "-lt", "-nt", "-ot", "-ef"]

def roleOf (o : Octets) : Role :=
  let name := String.ofList o
  if unaryNames.contains name then .unary
  else if binaryNames.contains name then .binary
  else
    match name with
    | "!" => .not
    | "-a" => .and
    | "-o" => .or
    | "(" => .opening
    | ")" => .closing
    | _ => .operand

def roleAt : List Octets → Role
  | [] => .ended
  | o :: rest =>
    match roleOf o, rest with
    | .unary, [] => .operand
    | .unary, [_] => .unary
    | .unary, next :: _ => if roleOf next = .binary then .operand else .unary
    | .opening, [] => .operand
    | role, _ => role

abbrev Complaint := Octets

abbrev Reading := ExceptT Complaint (StateM (List Octets))

def here : Reading (List Octets) := get

def move : Reading Unit := modify (·.drop 1)

def number (o : Octets) : Reading Int :=
  match integer? o with
  | some n => pure n
  | none => throw ("Illegal number: ".toList ++ o)

section

variable (p : Process)

def isLink (o : Octets) : Bool :=
  match p.disk.place (Octets.toBytes o) with
  | .ok l =>
    match p.disk.entry? l with
    | some (.link _) => true
    | _ => false
  | .error _ => false

def hasBits (mask : Nat) : Process.Kind → Bool
  | .file mode _ | .directory mode => mode &&& mask ≠ 0
  | .device | .pipe => false

def unary (name : String) (o : Octets) : Reading Bool := do
  let found := (p.inspect o).toOption
  match name with
  | "-z" => return o.isEmpty
  | "-n" => return !o.isEmpty
  | "-t" =>
    let _ ← number o
    return false
  | "-h" | "-L" => return isLink p o
  | "-r" | "-w" | "-e" | "-O" | "-G" => return found.isSome
  | "-x" => return found.any (fun k => hasBits 0o111 k || (k matches .directory _))
  | "-f" => return (found matches some (.file ..))
  | "-d" => return (found matches some (.directory _))
  | "-c" => return found = some .device
  | "-p" => return found = some .pipe
  | "-u" => return found.any (hasBits 0o4000)
  | "-g" => return found.any (hasBits 0o2000)
  | "-k" => return found.any (hasBits 0o1000)
  | "-s" =>
    match found with
    | some (.file _ size) => return size ≠ 0
    | some (.directory _) => return true
    | _ => return false
  | _ => return false

def binary (name : String) (a b : Octets) : Reading Bool := do
  let compare (f : Int → Int → Bool) : Reading Bool := do return f (← number a) (← number b)
  match name with
  | "=" => return a = b
  | "!=" => return a ≠ b
  | "<" => return a < b
  | ">" => return b < a
  | "-eq" => compare (· == ·)
  | "-ne" => compare (· != ·)
  | "-ge" => compare (· ≥ ·)
  | "-gt" => compare (· > ·)
  | "-le" => compare (· ≤ ·)
  | "-lt" => compare (· < ·)
  | "-ef" =>
    let place (o : Octets) : Option Location := (p.disk.locate (Octets.toBytes o)).toOption
    return (place a).isSome && place a = place b
  | _ => return false

mutual

def either : (fuel : Nat) → Role → Reading Bool
  | 0, _ => return false
  | fuel + 1, role => do
    let a ← both fuel role
    let rest ← here
    if roleAt (rest.drop 1) ≠ .or then return a
    set (rest.drop 2)
    let b ← either fuel (roleAt (rest.drop 2))
    return a || b

def both : (fuel : Nat) → Role → Reading Bool
  | 0, _ => return false
  | fuel + 1, role => do
    let a ← negated fuel role
    let rest ← here
    if roleAt (rest.drop 1) ≠ .and then return a
    set (rest.drop 2)
    let b ← both fuel (roleAt (rest.drop 2))
    return a && b

def negated : (fuel : Nat) → Role → Reading Bool
  | 0, _ => return false
  | fuel + 1, role => do
    if role ≠ .not then return ← primary fuel role
    let rest ← here
    let next := roleAt (rest.drop 1)
    if next ≠ .ended then move
    return !(← negated fuel next)

def primary : (fuel : Nat) → Role → Reading Bool
  | 0, _ => return false
  | fuel + 1, role => do
    match role, ← here with
    | .ended, _ | _, [] => return false
    | .opening, _ :: rest =>
      move
      if roleAt rest = .closing then return false
      let b ← either fuel (roleAt rest)
      move
      if roleAt (← here) ≠ .closing then throw "closing paren expected".toList
      return b
    | .unary, o :: rest =>
      move
      match rest with
      | [] => throw (o ++ ": argument expected".toList)
      | a :: _ => unary p (String.ofList o) a
    | _, a :: rest =>
      if roleAt rest ≠ .binary then return !a.isEmpty
      move
      match rest with
      | o :: b :: _ =>
        move
        binary p (String.ofList o) a b
      | o :: [] => throw (o ++ ": argument expected".toList)
      | [] => return !a.isEmpty

end

def holds (args : List Octets) : Except Complaint Bool :=
  let read (role : Role) (args : List Octets) : Except Complaint Bool :=
    match (either p (4 * args.length + 4) role).run.run args with
    | (.error c, _) => .error c
    | (.ok _, o :: _ :: _) => .error ((if o.isEmpty then [] else o ++ ": ".toList) ++ "unexpected operator".toList)
    | (.ok b, _) => .ok b
  let whole (args : List Octets) : Except Complaint Bool := read (roleAt args) args
  let special (args : List Octets) : Except Complaint Bool :=
    match args with
    | ['!'] :: rest => (whole rest).map (!·)
    | ['('] :: rest => if rest.getLast? = some [')'] then whole rest.dropLast else whole args
    | _ => whole args
  match args with
  | [] => .ok false
  | [_, o, _] => if roleOf o = .binary then read .operand args else special args
  | [_, _, _, _] => special args
  | _ => whole args

end

end Inlay.Program.Shell.Condition

import Inlay.Program.Tool

namespace Inlay.Program.Head

structure Portion where
  bytes : Bool := false
  fromEnd : Bool := false
  count : Nat := 10

structure Plan where
  portion : Portion := {}
  titles : Option Bool := none
  nulEnded : Bool := false

def choices : List Choice :=
  [⟨"bytes", some 'c', some "bytes", .value⟩, ⟨"lines", some 'n', some "lines", .value⟩,
    ⟨"quiet", some 'q', some "quiet", .nothing⟩, ⟨"quiet", none, some "silent", .nothing⟩,
    ⟨"verbose", some 'v', some "verbose", .nothing⟩, ⟨"zero", some 'z', some "zero-terminated", .nothing⟩]

def powers : List (Char × Nat) :=
  [('k', 1), ('K', 1), ('m', 2), ('M', 2), ('G', 3), ('T', 4), ('P', 5), ('E', 6), ('Z', 7), ('Y', 8), ('R', 9),
    ('Q', 10)]

def unit? (o : Octets) : Option Nat :=
  match o with
  | [] => some 1
  | ['b'] => some 512
  | c :: rest => do
    let power ← powers.lookup c
    match rest with
    | [] | ['i', 'B'] => some (Nat.pow 1024 power)
    | ['B'] | ['D'] => some (Nat.pow 1000 power)
    | _ => none

def maxCount : Nat := 0xFFFFFFFFFFFFFFFF

def count (o : Octets) : Except Octets Nat :=
  let body := o.dropWhile Octets.isSpace
  let body := match body with
    | '+' :: rest => rest
    | _ => body
  let digits := body.takeWhile Char.isDigit
  let rest := body.drop digits.length
  match unit? rest with
  | none => .error []
  | some u =>
    if digits.isEmpty ∧ (rest.isEmpty ∨ body ≠ o) then .error []
    else
      let n := (if digits.isEmpty then 1 else Octets.valueOf 10 digits) * u
      if maxCount < n then .error ": Value too large for defined data type".toList else .ok n

def portion (bytes : Bool) (o : Octets) : Except Octets Portion :=
  let kind := if bytes then "bytes" else "lines"
  let (fromEnd, digits) : Bool × Octets := match o with
    | '-' :: rest => (true, rest)
    | _ => (false, o)
  match count digits with
  | .ok n => .ok ⟨bytes, fromEnd, n⟩
  | .error why => .error (("invalid number of " ++ kind ++ ": ").toList ++ Quoting.named digits ++ why)

def oldStyle (argument : Octets) : Option (Except Octets Plan) :=
  match argument with
  | '-' :: c :: cs =>
    if !c.isDigit then none
    else
      let digits := (c :: cs).takeWhile Char.isDigit
      let letters := (c :: cs).drop digits.length
      match letters.find? (!"bkmclqvz".toList.contains ·) with
      | some l => some (.error ("invalid trailing option -- ".toList ++ [l]))
      | none =>
        let unit := (letters.filter "bkm".toList.contains).getLast?.toList
        let counted := letters.filter "cl".toList.contains
        let bytes := counted.getLast? = some 'c' || (counted.isEmpty && !unit.isEmpty)
        let titles := (letters.filter "qv".toList.contains).getLast?.map (· == 'v')
        some do
          let p ← portion bytes (digits ++ unit)
          .ok ⟨p, titles, letters.contains 'z'⟩
  | _ => none

def addOption (p : Plan) (option : String × Octets) : Except Octets Plan :=
  match option.1 with
  | "bytes" => do .ok { p with portion := ← portion true option.2 }
  | "lines" => do .ok { p with portion := ← portion false option.2 }
  | "quiet" => .ok { p with titles := some false }
  | "verbose" => .ok { p with titles := some true }
  | _ => .ok { p with nulEnded := true }

def records (ending : Char) : Octets → List Octets
  | [] => []
  | c :: cs =>
    if c = ending then [c] :: records ending cs
    else
      match records ending cs with
      | [] => [[c]]
      | l :: ls => (c :: l) :: ls

def Plan.cut (p : Plan) (text : Octets) : Octets :=
  let keep {α : Type} (l : List α) : List α :=
    if p.portion.fromEnd then l.take (l.length - p.portion.count) else l.take p.portion.count
  if p.portion.bytes then keep text else (keep (records (if p.nulEnded then '\x00' else '\n') text)).flatten

def portionSize : Nat := 8192

def gather (p : Plan) (n : Nat) : (fuel : Nat) → Octets → Act (Except IoError Octets)
  | 0, text => return .ok text
  | fuel + 1, text => do
    let missing := p.portion.count - text.length
    let limit := if p.portion.bytes then min portionSize missing else portionSize
    let ending := if p.nulEnded then '\x00' else '\n'
    if !p.portion.fromEnd && (if p.portion.bytes then missing == 0 else p.portion.count ≤ text.count ending) then
      return .ok text
    match ← Process.pull n (some limit) with
    | .error e => return .error e
    | .ok [] => return .ok text
    | .ok o => gather p n fuel (text ++ o)

def shownName (name : Octets) : Octets := if name = ['-'] then "standard input".toList else name

def one (c : Call) (p : Plan) (titled isFirst : Bool) (name : Octets) : Act (Bool × Nat) := do
  match ← Tool.source name with
  | .error e =>
    if name = ['-'] then
      return (titled, ← Tool.fail c ("error reading 'standard input': ".toList ++ Tool.reason e))
    Tool.complain c
      ("cannot open ".toList ++ Quoting.word true name ++ " for reading: ".toList ++ Tool.reason e)
    return (false, 1)
  | .ok n =>
    let title : Octets :=
      if titled then (if isFirst then [] else ['\n']) ++ "==> ".toList ++ shownName name ++ " <==\n".toList else []
    let fuel := if p.portion.fromEnd ∨ !p.portion.bytes then 0x10000 else p.portion.count / portionSize + 2
    match ← gather p n fuel [] with
    | .error e =>
      let _ ← Process.put 1 title
      Tool.complain c ("error reading ".toList ++ Quoting.word true (shownName name) ++ ": ".toList ++ Tool.reason e)
      return (titled, 1)
    | .ok text =>
      let shown := p.cut text
      if !(← Process.isPipe n) then Process.rewind n (text.length - shown.length)
      return (titled, ← Tool.print c (title ++ shown) 0)

def all (c : Call) (p : Plan) (titled isFirst : Bool) (status : Nat) : List Octets → Act Nat
  | [] => return status
  | name :: names => do
    let (shown, fault) ← one c p titled isFirst name
    all c p titled (isFirst && !shown) (max status fault) names

end Head

open Head in
def Tool.head : Tool := fun c =>
  let (start, args) : Except Octets Plan × List Octets :=
    match c.args.head?.bind oldStyle with
    | some start => (start, c.args.drop 1)
    | none => (.ok {}, c.args)
  let invalid : Bool := match start with
    | .error text => "invalid trailing".toList.isPrefixOf text
    | .ok _ => false
  match start, Arguments.read choices true args with
  | .error text, _ => fail c (if invalid then text ++ hint c else text)
  | _, .error text => fail c (text ++ hint c)
  | .ok start, .ok a =>
    match a.given.foldlM addOption start with
    | .error text => fail c text
    | .ok p => do
      let names := sourcesOf a.operands
      let status ← all c p (p.titles.getD (1 < names.length)) true 0 names
      match ← Process.stream 0 with
      | .error e => if names.contains ['-'] then fail c ("-: ".toList ++ reason e) else return status
      | .ok _ => return status

end Inlay.Program

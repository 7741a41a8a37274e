import Inlay.Program.Tool

namespace Inlay.Program.WordCount

def choices : List Choice :=
  [⟨"c", some 'c', some "bytes", .nothing⟩, ⟨"m", some 'm', some "chars", .nothing⟩,
    ⟨"l", some 'l', some "lines", .nothing⟩, ⟨"w", some 'w', some "words", .nothing⟩,
    ⟨"L", some 'L', some "max-line-length", .nothing⟩]

def isGraphic (c : Char) : Bool := '!' ≤ c && c ≤ '~'

def words : (inWord : Bool) → Octets → Nat
  | inWord, [] => if inWord then 1 else 0
  | inWord, c :: cs =>
    if Octets.isSpace c then (if inWord then 1 else 0) + words false cs
    else words (inWord || isGraphic c) cs

def width (longest here : Nat) : Octets → Nat
  | [] => max longest here
  | c :: cs =>
    if c = '\n' ∨ c = '\r' ∨ c = '\x0C' then width (max longest here) 0 cs
    else if c = '\t' then width longest (here + (8 - here % 8)) cs
    else if c = ' ' ∨ isGraphic c then width longest (here + 1) cs
    else width longest here cs

def columns : List String := ["l", "w", "m", "c", "L"]

def count (text : Octets) : String → Nat
  | "l" => text.count '\n'
  | "w" => words false text
  | "L" => width 0 0 text
  | _ => text.length

def total (column : String) (a b : Nat) : Nat := if column = "L" then max a b else a + b

def line (width : Nat) (ns : List Nat) (name : Octets) : Octets :=
  [' '].intercalate (ns.map fun n => Octets.padLeft width ' ' (Octets.ofNat n)) ++
    (if name.isEmpty then [] else ' ' :: name) ++ ['\n']

def kind? (p : Process) (name : Octets) : Option Process.Kind :=
  if name = ['-'] then ((p.descriptors.get? 0).bind (p.streams[·]?)).map fun s => p.kindOf s.channel
  else (p.inspect name).toOption

def columnWidth (kinds : List (Option Process.Kind)) : Nat :=
  let sizes := kinds.filterMap fun
    | some (.file _ size) => some size
    | _ => none
  let least := if kinds.any fun
    | some (.file ..) | none => false
    | _ => true then 7 else 1
  max least (Octets.ofNat (sizes.foldl (· + ·) 0)).length

def one (c : Call) (asked : List String) (width : Nat) (shown : Octets) (name : Octets) :
    Act (List Nat × Nat) := do
  let zeros := asked.map fun _ => 0
  let said := Quoting.word (name = ['-']) (if name = ['-'] then "standard input".toList else name)
  match ← Tool.wholeOf name with
  | .ok text =>
    let ns := asked.map (count text)
    return (ns, ← Tool.print c (line width ns shown) 0)
  | .error (.inl e) =>
    Tool.complain c (said ++ ": ".toList ++ Tool.reason e)
    if name = ['-'] then
      let _ ← Tool.print c (line width zeros shown) 0
    return (zeros, 1)
  | .error (.inr e) =>
    Tool.complain c (said ++ ": ".toList ++ Tool.reason e)
    let _ ← Tool.print c (line width zeros shown) 0
    return (zeros, 1)

def all (c : Call) (asked : List String) (width : Nat) : List Octets → Act (List Nat × Nat)
  | [] => return (asked.map fun _ => 0, 0)
  | name :: names => do
    let (ns, fault) ← one c asked width name name
    let (more, status) ← all c asked width names
    return (List.zipWith (fun column n => total column n.1 n.2) asked (ns.zip more), max fault status)

end WordCount

open WordCount in
def Tool.wc : Tool := Tool.ofOptions choices true fun c a => do
  let asked := columns.filter a.has
  let asked := if asked.isEmpty then ["l", "w", "c"] else asked
  let names := sourcesOf a.operands
  let kinds := names.map (kind? (← get))
  let width := if asked.length = 1 ∧ names.length = 1 then 1 else columnWidth kinds
  let status ← match a.operands with
    | [] => do pure (← one c asked width [] ['-']).2
    | names => do
      let (ns, status) ← all c asked width names
      if 1 < names.length then print c (line width ns "total".toList) status else pure status
  match ← Process.stream 0 with
  | .error e => if names.contains ['-'] then fail c ("-: ".toList ++ reason e) else return status
  | .ok _ => return status

end Inlay.Program

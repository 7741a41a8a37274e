import Inlay.Disk.Basic
import Inlay.Program.Shell.Pattern

namespace Inlay.Program.Shell.FileName

def closes : (first : Bool) → Pattern → Bool
  | _, [] => false
  | first, s :: rest =>
    if s.char = '/' then false
    else if s = ⟨']', false⟩ ∧ !first then true
    else closes (first && s = ⟨'!', false⟩) rest

def hasWild : Pattern → Bool
  | [] => false
  | s :: rest =>
    (!s.literal && (s.char = '*' || s.char = '?' || (s.char = '[' && closes true rest))) || hasWild rest

def isSlash (s : Sign) : Bool := s.char == '/'

def textOf (p : List Sign) : Octets := p.map (·.char)

def isThere (d : Disk) (path : Octets) : Bool :=
  let name := Octets.toBytes path
  (d.locate name).isOk || match d.place name with
    | .ok l => (d.entry? l).isSome
    | .error _ => false

def namesIn (d : Disk) (directory : Octets) : List Octets :=
  let path := if directory.isEmpty then Path.here else Octets.toBytes directory
  match d.locate path with
  | .error _ => []
  | .ok l =>
    if d.isDirectoryAt l then ['.'] :: ['.', '.'] :: (d.children l).map fun e => Octets.ofBytes e.1 else []

def isDotted (p : Pattern) : Bool := p.head?.any fun s => s.char = '.'

def below (d : Disk) : (fuel : Nat) → (directory : Octets) → Pattern → List Octets
  | 0, _, _ => []
  | fuel + 1, directory, p =>
    let part := p.takeWhile (!isSlash ·)
    let rest := p.drop part.length
    if hasWild part then
      let found := (namesIn d directory).filter fun n =>
        (isDotted part || n.head? ≠ some '.') && Pattern.accepts part n
      match rest with
      | [] => found.map (directory ++ ·)
      | _ :: rest => found.flatMap fun n => below d fuel (directory ++ n ++ ['/']) rest
    else
      match rest with
      | [] =>
        let path := directory ++ textOf part
        if isThere d path then [path] else []
      | slash :: rest => below d fuel (directory ++ textOf part ++ [slash.char]) rest

def expand (d : Disk) (p : Pattern) : List Octets :=
  if hasWild p then (below d (p.length + 1) [] p).mergeSort Octets.isAtMost else []

end Inlay.Program.Shell.FileName

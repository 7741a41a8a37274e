import Inlay.Registry

namespace Inlay

/-- A call-site that was replaced: its text, the byte offsets of it in the buffer before, and what
took its place. -/
structure Replacement where
  start : Nat
  stop : Nat
  source : String
  transpiled : String
  deriving DecidableEq, Repr

structure Expansion where
  content : String
  replacements : List Replacement
  deriving DecidableEq, Repr

namespace Expansion

def changed (x : Expansion) : Bool := !x.replacements.isEmpty

/-- The content and the replacements for pieces, the first of which starts at `offset`. -/
def ofPieces (t : Transpiler) (target : List Char) (offset : Nat) :
    List Piece → Transpiling (List Char × List Replacement)
  | [] => return ([], [])
  | p :: ps =>
    let next := offset + byteLength p.source
    match p with
    | .plain text => do
      let (content, rs) ← ofPieces t target next ps
      return (text ++ content, rs)
    | .call identifier code =>
      if identifier = target then do
        let transpiled ← t (String.ofList code)
        let (content, rs) ← ofPieces t target next ps
        return (transpiled.toList ++ content, ⟨offset, next, String.ofList p.source, transpiled⟩ :: rs)
      else do
        let (content, rs) ← ofPieces t target next ps
        return (p.source ++ content, rs)

end Expansion

/-- Expands the buffer for one identifier. The transpiler is asked from left to right, and what it
does to the disk one time it finds there the next time. -/
def Registry.expand (r : Registry) (buffer target : String) : ExceptT Error (StateM Disk) Expansion := do
  let t ← MonadExcept.ofExcept (r.resolve target)
  let (content, replacements) ←
    (Expansion.ofPieces t target.toList 0 (pieces buffer.toList)).adapt (.transpileFailure target)
  return ⟨String.ofList content, replacements⟩

end Inlay

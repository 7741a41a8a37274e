namespace Inlay.Diff

variable {α : Type} [BEq α]

def agreement (a b : Array α) (x y : Nat) : Nat :=
  if hx : x < a.size then
    if hy : y < b.size then
      if a[x] == b[y] then agreement a b (x + 1) (y + 1) + 1 else 0
    else 0
  else 0
termination_by a.size - x

/-- Where a diagonal's path stands before and after its run of agreements. -/
structure Reach where
  x : Nat
  y : Nat
  run : Nat
  deriving Repr

/-- Round `d` of one direction: the furthest reaches on the diagonals `d - 2 * i`. -/
def advance (a b : Array α) (d : Nat) (previous : Array Nat) : List Reach :=
  (List.range (d + 1)).map fun i =>
    let left := previous.getD i 0
    let up := previous.getD (i - 1) 0
    let x :=
      if d = 0 then 0
      else if i = d then up
      else if i ≠ 0 ∧ left < up then up
      else left + 1
    let y := x + 2 * i - d
    ⟨x, y, agreement a b x y⟩

def frontier (reaches : List Reach) : Array Nat := (reaches.map fun r => r.x + r.run).toArray

/-- What the frontier of round `d` holds on a diagonal, if it reaches that diagonal. -/
def onDiagonal (front : Array Nat) (d : Nat) (diagonal : Int) : Option Nat :=
  if diagonal.natAbs ≤ d then front[((d - diagonal) / 2).toNat]? else none

/-- The first diagonal, from the top, on which the two directions meet. A diagonal `k` of one
direction is the diagonal `delta - k` of the other. -/
def meeting (n : Nat) (delta : Int) (d : Nat) (reaches : List Reach) (opposite : Array Nat)
    (rounds : Nat) : Option Reach :=
  (reaches.zipIdx.find? fun (r, i) =>
    (onDiagonal opposite rounds (delta - ((d : Int) - 2 * i))).any fun x => n ≤ r.x + r.run + x).map (·.1)

/-- Rounds from `d` on, at most `rounds` of them, on two sequences and on their reverses. -/
def searchFrom (a b a' b' : Array α) (forward backward : Array Nat) :
    (d : Nat) → (rounds : Nat) → Option (Nat × Nat)
  | _, 0 => none
  | d, rounds + 1 =>
    let delta : Int := (a.size : Int) - b.size
    let isOdd := delta % 2 ≠ 0
    let ahead := advance a b d forward
    match if isOdd ∧ d ≠ 0 then meeting a.size delta d ahead backward (d - 1) else none with
    | some r => some (r.x, r.y)
    | none =>
      let behind := advance a' b' d backward
      match if isOdd then none else meeting a.size delta d behind (frontier ahead) d with
      | some r => some (a.size - (r.x + r.run), b.size - (r.y + r.run))
      | none => searchFrom a b a' b' (frontier ahead) (frontier behind) (d + 1) rounds

def midpoint (a b : List α) : Option (Nat × Nat) :=
  let rounds := (a.length + b.length + 1) / 2 + 1
  searchFrom a.toArray b.toArray a.reverse.toArray b.reverse.toArray #[] #[] 0 rounds

end Inlay.Diff

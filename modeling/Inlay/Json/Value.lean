import Inlay.Json.Parse

namespace Inlay.Json

inductive Number
  | integer (i : Int)
  | float (text : String)
  deriving DecidableEq, Repr

namespace Numeral

def maxSignificand : Nat := 0xFFFFFFFFFFFFFFFF

/-- Takes digits into a significand as long as they fit; the second result counts those that did
not. A fraction may still fit where the whole part before it did not. -/
def accumulate (significand : Nat) : List Nat → Nat × Nat
  | [] => (significand, 0)
  | d :: ds =>
    if maxSignificand < significand * 10 + d then (significand, (d :: ds).length)
    else accumulate (significand * 10 + d) ds

def maxExponent : Nat := 0x7FFFFFFF

def exponentValue (ds : List Nat) : Nat := ds.foldl (fun n d => n * 10 + d) 0

/-- `f` times a power of ten, in steps that a floating point number can hold; none if the result
is out of range. -/
def scale : Nat → Float → Int → Option Float
  | 0, f, _ => some f
  | steps + 1, f, exponent =>
    if exponent.natAbs ≤ 308 then
      let power := Float.ofScientific 1 false exponent.natAbs
      if 0 ≤ exponent then
        let g := f * power
        if g.isInf then none else some g
      else some (f / power)
    else if f == 0 then some f
    else if 0 ≤ exponent then none
    else scale steps (f / Float.ofScientific 1 false 308) (exponent + 308)

def layout : Decimal.Layout := ⟨16, 4, true⟩

def floatText (negative : Bool) (f : Float) : String :=
  let magnitude := if f == 0 then "0.0" else Decimal.text layout (Decimal.shortest f.toBits.toNat)
  if negative then "-" ++ magnitude else magnitude

def float? (negative : Bool) (significand : Nat) (exponent : Int) : Option Number :=
  (scale 4 significand.toUInt64.toFloat exponent).map fun f => .float (floatText negative f)

/-- The number that a numeral stands for, none if it is too large. An integer has no fraction, no
exponent and fits 64 bits. -/
def number? (n : Numeral) : Option Number :=
  let (whole, excess) := accumulate 0 n.whole
  let (significand, left) := accumulate whole n.fraction
  let shift : Int := (excess : Int) - (n.fraction.length - left : Nat)
  match n.exponent with
  | some (isNegative, ds) =>
    let e := exponentValue ds
    if maxExponent < e then
      if significand ≠ 0 ∧ !isNegative then none else some (.float (floatText n.negative 0))
    else float? n.negative significand (if isNegative then shift - e else shift + e)
  | none =>
    if n.hasFraction ∨ excess ≠ 0 then float? n.negative significand shift
    else if !n.negative then some (.integer significand)
    else if 0 < significand ∧ significand ≤ 0x8000000000000000 then some (.integer (-significand))
    else float? true significand 0

end Numeral

inductive Value
  | null
  | bool (b : Bool)
  | number (n : Number)
  | string (s : String)
  | array (items : List Value)
  | object (members : List (String × Value))

def maxDepth : Nat := 128

mutual

/-- The value of a node, below which values may nest less than `depth` deep. -/
def Node.value (depth : Nat) : Node → Except Fault Value
  | .null => .ok .null
  | .bool b => .ok (.bool b)
  | .number n =>
    match n.number? with
    | some v => .ok (.number v)
    | none => .error .outOfRange
  | .string q => q.text.map .string
  | .array items => if depth ≤ 1 then .error .tooDeep else (items.values (depth - 1)).map .array
  | .object members => if depth ≤ 1 then .error .tooDeep else (members.values (depth - 1)).map .object
  | .broken b => .error b.read

def Items.values (depth : Nat) : Items → Except Fault (List Value)
  | .closed => .ok []
  | .broken b => .error b.read
  | .cons head tail => do
    let v ← head.value depth
    let vs ← tail.values depth
    .ok (v :: vs)

def Members.values (depth : Nat) : Members → Except Fault (List (String × Value))
  | .closed => .ok []
  | .broken b => .error b.read
  | .cons key value tail => do
    let k ← key.text
    let v ← value.value depth
    let vs ← tail.values depth
    .ok ((k, v) :: vs)

end

end Inlay.Json

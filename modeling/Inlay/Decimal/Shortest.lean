namespace Inlay.Decimal

structure Scaled where
  digits : Nat
  exponent : Int
  deriving DecidableEq, Repr

/-- The reals that round to `mantissa * 2 ^ exponent`, as quarters of that unit. The gap below a
power of two is half as wide, and the ends belong to the interval of an even mantissa. -/
structure Interval where
  low : Nat
  middle : Nat
  high : Nat
  closed : Bool

def leastNormal : Nat := 0x10000000000000

/-- The fields for the exponent count from 0 up to this, which is left out. -/
def exponentFields : Nat := 0x800

def ofBits (bits : Nat) : Nat × Int :=
  let fraction : Nat := bits % leastNormal
  let biased : Nat := bits / leastNormal % exponentFields
  if biased = 0 then (fraction, -1074) else (fraction + leastNormal, (biased : Int) - 1075)

def intervalOf (mantissa : Nat) (exponent : Int) : Interval :=
  let below := if mantissa = leastNormal ∧ -1074 < exponent then 1 else 2
  ⟨4 * mantissa - below, 4 * mantissa, 4 * mantissa + 2, mantissa % 2 == 0⟩

def unit (exponent scale : Int) : Nat × Nat :=
  let q := exponent - 2
  (Nat.pow 2 q.toNat * Nat.pow 10 (-scale).toNat, Nat.pow 2 (-q).toNat * Nat.pow 10 scale.toNat)

def onGrid (i : Interval) (exponent scale : Int) : Option Nat :=
  let (num, den) := unit exponent scale
  let floor := i.middle * num / den
  let inside (n : Nat) : Bool :=
    if i.closed then i.low * num ≤ n * den && n * den ≤ i.high * num
    else i.low * num < n * den && n * den < i.high * num
  let rest := 2 * (i.middle * num - floor * den)
  let roundUp := den < rest || (rest == den && floor % 2 == 1)
  match inside floor && floor != 0, inside (floor + 1) with
  | true, true => some (if roundUp then floor + 1 else floor)
  | true, false => some floor
  | false, true => some (floor + 1)
  | false, false => none

def search (i : Interval) (exponent : Int) : Nat → Int → Scaled
  | 0, scale => ⟨i.middle, scale⟩
  | fuel + 1, scale =>
    match onGrid i exponent scale with
    | some n => ⟨n, scale⟩
    | none => search i exponent fuel (scale - 1)

def strip : Nat → Scaled → Scaled
  | 0, s => s
  | fuel + 1, s =>
    if s.digits % 10 = 0 ∧ s.digits ≠ 0 then strip fuel ⟨s.digits / 10, s.exponent + 1⟩ else s

def shortest (bits : Nat) : Scaled :=
  let (mantissa, exponent) := ofBits bits
  strip 400 (search (intervalOf mantissa exponent) exponent 660 310)

/-- How a decimal is laid out: positional while its point stands within the first `maxWhole` digits
or at most `maxZeros` zeros before them. -/
structure Layout where
  maxWhole : Int
  maxZeros : Int
  plusSign : Bool

def text (layout : Layout) (s : Scaled) : String :=
  let ds := toString s.digits
  let count : Int := ds.length
  let point := count + s.exponent
  if 0 ≤ s.exponent ∧ point ≤ layout.maxWhole then
    ds ++ "".pushn '0' s.exponent.toNat ++ ".0"
  else if 0 < point ∧ point ≤ layout.maxWhole then
    String.ofList (ds.toList.take point.toNat) ++ "." ++ String.ofList (ds.toList.drop point.toNat)
  else if -layout.maxZeros ≤ point ∧ point ≤ 0 then
    "0." ++ "".pushn '0' (-point).toNat ++ ds
  else
    let power := point - 1
    let head := String.ofList (ds.toList.take 1)
    let tail := String.ofList (ds.toList.drop 1)
    let sign := if power < 0 then "-" else if layout.plusSign then "+" else ""
    head ++ (if tail.isEmpty then "" else "." ++ tail) ++ "e" ++ sign ++ toString power.natAbs

end Inlay.Decimal

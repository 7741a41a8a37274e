import Inlay.Program.Octets

namespace Inlay.Program

/-- What numbers there are: how many binary digits they have, the exponent of the last digit of the
smallest ones, and the first power of two that is too large. -/
structure Precision where
  digits : Nat
  least : Int
  limit : Int

namespace Precision

def double : Precision := ⟨53, -1074, 1024⟩

def extended : Precision := ⟨64, -16445, 16384⟩

end Precision

inductive Magnitude
  | finite (mantissa : Nat) (exponent : Int)
  | infinite
  | undefined
  deriving DecidableEq, Repr

structure Floating where
  negative : Bool
  magnitude : Magnitude
  deriving DecidableEq, Repr

/-- A value read from the front of a text, and what is left of the text. -/
structure Reading (α : Type) where
  value : α
  rest : Octets := []
  outOfRange : Bool := false

namespace Floating

def zero : Floating := ⟨false, .finite 0 0⟩

def ofNat (n : Nat) : Floating := ⟨false, .finite n 0⟩

def divideEven (a b : Nat) : Nat :=
  let q := a / b
  let r := a % b
  if b < 2 * r ∨ (2 * r = b ∧ q % 2 = 1) then q + 1 else q

def scale (base : Nat) (n : Int) (a b : Nat) : Nat × Nat :=
  if 0 ≤ n then (a * Nat.pow base n.toNat, b) else (a, b * Nat.pow base (-n).toNat)

/-- The greatest power of a base that is not above a fraction, starting from a guess that is at
most one off. -/
def exponentFrom (base : Nat) (guess : Int) (a b : Nat) : Int :=
  let (c, d) := scale base (-guess) a b
  if c < d then guess - 1 else if base * d ≤ c then guess + 1 else guess

def round (p : Precision) (a b : Nat) : Magnitude × Bool :=
  let size := exponentFrom 2 ((a.log2 : Int) - b.log2) a b
  let e := max (size - p.digits + 1) p.least
  let (c, d) := scale 2 (-e) a b
  let m := divideEven c d
  if p.limit ≤ size ∨ (m = Nat.pow 2 p.digits ∧ p.limit ≤ size + 1) then (.infinite, true)
  else (.finite m e, m < Nat.pow 2 (p.digits - 1) && m * d != c)

def farExponent : Int := 100000

/-- Digits with a point among them: their value without the point, how many stand after it, whether
there are any, and the rest. -/
def mantissa (base : Nat) (o : Octets) : Nat × Nat × Bool × Octets :=
  let whole := o.takeWhile (Octets.isDigitOf base)
  let (fraction, rest) : Octets × Octets := match o.drop whole.length with
    | '.' :: rest =>
      let fraction := rest.takeWhile (Octets.isDigitOf base)
      if whole.isEmpty && fraction.isEmpty then ([], '.' :: rest)
      else (fraction, rest.drop fraction.length)
    | rest => ([], rest)
  (Octets.valueOf base (whole ++ fraction), fraction.length, !whole.isEmpty || !fraction.isEmpty, rest)

def exponentPart (letter : Char) (o : Octets) : Int × Octets :=
  let read (negative : Bool) (digits : Octets) : Int × Octets :=
    let used := digits.takeWhile Char.isDigit
    if used.isEmpty then (0, o)
    else
      let n : Int := Octets.valueOf 10 used
      (if negative then -n else n, digits.drop used.length)
  match o with
  | c :: '-' :: rest => if c.toLower = letter then read true rest else (0, o)
  | c :: '+' :: rest => if c.toLower = letter then read false rest else (0, o)
  | c :: rest => if c.toLower = letter then read false rest else (0, o)
  | [] => (0, o)

def compose (p : Precision) (base m : Nat) (n : Int) : Magnitude × Bool :=
  if m = 0 then (.finite 0 0, false)
  else if farExponent < n then (.infinite, true)
  else if n < -farExponent - 4 * m.log2 then (.finite 0 0, true)
  else
    let (a, b) := scale base n m 1
    round p a b

def dropText (text : String) (o : Octets) : Option Octets :=
  if (o.take text.length).map Char.toLower = text.toList then some (o.drop text.length) else none

def payload (o : Octets) : Octets :=
  match o with
  | '(' :: rest =>
    match rest.dropWhile fun c => c.isAlphanum || c = '_' with
    | ')' :: rest => rest
    | _ => o
  | _ => o

def readMagnitude? (p : Precision) (o : Octets) : Option (Reading Magnitude) :=
  match dropText "infinity" o, dropText "inf" o, dropText "nan" o with
  | some rest, _, _ => some { value := .infinite, rest }
  | none, some rest, _ => some { value := .infinite, rest }
  | none, none, some rest => some { value := .undefined, rest := payload rest }
  | none, none, none =>
    let (m, places, isSome, rest) := mantissa 16 (o.drop 2)
    if (dropText "0x" o).isSome ∧ isSome then
      let (n, rest) := exponentPart 'p' rest
      let (value, outOfRange) := compose p 2 m (n - 4 * places)
      some { value, rest, outOfRange }
    else
      let (m, places, isSome, rest) := mantissa 10 o
      if isSome then
        let (n, rest) := exponentPart 'e' rest
        let (value, outOfRange) := compose p 10 m (n - places)
        some { value, rest, outOfRange }
      else none

/-- A number at the front of a text, after white space and a sign; zero, and all of the text left, if
there is none. -/
def read (p : Precision) (o : Octets) : Reading Floating :=
  let (negative, body) : Bool × Octets := match o.dropWhile Octets.isSpace with
    | '-' :: rest => (true, rest)
    | '+' :: rest => (false, rest)
    | rest => (false, rest)
  match readMagnitude? p body with
  | some r => { value := ⟨negative, r.value⟩, rest := r.rest, outOfRange := r.outOfRange }
  | none => { value := zero, rest := o }

def fraction (m : Nat) (e : Int) : Nat × Nat := scale 2 e m 1

/-- Digits with a point before the last ones; it is left out if there are none after it, unless
`always` is set. -/
def pointed (always : Bool) (places : Nat) (digits : Octets) : Octets :=
  let digits := Octets.padLeft (places + 1) '0' digits
  let whole := digits.take (digits.length - places)
  whole ++ (if places = 0 ∧ !always then [] else ['.']) ++ digits.drop whole.length

def fixed (always : Bool) (places m : Nat) (e : Int) : Octets :=
  let (a, b) := fraction m e
  pointed always places (Octets.ofNat (divideEven (a * Nat.pow 10 places) b))

def leading (places m : Nat) (e : Int) : Nat × Int :=
  if m = 0 then (0, 0)
  else
    let (a, b) := fraction m e
    let n := exponentFrom 10 (((Nat.toDigits 10 a).length : Int) - (Nat.toDigits 10 b).length) a b
    let (c, d) := scale 10 ((places : Int) - n) a b
    let q := divideEven c d
    if q = Nat.pow 10 (places + 1) then (q / 10, n + 1) else (q, n)

def signed (n : Int) : Octets := (if n < 0 then '-' else '+') :: Octets.ofNat n.natAbs

def decimalExponent (n : Int) : Octets :=
  ['e', if n < 0 then '-' else '+'] ++ Octets.padLeft 2 '0' (Octets.ofNat n.natAbs)

def scientific (always : Bool) (places m : Nat) (e : Int) : Octets :=
  let (digits, n) := leading places m e
  pointed always places (Octets.ofNat digits) ++ decimalExponent n

def stripped (o : Octets) : Octets :=
  if o.contains '.' then
    let shown := (o.reverse.dropWhile (· = '0')).reverse
    if shown.getLast? = some '.' then shown.dropLast else shown
  else o

def general (always : Bool) (digits m : Nat) (e : Int) : Octets :=
  let digits := max digits 1
  let (first, n) := leading (digits - 1) m e
  let strip (o : Octets) : Octets := if always then o else stripped o
  if n < digits ∧ -4 ≤ n then strip (fixed always ((digits : Int) - 1 - n).toNat m e)
  else strip (pointed always (digits - 1) (Octets.ofNat first)) ++ decimalExponent n

def hexadecimal (p : Precision) (always : Bool) (places : Option Nat) (m : Nat) (e : Int) : Octets :=
  let room := min (p.digits - 1 - m.log2 : Int) (e - p.least)
  let m := if m = 0 then 0 else m * Nat.pow 2 room.toNat
  let all := (p.digits - 1) / 4
  let n := if m = 0 then 0 else e - room + 4 * all
  let digits (places q : Nat) : Octets := pointed (always || places != 0) places (Nat.toDigits 16 q)
  let (body, n) := match places with
    | none => (stripped (digits all m), n)
    | some k =>
      if all ≤ k then (digits k (m * Nat.pow 16 (k - all)), n)
      else
        let q := divideEven m (Nat.pow 16 (all - k))
        if q = Nat.pow 16 (k + 1) then (digits k (q / 16), n + 4) else (digits k q, n)
  (if always ∧ !body.contains '.' then body ++ ['.'] else body) ++ 'p' :: signed n

end Floating

end Inlay.Program

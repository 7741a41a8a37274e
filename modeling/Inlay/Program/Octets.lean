import Inlay.Text.Utf8

namespace Inlay.Program

abbrev Octets := List Char

namespace Octets

def ofBytes (bytes : Bytes) : Octets := bytes.map fun b => Char.ofNat b.toNat

def toBytes (o : Octets) : Bytes := o.map fun c => UInt8.ofNat c.toNat

def ofString (s : String) : Octets := ofBytes (Text.encode s)

def ofNat (n : Nat) : Octets := (toString n).toList

def lines : Octets → List Octets
  | [] => []
  | c :: cs =>
    if c = '\n' then [c] :: lines cs
    else
      match lines cs with
      | [] => [[c]]
      | l :: ls => (c :: l) :: ls

def splitAt (c : Char) : Octets → List Octets
  | [] => [[]]
  | d :: ds =>
    if d = c then [] :: splitAt c ds
    else
      match splitAt c ds with
      | [] => [[d]]
      | w :: ws => (d :: w) :: ws

def isSpace (c : Char) : Bool := c = ' ' || ('\t' ≤ c && c ≤ '\r')

def bare (o : Octets) : Octets := ((o.dropWhile isSpace).reverse.dropWhile isSpace).reverse

def isDecimal (o : Octets) : Bool := !o.isEmpty && o.all Char.isDigit

def digit (c : Char) : Nat :=
  if c.isDigit then c.toNat - '0'.toNat
  else if 'a' ≤ c ∧ c ≤ 'z' then c.toNat - 'a'.toNat + 10
  else if 'A' ≤ c ∧ c ≤ 'Z' then c.toNat - 'A'.toNat + 10
  else 99

def isDigitOf (base : Nat) (c : Char) : Bool := digit c < base

def valueOf (base : Nat) (o : Octets) : Nat := o.foldl (fun n c => n * base + digit c) 0

def nat? (o : Octets) : Option Nat := if isDecimal o then some (valueOf 10 o) else none

def isAtMost : Octets → Octets → Bool
  | [], _ => true
  | _ :: _, [] => false
  | a :: s, b :: t => a < b || (a = b && isAtMost s t)

def padLeft (width : Nat) (fill : Char) (o : Octets) : Octets := List.replicate (width - o.length) fill ++ o

def padRight (width : Nat) (o : Octets) : Octets := o ++ List.replicate (width - o.length) ' '

end Octets

end Inlay.Program

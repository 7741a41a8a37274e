import Inlay.Json.Node

namespace Inlay.Json

def isBlank (b : UInt8) : Bool := b == 0x20 || b == 0x0A || b == 0x09 || b == 0x0D

def skipBlank (bytes : Bytes) : Bytes := bytes.dropWhile isBlank

def isDigit (b : UInt8) : Bool := 0x30 ≤ b && b ≤ 0x39

def digitValue (b : UInt8) : Nat := b.toNat - 0x30

def hexValue? (b : UInt8) : Option Nat :=
  if isDigit b then some (digitValue b)
  else if 0x61 ≤ b && b ≤ 0x66 then some (b.toNat - 0x61 + 10)
  else if 0x41 ≤ b && b ≤ 0x46 then some (b.toNat - 0x41 + 10)
  else none

def hexUnit? (a b c d : UInt8) : Option Nat := do
  let a ← hexValue? a
  let b ← hexValue? b
  let c ← hexValue? c
  let d ← hexValue? d
  some (((a * 16 + b) * 16 + c) * 16 + d)

def shortEscape? (b : UInt8) : Option UInt8 :=
  if b == 0x22 || b == 0x5C || b == 0x2F then some b
  else if b == 0x62 then some 0x08
  else if b == 0x66 then some 0x0C
  else if b == 0x6E then some 0x0A
  else if b == 0x72 then some 0x0D
  else if b == 0x74 then some 0x09
  else none

def Quoted.push (u : Unit16) (r : Quoted × Bytes) : Quoted × Bytes := (⟨u :: r.1.units, r.1.ending⟩, r.2)

def quoted : Bytes → Quoted × Bytes
  | [] => (⟨[], .ends⟩, [])
  | b :: rest =>
    if b == 0x22 then (⟨[], .closed⟩, rest)
    else if b == 0x5C then
      match rest with
      | [] => (⟨[], .ends⟩, [])
      | e :: rest =>
        if e == 0x75 then
          match rest with
          | h₁ :: h₂ :: h₃ :: h₄ :: rest =>
            match hexUnit? h₁ h₂ h₃ h₄ with
            | some n => Quoted.push (.escaped n) (quoted rest)
            | none => (⟨[], .badHex⟩, [])
          | _ => (⟨[], .ends⟩, [])
        else
          match shortEscape? e with
          | some b => Quoted.push (.byte b) (quoted rest)
          | none => (⟨[], .unknownEscape⟩, [])
    else if b < 0x20 then (⟨[], .control⟩, [])
    else Quoted.push (.byte b) (quoted rest)

def digits (bytes : Bytes) : Except Break (List Nat × Bytes) :=
  let ds := bytes.takeWhile isDigit
  let rest := bytes.dropWhile isDigit
  if ds.isEmpty then .error (if rest.isEmpty then .numberEnds else .fault .badNumber)
  else .ok (ds.map digitValue, rest)

def fractionPart (bytes : Bytes) : Except Break (Bool × List Nat × Bytes) :=
  match bytes with
  | 0x2E :: rest => do
    let (ds, rest) ← digits rest
    .ok (true, ds, rest)
  | _ => .ok (false, [], bytes)

def exponentPart (bytes : Bytes) : Except Break (Option (Bool × List Nat) × Bytes) :=
  match bytes with
  | e :: rest =>
    if e == 0x65 || e == 0x45 then do
      let (negative, rest) :=
        match rest with
        | 0x2D :: rest => (true, rest)
        | 0x2B :: rest => (false, rest)
        | _ => (false, rest)
      let (ds, rest) ← digits rest
      .ok (some (negative, ds), rest)
    else .ok (none, bytes)
  | [] => .ok (none, [])

def numeral (bytes : Bytes) : Except Break (Numeral × Bytes) := do
  let (negative, bytes) :=
    match bytes with
    | 0x2D :: rest => (true, rest)
    | _ => (false, bytes)
  let (whole, rest) ← digits bytes
  if whole.head? = some 0 ∧ 1 < whole.length then .error (.fault .badNumber)
  else
    let (hasFraction, fraction, rest) ← fractionPart rest
    let (exponent, rest) ← exponentPart rest
    .ok (⟨negative, whole, fraction, hasFraction, exponent⟩, rest)

def word (value : Node) : (expected bytes : Bytes) → Node × Bytes
  | [], rest => (value, rest)
  | _ :: _, [] => (.broken (.fault .valueEnds), [])
  | e :: expected, b :: rest =>
    if b == e then word value expected rest else (.broken (.fault .wordExpected), [])

mutual

/-- The value at the head of the text and what follows it. After a break nothing follows. -/
def node : (fuel : Nat) → Bytes → Node × Bytes
  | 0, _ => (.broken (.fault .valueEnds), [])
  | fuel + 1, bytes =>
    match skipBlank bytes with
    | [] => (.broken (.fault .valueEnds), [])
    | b :: rest =>
      if b == 0x22 then
        let (q, rest) := quoted rest
        (.string q, rest)
      else if b == 0x5B then
        let (items, rest) := items fuel true rest
        (.array items, rest)
      else if b == 0x7B then
        let (members, rest) := members fuel true rest
        (.object members, rest)
      else if b == 0x6E then word .null [0x75, 0x6C, 0x6C] rest
      else if b == 0x74 then word (.bool true) [0x72, 0x75, 0x65] rest
      else if b == 0x66 then word (.bool false) [0x61, 0x6C, 0x73, 0x65] rest
      else if b == 0x2D || isDigit b then
        match numeral (b :: rest) with
        | .ok (n, rest) => (.number n, rest)
        | .error br => (.broken br, [])
      else (.broken (.fault .valueExpected), [])

/-- The items of an array up to its end; before any but the first a comma is due. -/
def items : (fuel : Nat) → (first : Bool) → Bytes → Items × Bytes
  | 0, _, _ => (.broken (.fault .arrayEnds), [])
  | fuel + 1, first, bytes =>
    match skipBlank bytes with
    | [] => (.broken (.fault .arrayEnds), [])
    | b :: rest =>
      if b == 0x5D then (.closed, rest)
      else if first then item fuel (b :: rest)
      else if b == 0x2C then
        match skipBlank rest with
        | 0x5D :: _ => (.broken .arrayTrailingComma, [])
        | rest => item fuel rest
      else (.broken (.fault .arrayCommaExpected), [])

def item : (fuel : Nat) → Bytes → Items × Bytes
  | 0, _ => (.broken (.fault .arrayEnds), [])
  | fuel + 1, bytes =>
    let (head, rest) := node fuel bytes
    let (tail, rest) := items fuel false rest
    (.cons head tail, rest)

/-- The members of an object up to its end; before any but the first a comma is due. -/
def members : (fuel : Nat) → (first : Bool) → Bytes → Members × Bytes
  | 0, _, _ => (.broken (.fault .objectEnds), [])
  | fuel + 1, first, bytes =>
    match skipBlank bytes with
    | [] => (.broken (.fault .objectEnds), [])
    | b :: rest =>
      if b == 0x7D then (.closed, rest)
      else if first then
        if b == 0x22 then member fuel rest else (.broken (.fault .keyExpected), [])
      else if b == 0x2C then
        match skipBlank rest with
        | [] => (.broken .memberEnds, [])
        | 0x22 :: rest => member fuel rest
        | 0x7D :: _ => (.broken .objectTrailingComma, [])
        | _ :: _ => (.broken (.fault .keyExpected), [])
      else (.broken (.fault .objectCommaExpected), [])

/-- A member after the opening quote of its key, and the members after it. -/
def member : (fuel : Nat) → Bytes → Members × Bytes
  | 0, _ => (.broken (.fault .objectEnds), [])
  | fuel + 1, bytes =>
    let (key, rest) := quoted bytes
    match skipBlank rest with
    | [] => (.cons key (.broken (.fault .objectEnds)) .closed, [])
    | 0x3A :: rest =>
      let (value, rest) := node fuel rest
      let (tail, rest) := members fuel false rest
      (.cons key value tail, rest)
    | _ :: _ => (.cons key (.broken (.fault .colonExpected)) .closed, [])

end

def fuelFor (bytes : Bytes) : Nat := 3 * bytes.length + 3

def parse (bytes : Bytes) : Document :=
  let (root, rest) := node (fuelFor bytes) bytes
  ⟨root, !(skipBlank rest).isEmpty⟩

end Inlay.Json

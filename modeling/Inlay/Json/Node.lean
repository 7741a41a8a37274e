import Inlay.Text.Utf8
import Inlay.Decimal.Shortest

namespace Inlay.Json

inductive Fault
  | valueExpected
  | valueEnds
  | arrayEnds
  | objectEnds
  | stringEnds
  | wordExpected
  | badNumber
  | outOfRange
  | badEscape
  | loneSurrogate
  | brokenSurrogate
  | controlCharacter
  | notUtf8
  | keyExpected
  | colonExpected
  | arrayCommaExpected
  | objectCommaExpected
  | trailingComma
  | trailingCharacters
  | tooDeep
  deriving DecidableEq, Repr

def Fault.message : Fault → String
  | .valueExpected => "expected value"
  | .valueEnds => "EOF while parsing a value"
  | .arrayEnds => "EOF while parsing a list"
  | .objectEnds => "EOF while parsing an object"
  | .stringEnds => "EOF while parsing a string"
  | .wordExpected => "expected ident"
  | .badNumber => "invalid number"
  | .outOfRange => "number out of range"
  | .badEscape => "invalid escape"
  | .loneSurrogate => "lone leading surrogate in hex escape"
  | .brokenSurrogate => "unexpected end of hex escape"
  | .controlCharacter => "control character (\\u0000-\\u001F) found while parsing a string"
  | .notUtf8 => "invalid unicode code point"
  | .keyExpected => "key must be a string"
  | .colonExpected => "expected \x60:\x60"
  | .arrayCommaExpected => "expected \x60,\x60 or \x60]\x60"
  | .objectCommaExpected => "expected \x60,\x60 or \x60\x7d\x60"
  | .trailingComma => "trailing comma"
  | .trailingCharacters => "trailing characters"
  | .tooDeep => "recursion limit exceeded"

/-- Where the grammar breaks. A reader that skips a value names four of these differently. -/
inductive Break
  | fault (f : Fault)
  | numberEnds
  | arrayTrailingComma
  | objectTrailingComma
  | memberEnds
  deriving DecidableEq, Repr

namespace Break

def read : Break → Fault
  | .fault f => f
  | .numberEnds | .memberEnds => .valueEnds
  | .arrayTrailingComma | .objectTrailingComma => .trailingComma

def skip : Break → Fault
  | .fault f => f
  | .numberEnds => .badNumber
  | .arrayTrailingComma => .valueExpected
  | .objectTrailingComma => .keyExpected
  | .memberEnds => .objectEnds

end Break

/-- A part of a string as written: a byte, or a UTF-16 code unit given in hexadecimal. -/
inductive Unit16
  | byte (b : UInt8)
  | escaped (n : Nat)
  deriving DecidableEq, Repr

inductive Ending
  | closed
  | ends
  | control
  | unknownEscape
  | badHex
  deriving DecidableEq, Repr

/-- A string as written, from its opening quote on. -/
structure Quoted where
  units : List Unit16
  ending : Ending
  deriving DecidableEq, Repr

namespace Quoted

def endingFault? : Ending → Option Fault
  | .closed => none
  | .ends => some .stringEnds
  | .control => some .controlCharacter
  | .unknownEscape | .badHex => some .badEscape

/-- The fault when a first half of a surrogate pair is not followed by an escaped unit. -/
def afterSurrogate : Ending → Fault
  | .ends => .stringEnds
  | .badHex => .badEscape
  | _ => .brokenSurrogate

def isLeading (n : Nat) : Bool := 0xD800 ≤ n && n ≤ 0xDBFF

def isTrailing (n : Nat) : Bool := 0xDC00 ≤ n && n ≤ 0xDFFF

def paired (high low : Nat) : Nat := 0x10000 + (high - 0xD800) * 0x400 + (low - 0xDC00)

def bytesOf (ending : Ending) : List Unit16 → Except Fault Bytes
  | [] =>
    match endingFault? ending with
    | none => .ok []
    | some f => .error f
  | .byte b :: rest => (bytesOf ending rest).map (b :: ·)
  | .escaped n :: rest =>
    if isTrailing n then .error .loneSurrogate
    else if isLeading n then
      match rest with
      | .escaped m :: rest =>
        if isTrailing m then
          (bytesOf ending rest).map (String.utf8EncodeChar (Char.ofNat (paired n m)) ++ ·)
        else .error .loneSurrogate
      | .byte _ :: _ => .error .brokenSurrogate
      | [] => .error (afterSurrogate ending)
    else (bytesOf ending rest).map (String.utf8EncodeChar (Char.ofNat n) ++ ·)

def text (q : Quoted) : Except Fault String :=
  match bytesOf q.ending q.units with
  | .error f => .error f
  | .ok bytes =>
    match Text.decode? bytes with
    | some s => .ok s
    | none => .error .notUtf8

end Quoted

structure Numeral where
  negative : Bool
  whole : List Nat
  fraction : List Nat
  hasFraction : Bool
  exponent : Option (Bool × List Nat)
  deriving DecidableEq, Repr

mutual

inductive Node
  | null
  | bool (b : Bool)
  | number (n : Numeral)
  | string (q : Quoted)
  | array (items : Items)
  | object (members : Members)
  | broken (b : Break)

inductive Items
  | closed
  | broken (b : Break)
  | cons (head : Node) (tail : Items)

inductive Members
  | closed
  | broken (b : Break)
  | cons (key : Quoted) (value : Node) (tail : Members)

end

mutual

/-- The first fault for a reader that skips the value. Strings need not make sense, numbers may be
of any size and values may nest to any depth. -/
def Node.skip : Node → Except Fault Unit
  | .null | .bool _ | .number _ => .ok ()
  | .string q =>
    match Quoted.endingFault? q.ending with
    | none => .ok ()
    | some f => .error f
  | .array items => items.skip
  | .object members => members.skip
  | .broken b => .error b.skip

def Items.skip : Items → Except Fault Unit
  | .closed => .ok ()
  | .broken b => .error b.skip
  | .cons head tail => do head.skip; tail.skip

def Members.skip : Members → Except Fault Unit
  | .closed => .ok ()
  | .broken b => .error b.skip
  | .cons key value tail => do
    match Quoted.endingFault? key.ending with
    | none => value.skip; tail.skip
    | some f => .error f

end

/-- A whole text: its value and whether anything follows it. -/
structure Document where
  root : Node
  hasTrailing : Bool

end Inlay.Json

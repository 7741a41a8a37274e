import Inlay.Text.Character
import Inlay.Text.Utf8

namespace Inlay

namespace Confirm

def token : String := "yes"

def isConfirmed (answer : String) : Bool := Text.trim answer == token

def newline : UInt8 := 0x0A

/-- The input up to its first line feed, that one included, and what follows. -/
def cutLine : Bytes → Bytes × Bytes
  | [] => ([], [])
  | b :: rest =>
    if b = newline then ([b], rest)
    else
      let (line, rest) := cutLine rest
      (b :: line, rest)

theorem cutLine_append (input : Bytes) : (cutLine input).1 ++ (cutLine input).2 = input := by
  induction input with
  | nil => rfl
  | cons b rest ih => unfold cutLine; split <;> simp [ih]

inductive Fault
  | notUtf8
  deriving DecidableEq, Repr

def Fault.message : Fault → String
  | .notUtf8 => "stream did not contain valid UTF-8"

/-- Reads a line, empty at the end of the input. A line that is not text is used up as well. -/
def readAnswer (input : Bytes) : Except Fault String × Bytes :=
  let (line, rest) := cutLine input
  match Text.decode? line with
  | some s => (.ok s, rest)
  | none => (.error .notUtf8, rest)

end Confirm

end Inlay

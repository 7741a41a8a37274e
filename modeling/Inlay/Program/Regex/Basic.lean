import Inlay.Program.Translate

namespace Inlay.Program

structure CharSet where
  members : Array Bool
  deriving DecidableEq, Repr

namespace CharSet

def of (p : Char → Bool) : CharSet := ⟨(everyOctet.map p).toArray⟩

def contains (s : CharSet) (c : Char) : Bool := s.members[c.toNat]?.getD false

end CharSet

def isWordChar (c : Char) : Bool := c.isAlphanum || c = '_'

inductive Assertion
  | lineStart
  | lineEnd
  | textStart
  | textEnd
  | wordStart
  | wordEnd
  | wordEdge
  | notWordEdge
  deriving DecidableEq, Repr

inductive Regex
  | empty
  | one (s : CharSet)
  | assertion (a : Assertion)
  | append (a b : Regex)
  | either (a b : Regex)
  | star (a : Regex)
  | maybe (a : Regex)
  | group (n : Nat) (inLoop : Bool) (a : Regex)
  | same (n : Nat)
  deriving DecidableEq, Repr

inductive RegexFault
  | pattern
  | collation
  | className
  | trailingBackslash
  | backReference
  | bracket
  | openGroup
  | openCount
  | count
  | range
  | tooBig
  | repetition
  | closeGroup
  | bareClass
  deriving DecidableEq, Repr

namespace RegexFault

def message : RegexFault → String
  | .pattern => "Invalid regular expression"
  | .collation => "Invalid collation character"
  | .className => "Invalid character class name"
  | .trailingBackslash => "Trailing backslash"
  | .backReference => "Invalid back reference"
  | .bracket => "Unmatched [, [^, [:, [., or [="
  | .openGroup => "Unmatched ( or \\("
  | .openCount => "Unmatched \\\x7b"
  | .count => "Invalid content of \\\x7b\\\x7d"
  | .range => "Invalid range end"
  | .tooBig => "Regular expression too big"
  | .repetition => "Invalid preceding regular expression"
  | .closeGroup => "Unmatched ) or \\)"
  | .bareClass => "character class syntax is [[:space:]], not [:space:]"

end RegexFault

end Inlay.Program

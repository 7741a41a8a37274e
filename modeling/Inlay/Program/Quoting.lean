import Inlay.Program.Octets

namespace Inlay.Program.Quoting

def isPrintable (c : Char) : Bool := ' ' ≤ c && c ≤ '~'

def controlLetters : List (Char × Char) :=
  [('\x07', 'a'), ('\x08', 'b'), ('\t', 't'), ('\n', 'n'), ('\x0B', 'v'), ('\x0C', 'f'), ('\r', 'r')]

def octal (c : Char) : Octets := Octets.padLeft 3 '0' (Nat.toDigits 8 c.toNat)

def escaped (c : Char) : Octets :=
  match controlLetters.lookup c with
  | some letter => ['\\', letter]
  | none => '\\' :: octal c

def named (o : Octets) : Octets :=
  let body := o.flatMap fun c =>
    if c = '\\' ∨ c = '\'' then ['\\', c] else if isPrintable c then [c] else escaped c
  '\'' :: body ++ ['\'']

def isPlain (c : Char) : Bool := c.isAlphanum || "%+,-./:]_@".toList.contains c

def isSpecial (alone : Bool) (i : Nat) (c : Char) : Bool :=
  if c = '#' ∨ c = '~' then i = 0
  else if c = '\x7b' ∨ c = '\x7d' then alone
  else !isPlain c

def isQuotable (o : Octets) : Bool :=
  o.zipIdx.all fun (c, i) => isPlain c || c = ' ' || c = '\'' || (i = 0 && (c = '#' || c = '~'))

/-- The inside of single quotes. What is not printable stands in quotes of its own, where a
backslash counts; `inEscape` tells whether these are open. -/
def singleQuoted (inEscape : Bool) : Octets → Octets
  | [] => []
  | c :: cs =>
    if !isPrintable c then
      (if inEscape then [] else "'$'".toList) ++ escaped c ++ singleQuoted true cs
    else if c = '\'' then "'\\''".toList ++ singleQuoted false cs
    else (if inEscape then "''".toList else []) ++ c :: singleQuoted false cs

/-- A word of a shell that stands for the text; quotes are left out where they are not needed,
unless `always` is set. -/
def word (always : Bool) (o : Octets) : Octets :=
  if !always && !o.isEmpty && !o.zipIdx.any fun (c, i) => isSpecial (o.length == 1) i c then o
  else if o.contains '\'' && isQuotable o then '"' :: o ++ ['"']
  else '\'' :: singleQuoted false o ++ ['\'']

end Inlay.Program.Quoting

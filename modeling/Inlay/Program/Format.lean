import Inlay.Program.Floating
import Inlay.Program.Translate

namespace Inlay.Program.Format

inductive Dialect
  | program
  | shell
  deriving DecidableEq, Repr

def Dialect.precision : Dialect → Precision
  | .program => .extended
  | .shell => .double

inductive Event
  | output (o : Octets)
  | complaint (o : Octets)
  deriving DecidableEq, Repr

/-- What has been done so far, the latest first; `ended` once nothing more is to be printed. -/
structure Printed where
  events : List Event := []
  status : Nat := 0
  ended : Bool := false

namespace Printed

def put (p : Printed) (o : Octets) : Printed := { p with events := .output o :: p.events }

def warn (p : Printed) (text : Octets) : Printed := { p with events := .complaint text :: p.events }

def complain (p : Printed) (text : Octets) : Printed := { p.warn text with status := 1 }

def abort (p : Printed) (status : Nat) (text : Octets) : Printed :=
  { p.warn text with status := status, ended := true }

end Printed

def simpleEscapes : List (Char × Char) :=
  [('\\', '\\'), ('a', '\x07'), ('b', '\x08'), ('e', '\x1B'), ('f', '\x0C'), ('n', '\n'), ('r', '\r'),
    ('t', '\t'), ('v', '\x0B')]

inductive Escaped
  | text (o : Octets)
  | stop
  | fault (text : String)

def codePoint (letter : Char) (n : Nat) : Escaped :=
  let digits := (Nat.toDigits 16 n)
  let width := if letter = 'u' then 4 else 8
  if 0xD800 ≤ n ∧ n < 0xE000 then
    .fault ("invalid universal character name \\" ++ String.ofList (letter :: Octets.padLeft width '0' digits))
  else if n < 0x80 then .text [Char.ofNat n]
  else
    let digits := digits.map Char.toUpper
    .text ('\\' :: if n < 0x10000 then 'u' :: Octets.padLeft 4 '0' digits
      else 'U' :: Octets.padLeft 8 '0' digits)

def programEscape? (c : Char) (rest : Octets) : Option (Escaped × Octets) :=
  let missing := Escaped.fault "missing hexadecimal number in escape"
  if c = 'x' then
    let digits := (rest.take 2).takeWhile (Octets.isDigitOf 16)
    if digits.isEmpty then some (missing, rest)
    else some (.text [Char.ofNat (Octets.valueOf 16 digits)], rest.drop digits.length)
  else if c = 'u' ∨ c = 'U' then
    let width := if c = 'u' then 4 else 8
    let digits := (rest.take width).takeWhile (Octets.isDigitOf 16)
    if digits.length < width then some (missing, rest)
    else some (codePoint c (Octets.valueOf 16 digits), rest.drop width)
  else if c = '"' then some (.text ['"'], rest)
  else none

def escape (dialect : Dialect) (inArgument : Bool) : Octets → Escaped × Octets
  | [] => (.text ['\\'], [])
  | c :: rest =>
    let octal (cs : Octets) : Escaped × Octets :=
      let (d, rest) := Translate.octalEscape cs
      (.text [d], rest)
    if inArgument ∧ c = '0' then octal rest
    else if Translate.isOctal c then octal (c :: rest)
    else if c = 'c' ∧ (inArgument ∨ dialect = .program) then (.stop, rest)
    else
      match if dialect = .program then programEscape? c rest else none with
      | some result => result
      | none =>
        match simpleEscapes.lookup c with
        | some d => (.text [d], rest)
        | none => (.text ['\\', c], rest)

def expandArgument (dialect : Dialect) : (fuel : Nat) → Octets → Octets × Option Escaped
  | 0, o => (o, none)
  | fuel + 1, o =>
    let plain := o.takeWhile (· ≠ '\\')
    match o.drop plain.length with
    | _ :: rest =>
      match escape dialect true rest with
      | (.text d, rest) =>
        let (more, ended) := expandArgument dialect fuel rest
        (plain ++ d ++ more, ended)
      | (ended, _) => (plain, some ended)
    | [] => (plain, none)

structure Directive where
  left : Bool := false
  plus : Bool := false
  blank : Bool := false
  zero : Bool := false
  alternate : Bool := false
  grouped : Bool := false
  width : Nat := 0
  precision : Option Nat := none

def character? (dialect : Dialect) (o : Octets) : Option (Char × Octets) :=
  match o with
  | q :: rest =>
    if q = '\'' ∨ q = '"' then
      match dialect, rest with
      | .program, c :: rest => some (c, rest)
      | .program, [] => none
      | .shell, _ => some (rest.headD '\x00', [])
    else none
  | [] => none

def based (o : Octets) : Nat × Octets :=
  match o with
  | '0' :: x :: d :: rest =>
    if (x = 'x' ∨ x = 'X') ∧ Octets.isDigitOf 16 d then (16, d :: rest)
    else if (x = 'b' ∨ x = 'B') ∧ Octets.isDigitOf 2 d then (2, d :: rest)
    else (8, o)
  | '0' :: _ => (8, o)
  | _ => (10, o)

def maxUnsigned : Nat := 0xFFFFFFFFFFFFFFFF

def maxSigned : Nat := 0x7FFFFFFFFFFFFFFF

/-- A whole number of 64 bits at the front of a text, after white space and a sign. One that is too
great is cut off. -/
def whole (signed : Bool) (o : Octets) : Reading Int :=
  let (negative, body) : Bool × Octets := match o.dropWhile Octets.isSpace with
    | '-' :: rest => (true, rest)
    | '+' :: rest => (false, rest)
    | rest => (false, rest)
  let (base, digits) := based body
  let used := digits.takeWhile (Octets.isDigitOf base)
  let n := Octets.valueOf base used
  let rest := if used.isEmpty then o else digits.drop used.length
  if signed then
    let limit := if negative then maxSigned + 1 else maxSigned
    let n : Int := min n limit
    { value := if negative then -n else n, rest, outOfRange := limit < Octets.valueOf base used }
  else if maxUnsigned < n then { value := maxUnsigned, rest, outOfRange := true }
  else { value := if negative ∧ n ≠ 0 then maxUnsigned + 1 - n else n, rest }

def rangeText : Octets := "Numerical result out of range".toList

def numberComplaint? {α : Type} (dialect : Dialect) (argument : Octets) (r : Reading α) : Option Octets :=
  let none := r.rest.length = argument.length
  match dialect with
  | .program =>
    if r.outOfRange then some (Quoting.named argument ++ ": ".toList ++ rangeText)
    else if r.rest.isEmpty then .none
    else some (Quoting.named argument ++
      (if none then ": expected a numeric value" else ": value not completely converted").toList)
  | .shell =>
    if !r.rest.isEmpty then
      some (argument ++ (if none then ": expected numeric value" else ": not completely converted").toList)
    else if r.outOfRange then some (argument ++ ": ".toList ++ rangeText)
    else .none

def number {α : Type} (dialect : Dialect) (read : Octets → Reading α) (ofChar : Nat → α)
    (argument : Octets) (p : Printed) : α × Printed :=
  match character? dialect argument with
  | some (c, []) => (ofChar c.toNat, p)
  | some (c, more) =>
    (ofChar c.toNat, p.warn ("warning: ".toList ++ more ++
      ": character(s) following character constant have been ignored".toList))
  | none =>
    let r := read argument
    match numberComplaint? dialect argument r with
    | some complaint => (r.value, p.complain complaint)
    | none => (r.value, p)

def wholeNumber (dialect : Dialect) (signed : Bool) : Octets → Printed → Int × Printed :=
  number dialect (whole signed) Int.ofNat

def layOut (x : Directive) (zeros : Bool) (sign body : Octets) : Octets :=
  if x.left then Octets.padRight x.width (sign ++ body)
  else if zeros then sign ++ Octets.padLeft (x.width - sign.length) '0' body
  else Octets.padLeft x.width ' ' (sign ++ body)

def signOf (x : Directive) (negative : Bool) : Octets :=
  if negative then ['-'] else if x.plus then ['+'] else if x.blank then [' '] else []

def upper (o : Octets) : Octets := o.map Char.toUpper

def digits (x : Directive) (base n : Nat) : Octets :=
  match x.precision with
  | some k => Octets.padLeft k '0' (if n = 0 then [] else Nat.toDigits base n)
  | none => Nat.toDigits base n

def integer (x : Directive) (conversion : Char) (n : Int) : Octets :=
  let unsigned : Nat := (Int64.ofInt n).toUInt64.toNat
  let layOut := layOut x (x.zero && x.precision.isNone)
  if conversion = 'd' ∨ conversion = 'i' then layOut (signOf x (n < 0)) (digits x 10 n.natAbs)
  else if conversion = 'o' then
    let body := digits x 8 unsigned
    layOut [] (if x.alternate ∧ body.head? ≠ some '0' then '0' :: body else body)
  else if conversion = 'x' then
    layOut (if x.alternate ∧ unsigned ≠ 0 then ['0', 'x'] else []) (digits x 16 unsigned)
  else if conversion = 'X' then
    layOut (if x.alternate ∧ unsigned ≠ 0 then ['0', 'X'] else []) (upper (digits x 16 unsigned))
  else layOut [] (digits x 10 unsigned)

def floating (precision : Precision) (x : Directive) (conversion : Char) (f : Floating) : Octets :=
  let sign := signOf x f.negative
  let places := x.precision.getD 6
  let shown := match f.magnitude with
    | .infinite => layOut x false sign "inf".toList
    | .undefined => layOut x false sign "nan".toList
    | .finite m e =>
      match conversion.toLower with
      | 'f' => layOut x x.zero sign (Floating.fixed x.alternate places m e)
      | 'e' => layOut x x.zero sign (Floating.scientific x.alternate places m e)
      | 'g' => layOut x x.zero sign (Floating.general x.alternate places m e)
      | _ =>
        layOut x x.zero (sign ++ ['0', 'x']) (Floating.hexadecimal precision x.alternate x.precision m e)
  if conversion.isUpper then upper shown else shown

def text (x : Directive) (o : Octets) : Octets :=
  layOut x false []
    (match x.precision with
    | some n => o.take n
    | none => o)

def flags (dialect : Dialect) (x : Directive) : Octets → Directive × Octets
  | '-' :: cs => flags dialect { x with left := true } cs
  | '+' :: cs => flags dialect { x with plus := true } cs
  | ' ' :: cs => flags dialect { x with blank := true } cs
  | '0' :: cs => flags dialect { x with zero := true } cs
  | '#' :: cs => flags dialect { x with alternate := true } cs
  | c :: cs =>
    if dialect = .program ∧ (c = '\'' ∨ c = 'I') then flags dialect { x with grouped := true } cs
    else (x, c :: cs)
  | [] => (x, [])

def maxMeasure : Nat := 0x7FFFFFFF

def measure (dialect : Dialect) (cs : Octets) (args : List Octets) (p : Printed) :
    Int × Octets × List Octets × Printed :=
  match cs with
  | '*' :: rest =>
    let (n, p) := wholeNumber dialect true (args.headD []) p
    (n, rest, args.drop 1, p)
  | _ =>
    let digits := cs.takeWhile Char.isDigit
    (Octets.valueOf 10 digits, cs.drop digits.length, args, p)

def conversions (dialect : Dialect) (x : Directive) : List Char :=
  match dialect with
  | .shell => "bcsdiouxXaAeEfFgG".toList
  | .program =>
    let without (condition : Bool) (left : String) (cs : List Char) : List Char :=
      if condition then cs.filter (!left.toList.contains ·) else cs
    "csdiouxXaAeEfFgG".toList
      |> without x.grouped "aAceEosxX"
      |> without x.alternate "cdisu"
      |> without x.zero "cs"
      |> without x.precision.isSome "c"

def convert (dialect : Dialect) (x : Directive) (conversion : Char) (argument : Option Octets)
    (p : Printed) : Printed :=
  let given := argument.getD []
  match conversion with
  | 's' => p.put (text x given)
  | 'c' => p.put (layOut x false [] [given.headD '\x00'])
  | 'q' => p.put (match argument with
    | some o => Quoting.word false o
    | none => [])
  | 'b' =>
    let (o, ended) := expandArgument dialect (given.length + 1) given
    let p := p.put (text x o)
    match ended with
    | none => p
    | some (.fault text) => p.abort 1 text.toList
    | some _ => { p with ended := true }
  | 'd' | 'i' =>
    let (n, p) := wholeNumber dialect true given p
    p.put (integer x conversion n)
  | 'o' | 'u' | 'x' | 'X' =>
    let (n, p) := wholeNumber dialect false given p
    p.put (integer x conversion n)
  | _ =>
    let (f, p) := number dialect (Floating.read dialect.precision) Floating.ofNat given p
    p.put (floating dialect.precision x conversion f)

def isSizeLetter (c : Char) : Bool := "lLhjtz".toList.contains c

def directive (dialect : Dialect) (spec : Octets) (args : List Octets) (p : Printed) :
    Octets × List Octets × Printed :=
  match dialect, spec with
  | .program, 'b' :: rest => (rest, args.drop 1, convert dialect {} 'b' args.head? p)
  | .program, 'q' :: rest => (rest, args.drop 1, convert dialect {} 'q' args.head? p)
  | _, _ =>
    let (x, rest) := flags dialect {} spec
    let (width, rest, left, p) := measure dialect rest args p
    if maxMeasure < width.natAbs then
      (rest, left, p.abort 1 ("invalid field width: ".toList ++ Quoting.named (args.headD [])))
    else
      let x := { x with width := width.natAbs, left := x.left || width < 0 }
      let args := left
      let (precision, rest, left, p) : Int × Octets × List Octets × Printed :=
        match rest with
        | '.' :: rest => measure dialect rest args p
        | _ => (-1, rest, args, p)
      if (maxMeasure : Int) < precision then
        (rest, left, p.abort 1 ("invalid precision: ".toList ++ Quoting.named (args.headD [])))
      else
        let x := { x with precision := if precision < 0 then none else some precision.toNat }
        let rest := if dialect = .program then rest.dropWhile isSizeLetter else rest
        let written : Octets := '%' :: spec.take (spec.length - (rest.drop 1).length)
        match dialect, rest with
        | .shell, [] => ([], left, p.abort 2 "missing format character".toList)
        | _, _ =>
          let conversion := rest.headD '\x00'
          if (conversions dialect x).contains conversion then
            (rest.drop 1, left.drop 1, convert dialect x conversion left.head? p)
          else
            match dialect with
            | .shell => (rest, left, p.abort 2 (written ++ ": invalid directive".toList))
            | .program => (rest, left, p.abort 1 (written ++ ": invalid conversion specification".toList))

def pass (dialect : Dialect) : (fuel : Nat) → Octets → List Octets → Bool → Printed →
    Printed × List Octets × Bool
  | 0, _, args, used, p => (p, args, used)
  | fuel + 1, cs, args, used, p =>
    if p.ended then (p, args, used)
    else
      match cs with
      | [] => (p, args, used)
      | '\\' :: rest =>
        match escape dialect false rest with
        | (.text o, rest) => pass dialect fuel rest args used (p.put o)
        | (.stop, _) => ({ p with ended := true, status := 0 }, args, used)
        | (.fault text, _) => (p.abort 1 text.toList, args, used)
      | '%' :: '%' :: rest => pass dialect fuel rest args used (p.put ['%'])
      | '%' :: spec =>
        let (rest, left, p) := directive dialect spec args p
        pass dialect fuel rest left (used || left.length < args.length) p
      | _ =>
        let plain := cs.takeWhile fun c => c ≠ '\\' && c ≠ '%'
        pass dialect fuel (cs.drop plain.length) args used (p.put plain)

def passes (dialect : Dialect) (format : Octets) : (fuel : Nat) → List Octets → Printed → Printed
  | 0, _, p => p
  | fuel + 1, args, p =>
    let (p, left, used) := pass dialect (format.length + 1) format args false p
    if p.ended ∨ left.isEmpty then p
    else if used then passes dialect format fuel left p
    else
      match dialect with
      | .program =>
        p.warn ("warning: ignoring excess arguments, starting with ".toList ++ Quoting.named (left.headD []))
      | .shell => p

def print (dialect : Dialect) (format : Octets) (args : List Octets) : List Event × Nat :=
  let p := passes dialect format (args.length + 1) args {}
  (p.events.reverse, p.status)

end Format

namespace Tool

def printf : Tool := fun c => do
  match if c.args.head? = some ['-', '-'] then c.args.drop 1 else c.args with
  | [] => fail c ("missing operand".toList ++ hint c)
  | format :: args =>
    let (events, status) := Format.print .program format args
    let unwritten ← events.foldlM (fun unwritten e => do
      match e with
      | .output o => return o :: unwritten
      | .complaint text =>
        let _ ← Process.put 1 unwritten.reverse.flatten
        complain c text
        return []) []
    print c unwritten.reverse.flatten status

end Tool

end Inlay.Program

import Inlay.Program.Tool

namespace Inlay.Program

def everyOctet : List Char := (List.range 256).map Char.ofNat

def charRange (a b : Char) : List Char :=
  (List.range (b.toNat + 1 - a.toNat)).map fun i => Char.ofNat (a.toNat + i)

def classMembers (name : Octets) : Option (Char → Bool) :=
  let graphic (c : Char) : Bool := '!' ≤ c && c ≤ '~'
  match String.ofList name with
  | "lower" => some Char.isLower
  | "upper" => some Char.isUpper
  | "alpha" => some Char.isAlpha
  | "digit" => some Char.isDigit
  | "alnum" => some Char.isAlphanum
  | "space" => some Octets.isSpace
  | "blank" => some fun c => c = ' ' || c = '\t'
  | "punct" => some fun c => graphic c && !c.isAlphanum
  | "cntrl" => some fun c => c < ' ' || c = '\x7F'
  | "graph" => some graphic
  | "print" => some fun c => graphic c || c = ' '
  | "xdigit" => some (Octets.isDigitOf 16)
  | _ => none

namespace Translate

abbrev Marked := Char × Bool

def isOctal (c : Char) : Bool := '0' ≤ c && c ≤ '7'

def letterEscapes : List (Char × Char) :=
  [('a', '\x07'), ('b', '\x08'), ('f', '\x0C'), ('n', '\n'), ('r', '\r'), ('t', '\t'), ('v', '\x0B')]

def octalEscape (digits : Octets) : Char × Octets :=
  let three := (digits.take 3).takeWhile isOctal
  let used := if Octets.valueOf 8 three < 256 then three else three.take 2
  (Char.ofNat (Octets.valueOf 8 used), digits.drop used.length)

def unescape (cs : Octets) : List Octets × List Marked :=
  match cs with
  | [] => ([], [])
  | ['\\'] => (["warning: an unescaped backslash at end of string is not portable".toList], [('\\', false)])
  | '\\' :: c :: rest =>
    if isOctal c then
      let (o, left) := octalEscape (c :: rest)
      let three := ((c :: rest).take 3).takeWhile isOctal
      let ambiguous : Bool := 256 ≤ Octets.valueOf 8 three
      let warning : List Octets :=
        if ambiguous then
          ["warning: the ambiguous octal escape \\".toList ++ three ++
            " is being\n\tinterpreted as the 2-byte sequence \\0".toList ++ three.take 2 ++ ", ".toList ++
            three.drop 2]
        else []
      let (warnings, more) := unescape (rest.drop ((c :: rest).length - left.length - 1))
      (warning ++ warnings, (o, true) :: more)
    else
      let (warnings, more) := unescape rest
      (warnings, ((letterEscapes.lookup c).getD c, true) :: more)
  | c :: rest =>
    let (warnings, more) := unescape rest
    (warnings, (c, false) :: more)
termination_by cs.length
decreasing_by all_goals simp; try omega

inductive Element
  | char (c : Char)
  | range (a b : Char)
  | ofClass (name : Octets)
  | equivalent (c : Char)
  | repeated (c : Char) (count : Option Nat)
  deriving DecidableEq, Repr

def shownChar (c : Char) : Octets := if Quoting.isPrintable c then [c] else '\\' :: Quoting.octal c

def shown (o : Octets) : Octets :=
  o.flatMap fun c => if c = '\\' then ['\\', '\\'] else if Quoting.isPrintable c then [c] else Quoting.escaped c

def enclosed (delimiter : Char) : List Marked → Option (Octets × List Marked)
  | (c, false) :: (']', false) :: rest =>
    if c = delimiter then some ([], rest)
    else (enclosed delimiter ((']', false) :: rest)).map fun (o, rest) => (c :: o, rest)
  | (c, _) :: rest => (enclosed delimiter rest).map fun (o, rest) => (c :: o, rest)
  | [] => none

def isCount (ms : List Marked) : Bool :=
  match ms with
  | ('*', false) :: rest => (rest.dropWhile fun m => m.1.isDigit).head? = some (']', false)
  | _ => false

def repetition (ms : List Marked) : Except Octets (Option (Element × List Marked)) :=
  match ms with
  | (c, _) :: ('*', false) :: rest =>
    let number := rest.takeWhile (· ≠ (']', false))
    match rest.drop number.length with
    | [] => .ok none
    | _ :: left =>
      let digits := number.map (·.1)
      let base := if digits.head? = some '0' then 8 else 10
      if digits.isEmpty then .ok (some (.repeated c none, left))
      else if digits.all (Octets.isDigitOf base) then
        let n := Octets.valueOf base digits
        .ok (some (.repeated c (if n = 0 then none else some n), left))
      else
        .error ("invalid repeat count ".toList ++ Quoting.named (shown digits) ++ " in [c*n] construct".toList)
  | _ => .ok none

def classElement (ms : List Marked) : Except Octets (Option (Element × List Marked)) :=
  match ms with
  | (k, _) :: body =>
    if k = ':' ∨ k = '=' then
      match enclosed k body with
      | none => .ok none
      | some ([], _) =>
        .error (if k = ':' then "missing character class name '[::]'" else
          "missing equivalence class character '[==]'").toList
      | some (name, rest) =>
        if k = ':' then
          if (classMembers name).isSome then .ok (some (.ofClass name, rest))
          else if isCount body then .ok none
          else .error ("invalid character class ".toList ++ Quoting.named (shown name))
        else
          match name with
          | [c] => .ok (some (.equivalent c, rest))
          | _ =>
            if isCount body then .ok none
            else .error (shown name ++ ": equivalence class operand must be a single character".toList)
    else .ok none
  | [] => .ok none

def elements : (count : Nat) → List Marked → Except Octets (List Element)
  | 0, _ | _, [] => .ok []
  | count + 1, ms => do
    match ms with
    | (c, escaped) :: second :: third :: rest =>
      let bracketed ← if c = '[' ∧ !escaped then classElement (second :: third :: rest) else .ok none
      let bracketed ← match bracketed with
        | some found => .ok (some found)
        | none => if c = '[' ∧ !escaped then repetition (second :: third :: rest) else .ok none
      match bracketed with
      | some (e, rest) => .ok (e :: (← elements count rest))
      | none =>
        if second = ('-', false) then
          if third.1 < c then
            .error ("range-endpoints of '".toList ++ shownChar c ++ '-' :: shownChar third.1 ++
              "' are in reverse collating sequence order".toList)
          else .ok (.range c third.1 :: (← elements count rest))
        else .ok (.char c :: (← elements count (second :: third :: rest)))
    | (c, _) :: rest => .ok (.char c :: (← elements count rest))
    | [] => .ok []

/-- A character of a set; `upper` tells of letters of one case as a class, and `first` whether the
element starts here. -/
structure Cell where
  char : Char
  upper : Option Bool := none
  first : Bool := true

def Element.cells : Element → List Cell
  | .char c | .equivalent c => [⟨c, none, true⟩]
  | .range a b => (charRange a b).map (⟨·, none, true⟩)
  | .repeated c n => List.replicate (n.getD 0) ⟨c, none, true⟩
  | .ofClass name =>
    let upper := if name = "upper".toList then some true else if name = "lower".toList then some false else none
    let members := everyOctet.filter ((classMembers name).getD fun _ => false)
    members.zipIdx.map fun (c, i) => ⟨c, upper, i == 0⟩

def cells (es : List Element) : List Cell := es.flatMap Element.cells

def chars (es : List Element) : List Char := (cells es).map (·.char)

structure Plan where
  delete : Bool
  squeeze : Bool
  complement : Bool
  truncate : Bool

def members (p : Plan) (es : List Element) : List Char :=
  if p.complement then everyOctet.filter (!(chars es).contains ·) else chars es

def isFilling : Element → Bool
  | .repeated _ none => true
  | _ => false

def isClass : Element → Bool
  | .ofClass _ => true
  | _ => false

def isPlainClass : Element → Bool
  | .ofClass name => name ≠ "upper".toList ∧ name ≠ "lower".toList
  | _ => false

def isEquivalence : Element → Bool
  | .equivalent _ => true
  | _ => false

def filled (length : Nat) (es : List Element) : List Element :=
  let missing := length - (cells es).length
  es.map fun
    | .repeated c none => .repeated c (some missing)
    | e => e

def skipElement (cs : List Cell) : List Cell := (cs.drop 1).dropWhile (!·.first)

/-- Both sets side by side: which character takes the place of which. A class of letters of one case
in the second set stands across from one in the first; `count` bounds the pairs. -/
def pairs : (count : Nat) → List Cell → List Cell → Except Octets (List (Char × Char))
  | count + 1, a :: as, b :: bs => do
    match b.upper with
    | none => .ok ((a.char, b.char) :: (← pairs count as bs))
    | some upper =>
      match a.upper with
      | some upper' =>
        if b.first ∧ !a.first then .error "misaligned [:upper:] and/or [:lower:] construct".toList
        else
          let rest ← pairs count (skipElement (a :: as)) (skipElement (b :: bs))
          if upper = upper' then .ok ((a.char, b.char) :: rest)
          else if upper then .ok ((everyOctet.filter Char.isLower).map (fun c => (c, c.toUpper)) ++ rest)
          else .ok ((everyOctet.filter Char.isUpper).map (fun c => (c, c.toLower)) ++ rest)
      | none => .error "misaligned [:upper:] and/or [:lower:] construct".toList
  | _, [], b :: _ => if b.upper.isSome then .error "misaligned [:upper:] and/or [:lower:] construct".toList else .ok []
  | _, _, _ => .ok []

/-- The length of a set, a class of letters of one case counted as one character where such classes
stand across from each other. -/
def length (paired : Bool) (cs : List Cell) : Nat :=
  if paired then (cs.filter fun c => c.first || c.upper.isNone).length else cs.length

def extended (missing : Nat) (es : List Element) : Except Octets (List Element) :=
  match es.getLast? with
  | none => .error "when not truncating set1, string2 must be non-empty".toList
  | some (.ofClass _) =>
    .error ("when translating with string1 longer than string2,\n" ++
      "the latter string must not end with a character class").toList
  | some (.char c) | some (.range _ c) | some (.repeated c _) | some (.equivalent c) =>
    .ok (es ++ [.repeated c (some missing)])

def translation (p : Plan) (set₁ set₂ : List Element) : Except Octets (List (Char × Char)) := do
  let first : List Cell := if p.complement then (members p set₁).map (⟨·, none, true⟩) else cells set₁
  let set₂ := filled first.length set₂
  if set₂.any isEquivalence then .error "[=c=] expressions may not appear in string2 when translating".toList
  if set₂.any isPlainClass then
    .error ("when translating, the only character classes that may appear in\n" ++
      "string2 are 'upper' and 'lower'").toList
  let aligned := !p.complement && set₂.any isClass
  if aligned then let _ ← pairs (first.length + 1) first (cells set₂)
  let missing := length aligned first - length aligned (cells set₂)
  let set₂ ← if missing = 0 ∨ p.truncate then .ok set₂ else extended missing set₂
  let second := cells set₂
  if p.complement && set₁.any isClass &&
      !(second.length == first.length && second.all fun c => some c.char == second.head?.map (·.char)) then
    .error ("when translating with complemented character classes,\n" ++
      "string2 must map all characters in the domain to one").toList
  pairs (first.length + 1) first second

def squeezed (set : List Char) : Octets → Octets
  | [] => []
  | c :: cs =>
    match squeezed set cs with
    | [] => [c]
    | d :: ds => if c = d ∧ set.contains c then d :: ds else c :: d :: ds

def image (pairs : List (Char × Char)) : Array Char :=
  pairs.foldl (fun table p => table.set! p.1.toNat p.2) everyOctet.toArray

def plan (p : Plan) (set₁ : List Element) (set₂ : Option (List Element)) : Except Octets (Octets → Octets) := do
  if set₁.any isFilling then .error "the [c*] repeat construct may not appear in string1".toList
  if 1 < ((set₂.getD []).filter isFilling).length then
    .error "only one [c*] repeat construct may appear in string2".toList
  let translating := set₂.isSome && !p.delete
  if !translating && (set₂.getD []).any isFilling then
    .error "the [c*] construct may appear in string2 only when translating".toList
  let inFirst := members p set₁
  let inSecond := chars (set₂.getD [])
  if p.delete then
    .ok fun text =>
      let kept := text.filter (!inFirst.contains ·)
      if p.squeeze then squeezed inSecond kept else kept
  else
    match set₂ with
    | none => .ok (squeezed inFirst)
    | some set₂ =>
      let ps ← translation p set₁ set₂
      let table := image ps
      let inSecond := chars (filled inFirst.length set₂)
      .ok fun text =>
        let out := text.map fun c => table[c.toNat]?.getD c
        if p.squeeze then squeezed inSecond out else out

def twoStrings : String := "\nTwo strings must be given when "

def arity (p : Plan) (sets : List Octets) : Option Octets :=
  let least := if p.delete = p.squeeze then 2 else 1
  let most := if p.delete && !p.squeeze then 1 else 2
  if sets.isEmpty then some "missing operand".toList
  else if sets.length < least then
    some ("missing operand after ".toList ++ Quoting.named (sets.getLastD []) ++
      (twoStrings ++
        (if p.squeeze then "both deleting and squeezing repeats." else "translating.")).toList)
  else
    match sets[most]? with
    | none => none
    | some extra =>
      some ("extra operand ".toList ++ Quoting.named extra ++
        (if sets.length = 2 then
          "\nOnly one string may be given when deleting without squeezing repeats." else "").toList)

def choices : List Choice :=
  [⟨"c", some 'c', some "complement", .nothing⟩, ⟨"c", some 'C', none, .nothing⟩,
    ⟨"d", some 'd', some "delete", .nothing⟩, ⟨"s", some 's', some "squeeze-repeats", .nothing⟩,
    ⟨"t", some 't', some "truncate-set1", .nothing⟩]

end Translate

open Translate in
def Tool.tr : Tool := Tool.ofOptions Translate.choices false fun c a => do
  let p : Plan := ⟨a.has "d", a.has "s", a.has "c", a.has "t"⟩
  match arity p a.operands with
  | some text => fail c (text ++ hint c)
  | none =>
    let read (o : Octets) : Act (Except Octets (List Element)) := do
      let (warnings, ms) := unescape o
      warnings.forM (complain c)
      return elements ms.length ms
    let sets ← a.operands.mapM read
    match sets.mapM id with
    | .error text => fail c text
    | .ok sets =>
      match plan p (sets.headD []) sets[1]? with
      | .error text => fail c text
      | .ok apply =>
        match ← wholeOf ['-'] with
        | .error (.inl e) | .error (.inr e) => fail c ("read error: ".toList ++ reason e)
        | .ok text => print c (apply text) 0

end Inlay.Program

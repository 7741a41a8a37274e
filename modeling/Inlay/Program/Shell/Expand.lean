import Inlay.Program.Shell.Arithmetic
import Inlay.Program.Shell.FileName
import Inlay.Program.Shell.State

namespace Inlay.Program.Shell

inductive Glyph
  | char (c : Char) (literal splits : Bool)
  | separator (hard : Bool)
  | mark
  | boundary (hard : Bool)
  deriving DecidableEq, Repr

namespace Glyph

def char? : Glyph → Option Char
  | .char c _ _ => some c
  | _ => none

def text (gs : List Glyph) : Octets := gs.filterMap char?

def pattern (gs : List Glyph) : List Sign :=
  gs.filterMap fun g =>
    match g with
    | .char c literal _ => some ⟨c, literal⟩
    | _ => none

def ofText (o : Octets) : List Glyph := o.map fun c => .char c true false

def ofExpansion (quoted : Bool) (o : Octets) : List Glyph :=
  if quoted then ofText o else .boundary false :: o.map fun c => .char c false true

/-- Cuts a word into fields. `skipping` is set after the end of a field, and tells whether it is one of
blanks only so far. -/
def fields (separators : Octets) (field : List Glyph) (hard : Bool) (skipping : Option Bool) :
    List Glyph → List (List Glyph)
  | [] => if hard ∨ !field.isEmpty then [field.reverse] else []
  | .boundary hard :: gs => fields separators field hard none gs
  | .separator true :: gs => field.reverse :: fields separators [] hard none gs
  | .separator false :: gs =>
    if skipping.isSome ∨ field.isEmpty then fields separators field hard skipping gs
    else field.reverse :: fields separators [] hard (some true) gs
  | .char c literal splits :: gs =>
    if !splits ∨ !separators.contains c then fields separators (.char c literal splits :: field) hard none gs
    else
      let blank := defaultSeparators.contains c
      match skipping, blank with
      | some _, true => fields separators field hard skipping gs
      | some true, false => fields separators field hard (some false) gs
      | _, _ =>
        if blank ∧ field.isEmpty then fields separators field hard none gs
        else field.reverse :: fields separators [] hard (some blank) gs
  | .mark :: gs => fields separators (.mark :: field) hard none gs

end Glyph

structure Mode where
  fields : Bool := false
  quoted : Bool := false
  tilde : Bool := false
  colons : Bool := false
  inside : Bool := false

def homeOf (user : Octets) : Sh (Option Octets) := do
  if user.isEmpty then return (← Sh.lookup "HOME").filter (!·.isEmpty)
  else return if user = "root".toList then some "/root".toList else none

def userAt? (colons : Bool) : Word → Option Octets
  | [] => some []
  | .char c :: w =>
    if c = '/' ∨ (colons ∧ c = ':') then some [] else (userAt? colons w).map (c :: ·)
  | _ => none

/-- Puts home directories in the place of tildes. `start` tells whether one may stand here, and `skip`
how many segments are part of one. -/
def withHomes (colons : Bool) (start : Bool) (skip : Nat) : Word → Sh Word
  | [] => return []
  | s :: w => do
    match skip, s with
    | skip + 1, _ => withHomes colons false skip w
    | 0, .char '~' =>
      let home ← match start, userAt? colons w with
        | true, some user => pure ((← homeOf user).map (·, user.length))
        | _, _ => pure none
      match home with
      | some (home, length) => return home.map .escaped ++ (← withHomes colons false length w)
      | none => return s :: (← withHomes colons false 0 w)
    | 0, .char ':' => return s :: (← withHomes colons colons 0 w)
    | 0, _ => return s :: (← withHomes colons false 0 w)

namespace Expand

def value? (name : Octets) (quoted fields : Bool) : Sh (Option (List (Option Char))) := do
  let s ← get
  let text (o : Octets) : Option (List (Option Char)) := some (o.map some)
  let number (n : Nat) : Option (List (Option Char)) := text (Octets.ofNat n)
  match String.ofList name with
  | "$" => return number (← Sh.process).identifier
  | "?" => return number s.status
  | "#" => return number s.parameters.length
  | "!" => return s.backgroundProcess.bind number
  | "-" => return text s.optionText
  | "@" | "*" =>
    let separator : List (Option Char) :=
      if fields ∧ ((name = ['@'] ∧ quoted) ∨ !quoted) then [none]
      else ((s.value? "IFS".toList).getD [' ']).head?.toList.map some
    return some ((s.parameters.map fun p => p.map some).intersperse separator).flatten
  | _ =>
    if Octets.isDecimal name then
      match Octets.valueOf 10 name with
      | 0 => return text s.name
      | n + 1 => return (s.parameters[n]?).bind text
    else return (s.value? name).bind text

def glyphs (name : Octets) (quoted fields : Bool) (v : List (Option Char)) : List Glyph :=
  let hard := quoted && fields && name = ['@']
  let gs := v.map fun c =>
    match c with
    | some c => Glyph.char c quoted (!quoted)
    | none => .separator hard
  if !quoted then .boundary false :: gs
  else if hard ∧ !gs.isEmpty then .boundary true :: gs
  else gs

def notSet {α : Type} (name : Octets) (message : Octets) : Sh α := Sh.fail (name ++ ": ".toList ++ message)

def unsetMessage (orNull : Bool) : Octets :=
  "parameter not set".toList ++ if orNull then " or null".toList else []

section

variable (run : Option Command → Sh Octets)

def parameter (inner : Mode → Word → Sh (List Glyph)) (m : Mode) (name : Octets) (o : Operator) (w : Word) :
    Sh (List Glyph) := do
  if o = .unknown then Sh.fail "Bad substitution".toList
  let found ← value? name m.quoted m.fields
  let there (orNull : Bool) : Bool := found.any fun v => !(orNull && v.isEmpty)
  let shown : List Glyph := match found with
    | some v => glyphs name m.quoted m.fields v
    | none => []
  let word : Sh (List Glyph) := inner { m with tilde := true, inside := true } w
  let needed : Sh Unit := do
    if found.isNone ∧ (← Sh.hasOption "nounset") then notSet name (unsetMessage false)
  match o with
  | .value =>
    needed
    return shown
  | .length =>
    needed
    return Glyph.ofExpansion m.quoted (Octets.ofNat (found.getD []).length)
  | .otherwise orNull => if there orNull then return shown else word
  | .instead orNull => if there orNull then word else return []
  | .assign orNull =>
    if there orNull then return shown
    let text := Glyph.text (← inner { tilde := true } w)
    Sh.setVariable name text
    match ← value? name m.quoted m.fields with
    | some v => return glyphs name m.quoted m.fields v
    | none => return []
  | .demand orNull =>
    if there orNull then return shown
    let text := Glyph.text (← inner { tilde := true } w)
    notSet name (if w.isEmpty then unsetMessage orNull else text)
  | .trim front longest =>
    needed
    let v := found.getD []
    let pattern := Pattern.ofSigns (Glyph.pattern (← inner { tilde := true } w))
    let text := v.map (·.getD '\x00')
    let left := if front then match pattern.front? longest text with
        | some n => v.drop n
        | none => v
      else match pattern.back? longest text with
        | some n => v.take n
        | none => v
    return glyphs name m.quoted m.fields left
  | .unknown => return []

def arithmeticValue (source : Octets) : Sh Octets := do
  let s ← get
  let value (name : String) : Except Arithmetic.Fault Int :=
    match s.value? name.toList with
    | none => .ok 0
    | some text =>
      match Arithmetic.integer? text with
      | some n => .ok n
      | none => .error (.illegalNumber text)
  match Arithmetic.evaluate value source with
  | .error f => Sh.fail (f.message source)
  | .ok (n, assigned) =>
    assigned.reverse.forM fun (name, n) => Sh.setVariable name.toList (toString n).toList
    return (toString n).toList

def substituted (o : Octets) : Octets :=
  ((o.filter (· ≠ '\x00')).reverse.dropWhile (· = '\n')).reverse

/-- The segments of a word from one on; `quoted` tells whether it stands in quotes of the word itself. All
parameters in quotes of their own are no field at all if there are none. -/
def segments (inner : Mode → Word → Sh (List Glyph)) (m : Mode) : (quoted : Bool) → Word → Sh (List Glyph)
  | _, [] => return []
  | quoted, .char c :: w => do
    return .char c false (m.inside && !m.quoted && !quoted) :: (← segments inner m quoted w)
  | quoted, .escaped c :: w => do return .char c true false :: (← segments inner m quoted w)
  | false, .mark :: .parameter ['@'] .value [] :: .mark :: w => do
    let here ← parameter inner { m with quoted := true } ['@'] .value []
    return here ++ (← segments inner m false w)
  | quoted, .mark :: w => do return .mark :: (← segments inner m (!quoted) w)
  | quoted, .parameter name o word :: w => do
    let here ← parameter inner { m with quoted := m.quoted || quoted } name o word
    return here ++ (← segments inner m quoted w)
  | quoted, .command c :: w => do
    let o ← run c
    return Glyph.ofExpansion (m.quoted || quoted) (substituted o) ++ (← segments inner m quoted w)
  | quoted, .arithmetic word :: w => do
    let source := Glyph.text (← inner {} word)
    let n ← arithmeticValue source
    return Glyph.ofExpansion (m.quoted || quoted) n ++ (← segments inner m quoted w)

def maxDepth : Nat := 1000

def word : (depth : Nat) → Mode → Word → Sh (List Glyph)
  | 0, _, _ => Sh.fail "too deep".toList
  | depth + 1, m, w => do segments run (word depth) m false (← withHomes m.colons m.tilde 0 w)

def text (m : Mode) (w : Word) : Sh Octets := do return Glyph.text (← word run maxDepth m w)

def pattern (w : Word) : Sh Pattern := do
  return Pattern.ofSigns (Glyph.pattern (← word run maxDepth { tilde := true } w))

def names (field : List Glyph) : Sh (List Octets) := do
  let signs := Glyph.pattern field
  if !Pattern.isWild signs ∨ (← Sh.hasOption "noglob") then return [Glyph.text field]
  match FileName.expand (← Sh.disk) (Pattern.ofSigns signs) with
  | [] => return [Glyph.text field]
  | found => return found

def fields (w : Word) : Sh (List Octets) := do
  let gs ← word run maxDepth { fields := true, tilde := true } w
  let fs := Glyph.fields (← Sh.separators) [] false none gs
  return (← fs.mapM names).flatten

end

end Expand

end Inlay.Program.Shell

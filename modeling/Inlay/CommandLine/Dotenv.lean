import Inlay.Settings.Load
import Inlay.Text.Character

namespace Inlay.CommandLine.Dotenv

def isKeyStart (c : Char) : Bool := c.isAlpha || c == '_'

def isKeyChar (c : Char) : Bool := c.isAlphanum || c == '_' || c == '.'

inductive Place
  | bare
  | escaped
  | strong
  | ending
  | name (braced : Bool) (chars : List Char)
  deriving DecidableEq, Repr

structure Reading where
  place : Place := .bare
  weak : Bool := false
  output : List Char := []
  deriving DecidableEq, Repr

namespace Reading

def push (r : Reading) (c : Char) : Reading := { r with output := c :: r.output }

def goto (r : Reading) (p : Place) : Reading := { r with place := p }

/-- Puts in the value of the variable with that name, nothing if it is not set. -/
def substitute (vars : Variables) (r : Reading) (name : List Char) : Reading :=
  let value := (vars.get? (String.ofList name)).getD ""
  { r with output := value.toList.reverse ++ r.output }

def isEscapable (c : Char) : Bool := c == '\\' || c == '\'' || c == '"' || c == '$' || c == ' '

def stepEscaped (r : Reading) (c : Char) : Option Reading :=
  if isEscapable c then some ((r.push c).goto .bare)
  else if c == 'n' then some ((r.push '\n').goto .bare)
  else none

def stepBare (r : Reading) (c : Char) : Reading :=
  if c == '$' then r.goto (.name false [])
  else if r.weak then
    if c == '"' then { r with weak := false }
    else if c == '\\' then r.goto .escaped
    else r.push c
  else if c == '\'' then r.goto .strong
  else if c == '"' then { r with weak := true }
  else if c == '\\' then r.goto .escaped
  else if c == ' ' || c == '\t' then r.goto .ending
  else r.push c

def stepName (vars : Variables) (r : Reading) (braced : Bool) (chars : List Char) (c : Char) :
    Reading :=
  if Text.isAlphanumeric c then r.goto (.name braced (chars ++ [c]))
  else if braced then
    if c == '\x7d' then (r.substitute vars chars).goto .bare
    else r.goto (.name true (chars ++ [c]))
  else if c == '\x7b' && chars.isEmpty then r.goto (.name true [])
  else if c == '$' then (r.substitute vars chars).goto (.name false [])
  else ((r.substitute vars chars).push c).goto .bare

def read (vars : Variables) (r : Reading) : List Char → Option Reading
  | [] => some r
  | c :: cs =>
    match r.place with
    | .ending =>
      if c == ' ' || c == '\t' then r.read vars cs else if c == '#' then some r else none
    | .escaped => do (← r.stepEscaped c).read vars cs
    | .strong => if c == '\'' then (r.goto .bare).read vars cs else (r.push c).read vars cs
    | .name braced chars => (r.stepName vars braced chars c).read vars cs
    | .bare => (r.stepBare c).read vars cs

/-- The value of a reading that has come to its end, with all quotes and braces closed. -/
def finish (vars : Variables) (r : Reading) : Option String :=
  match r.place with
  | .strong | .name true _ => none
  | .name false chars =>
    if r.weak then none else some (String.ofList (r.substitute vars chars).output.reverse)
  | _ => if r.weak then none else some (String.ofList r.output.reverse)

end Reading

def value (vars : Variables) (cs : List Char) : Option String := do
  let r ← Reading.read vars {} cs
  r.finish vars

def key (cs : List Char) : Option (String × List Char) :=
  match cs with
  | c :: _ =>
    if isKeyStart c then
      some (String.ofList (cs.takeWhile isKeyChar), (cs.dropWhile isKeyChar).dropWhile Text.isBlank)
    else none
  | [] => none

def isSkipped : List Char → Bool
  | [] => true
  | c :: _ => c == '#'

/-- The key of an assignment and what follows its equals sign. `export` may stand before the key,
or be one. -/
def assignment (cs : List Char) : Option (String × List Char) := do
  match ← key cs with
  | (k, '=' :: rest) => some (k, rest)
  | (k, rest) =>
    if k = "export" then
      match ← key rest with
      | (k, '=' :: rest) => some (k, rest)
      | _ => none
    else none

/-- A line: none if it is not understood, nothing if there is no assignment on it. -/
def line (vars : Variables) (cs : List Char) : Option (Option (String × String)) :=
  let cs := (Text.trimEnd cs).dropWhile Text.isBlank
  if isSkipped cs then some none
  else do
    let (k, rest) ← assignment cs
    let rest := rest.dropWhile Text.isBlank
    let v ← if isSkipped rest then some "" else value vars rest
    some (some (k, v))

/-- None if the value cannot be set. -/
def addMissing (vars : Variables) (key value : String) : Option Variables :=
  if vars.contains key then some vars
  else if value.toList.contains '\x00' then none
  else some (vars.insert key value)

def lineBreak : UInt8 := 0x0A

def splitLines (bytes : Bytes) : List Bytes :=
  match bytes with
  | [] => []
  | b :: bs =>
    if b = lineBreak then [] :: splitLines bs
    else
      match splitLines bs with
      | [] => [[b]]
      | l :: ls => (b :: l) :: ls

def addLines (vars : Variables) : List Bytes → Option Variables
  | [] => some vars
  | bytes :: rest =>
    match (Text.decode? bytes).bind fun s => line vars s.toList with
    | none => some vars
    | some none => addLines vars rest
    | some (some (k, v)) => do addLines (← addMissing vars k v) rest

def fileName : String := ".env"

def path (directory : Location) : Path :=
  Path.join (Disk.pathTo directory) fileName

/-- The content of the nearest such file, in the directory or one above it; a name there that leads
in circles ends the search. -/
def nearest (d : Disk) : List Location → Option Bytes
  | [] => none
  | l :: above =>
    match d.stat (path l) with
    | .ok (.file ..) => (d.read (path l)).toOption
    | .ok _ | .error .noEntry => nearest d above
    | .error _ => none

def ancestors (l : Location) : List Location := (List.range (l.length + 1)).reverse.map l.take

/-- The variables with those of the nearest file; none if one of them cannot be set. -/
def complete (d : Disk) (vars : Variables) : Option Variables :=
  match nearest d (ancestors d.workingDirectory) with
  | some content => addLines vars (splitLines content)
  | none => some vars

end Inlay.CommandLine.Dotenv

import Inlay.Run
import Inlay.Settings.Load

namespace Inlay.CommandLine

inductive Flag
  | settings
  | verbose
  | version
  | dsl
  | packageKey
  | fusionFile
  | noDiff
  deriving DecidableEq, Repr

namespace Flag

def name : Flag → String
  | .settings => "settings"
  | .verbose => "verbose"
  | .version => "version"
  | .dsl => "dsl"
  | .packageKey => "package-key"
  | .fusionFile => "fusion-file"
  | .noDiff => "no-diff"

def letter? : Flag → Option Char
  | .settings => some 's'
  | .verbose => some 'v'
  | .version => some 'V'
  | _ => none

def takesValue : Flag → Bool
  | .verbose | .version | .noDiff => false
  | _ => true

def admits (f : Flag) (value : String) : Bool :=
  match f with
  | .settings | .fusionFile => !value.isEmpty
  | _ => true

def general : List Flag := [.settings, .verbose]

def leading : List Flag := general ++ [.version]

def expanding : List Flag := general ++ [.dsl, .packageKey, .fusionFile, .noDiff]

end Flag

abbrev Given := List (Flag × String)

inductive Refusal
  | usage
  | version
  deriving DecidableEq, Repr

def record (given : Given) (f : Flag) (value : String) : Except Refusal Given :=
  if f = .version then .error .version
  else if given.any (·.1 = f) || !f.admits value then .error .usage
  else .ok (given ++ [(f, value)])

inductive Reading
  | complete (given : Given)
  | waiting (given : Given) (f : Flag)

def readLong (known : List Flag) (given : Given) (name : String) (value : Option String) :
    Except Refusal Reading :=
  match known.find? (·.name == name) with
  | none => .error .usage
  | some f =>
    match f.takesValue, value with
    | true, some v => (record given f v).map .complete
    | true, none => .ok (.waiting given f)
    | false, some _ => .error .usage
    | false, none => (record given f "").map .complete

/-- Flags by their letters. A letter that takes a value takes the rest of the argument, an equals
sign left out. -/
def readShort (known : List Flag) (given : Given) : List Char → Except Refusal Reading
  | [] => .ok (.complete given)
  | c :: rest =>
    match known.find? (·.letter? == some c) with
    | none => .error .usage
    | some f =>
      if f.takesValue then
        match rest with
        | [] => .ok (.waiting given f)
        | '=' :: value => (record given f (String.ofList value)).map .complete
        | value => (record given f (String.ofList value)).map .complete
      else do readShort known (← record given f "") rest

def isDashed (argument : String) : Bool := argument.toList.head? == some '-' && argument != "-"

def readDashed (known : List Flag) (given : Given) (argument : String) : Except Refusal Reading :=
  match argument.toList with
  | '-' :: '-' :: cs =>
    let name := String.ofList (cs.takeWhile (· != '='))
    match cs.dropWhile (· != '=') with
    | [] => readLong known given name none
    | _ :: value => readLong known given name (some (String.ofList value))
  | '-' :: cs => readShort known given cs
  | _ => .error .usage

def terminator : String := "--"

/-- The flags up to the first operand, and the arguments from there on. Nothing may follow the end
of options, since an operand there could only name a command. No value starts with a dash. -/
def readFlags (known : List Flag) (given : Given) : List String → Except Refusal (Given × List String)
  | [] => .ok (given, [])
  | argument :: rest => do
    if argument = terminator then if rest.isEmpty then .ok (given, []) else .error .usage
    else if !isDashed argument then .ok (given, argument :: rest)
    else
      match ← readDashed known given argument with
      | .complete given => readFlags known given rest
      | .waiting given f =>
        match rest with
        | [] => .error .usage
        | value :: rest =>
          if isDashed value then .error .usage else readFlags known (← record given f value) rest

def value? (given : Given) (f : Flag) : Option String := (given.find? (·.1 = f)).map (·.2)

def has (given : Given) (f : Flag) : Bool := (value? given f).isSome

inductive Command
  | expand (request : Request)
  | list
  deriving DecidableEq, Repr

structure Invocation where
  settings : Option String
  verbose : Bool
  command : Command
  deriving DecidableEq, Repr

def command? (name : String) : Option (List Flag × (Given → Option Command)) :=
  let expand (mode : Mode) (given : Given) : Option Command := do
    let dsl ← value? given .dsl
    some (.expand ⟨dsl, value? given .packageKey, (value? given .fusionFile).map Text.encode, mode,
      .ofNoDiff (has given .noDiff)⟩)
  if name = "simulate" then some (Flag.expanding, expand .simulate)
  else if name = "eject" then some (Flag.expanding, expand .eject)
  else if name = "list" then some (Flag.general, fun _ => some .list)
  else none

def settingsVariable : String := "FUSION_DSL_SETTINGS"

/-- The path of the settings. The variable stands in at either place that does not name them, so
it has to be a path wherever it does. -/
def settingsPath (vars : Variables) (before after : Given) : Option (Option String) :=
  let named := [value? after .settings, value? before .settings]
  match vars.get? settingsVariable with
  | some "" => if named.all Option.isSome then some (named.head?.join) else none
  | path => some ((named.filterMap id).head?.or path)

def parse (vars : Variables) (arguments : List String) : Except Refusal Invocation := do
  let (before, rest) ← readFlags Flag.leading [] arguments
  match rest with
  | [] => .error .usage
  | name :: rest =>
    match command? name with
    | none => .error .usage
    | some (known, make) =>
      let (after, operands) ← readFlags known [] rest
      match operands, make after, settingsPath vars before after with
      | [], some command, some settings =>
        .ok ⟨settings, has before .verbose || has after .verbose, command⟩
      | _, _, _ => .error .usage

end Inlay.CommandLine

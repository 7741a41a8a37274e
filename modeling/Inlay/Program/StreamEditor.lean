import Inlay.Program.StreamEditor.Edit

namespace Inlay.Program

namespace StreamEditor

def choices : List Choice :=
  [{ key := "binary", letter := some 'b', long := some "binary" },
    { key := "extended", letter := some 'E', long := some "regexp-extended" },
    { key := "extended", letter := some 'r' },
    { key := "debug", long := some "debug" },
    { key := "inPlace", letter := some 'i', long := some "in-place", takes := .joined },
    { key := "expression", letter := some 'e', long := some "expression", takes := .value },
    { key := "file", letter := some 'f', long := some "file", takes := .value },
    { key := "followLinks", long := some "follow-symlinks" },
    { key := "width", letter := some 'l', long := some "line-length", takes := .value },
    { key := "zero", letter := some 'z', long := some "null-data" },
    { key := "zero", long := some "zero-terminated" },
    { key := "silent", letter := some 'n', long := some "quiet" },
    { key := "standard", long := some "posix" },
    { key := "silent", long := some "silent" },
    { key := "sandbox", long := some "sandbox" },
    { key := "separate", letter := some 's', long := some "separate" },
    { key := "unbuffered", letter := some 'u', long := some "unbuffered" }]

/-- A script while its pieces are put together, and whether they are in the extended notation. -/
structure Assembly where
  draft : Draft := .start
  extended : Bool := false
  count : Nat := 0
  last : Option Piece := none

namespace Assembly

def add (a : Assembly) (p : Piece) : ExceptT Fault Act Assembly := do
  let draft ← MonadExcept.ofExcept (a.draft.read a.extended p)
  return { a with draft, last := some p }

def addExpression (a : Assembly) (text : Octets) : ExceptT Fault Act Assembly :=
  let count := a.count + 1
  { a with count }.add (.expression count text)

def addFile (a : Assembly) (name : Octets) : ExceptT Fault Act Assembly := do
  match ← (Tool.wholeOf name : Act _) with
  | .error (.inl e) =>
    throw (.panic ("couldn't open file ".toList ++ name ++ ": ".toList ++ Tool.reason e))
  | .error (.inr _) => a.add (.file name [])
  | .ok text => a.add (.file name text)

def addGiven (a : Assembly) : List (String × Octets) → ExceptT Fault Act Assembly
  | [] => return a
  | (key, value) :: rest => do
    let a ← match key with
      | "extended" => pure { a with extended := true }
      | "expression" => a.addExpression value
      | "file" => a.addFile value
      | _ => pure a
    a.addGiven rest

def place (a : Assembly) : Octets := (a.last.map (·.afterEnd 0)).getD []

end Assembly

def options (a : Arguments) : Options :=
  { delimiter := if a.has "zero" then '\x00' else '\n'
    silent := a.has "silent"
    separate := a.has "separate" || a.has "inPlace"
    unbuffered := a.has "unbuffered"
    inPlace := a.value? "inPlace"
    followLinks := a.has "followLinks"
    width := match a.value? "width" with
      | some o => Octets.valueOf 10 (o.takeWhile Char.isDigit)
      | none => 70 }

def assemble (a : Arguments) : ExceptT Fault Act (Assembly × List Octets) := do
  let start : Assembly := { draft := { Draft.start with confined := a.has "sandbox" } }
  let given ← start.addGiven a.given
  match given.last, a.operands with
  | none, script :: names => return (← given.addExpression script, names)
  | none, [] => throw ⟨[], 1⟩
  | some _, names => return (given, names)

def runFrom {α : Type} (s : Session) (e : Edit α) : Act (Except Fault α × Session) := StateT.run (ExceptT.run e) s

def edit (c : Call) (a : Arguments) : ExceptT Fault Act Nat := do
  let (assembly, names) ← assemble a
  let script ← MonadExcept.ofExcept assembly.draft.finish
  let j : Job := { script, options := options a, place := assembly.place }
  if j.options.inPlace.isSome ∧ names.isEmpty then throw (.panic "no input files".toList)
  let start := Session.start j (Tool.sourcesOf names)
  let (result, s) ← (runFrom start (Edit.run j (Tool.complain c)) : Act _)
  match result with
  | .error fault =>
    if !fault.message.isEmpty then (Tool.complain c fault.message : Act Unit)
    let _ ← (runFrom s Edit.flush : Act _)
    throw ⟨[], fault.status⟩
  | .ok status =>
    let (flushed, _) ← (runFrom s Edit.flush : Act _)
    let () ← MonadExcept.ofExcept flushed
    match ← (Process.stream 1 : Act _) with
    | .ok _ => return status
    | .error e => throw (.panic ("couldn't close stdout: ".toList ++ Tool.reason e))

end StreamEditor

namespace Tool

def sed : Tool := fun c => do
  match Arguments.read StreamEditor.choices true c.args with
  | .error text => fail c text
  | .ok a =>
    match ← (StreamEditor.edit c a).run with
    | .ok status => return status
    | .error fault =>
      if !fault.message.isEmpty then complain c fault.message
      return fault.status

end Tool

end Inlay.Program

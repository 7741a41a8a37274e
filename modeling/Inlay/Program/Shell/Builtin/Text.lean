import Inlay.Program.Format
import Inlay.Program.Shell.Builtin.Basic
import Inlay.Program.Shell.Condition

namespace Inlay.Program.Shell.Builtin

def echoed (newline : Bool) : List Octets → Octets
  | [] => if newline then ['\n'] else []
  | o :: rest =>
    match Format.expandArgument .shell o.length o, rest with
    | (text, some _), _ => text
    | (text, none), [] => text ++ if newline then ['\n'] else []
    | (text, none), rest => text ++ ' ' :: echoed newline rest

def echo (i : Invocation) : Sh Nat := do
  match i.args with
  | ['-', 'n'] :: rest => Sh.write (echoed false rest)
  | args => Sh.write (echoed true args)
  return 0

def printf (i : Invocation) : Sh Nat := do
  match ← operands i.args with
  | [] => Sh.fail "usage: printf format [arg ...]".toList
  | format :: args =>
    let (events, status) := Format.print .shell format args
    events.forM fun e => do
      match e with
      | .output o => Sh.write o
      | .complaint text => Sh.warn text
    return status

def test (i : Invocation) : Sh Nat := do
  let args ← if i.name = ['['] then
      match i.args.getLast? with
      | some [']'] => pure i.args.dropLast
      | _ => Sh.fail "missing ]".toList
    else pure i.args
  match Condition.holds (← Sh.process) args with
  | .ok true => return 0
  | .ok false => return 1
  | .error text => Sh.fail text

/-- A character that was read; one after a backslash ends no field. -/
structure Read where
  char : Char
  escaped : Bool
  deriving DecidableEq, Repr

def readLine (raw : Bool) : (fuel : Nat) → (escaped : Bool) → Sh (List Read × Bool)
  | 0, _ => return ([], false)
  | fuel + 1, escaped => do
    match ← Sh.act (Process.stream 0) with
    | .error _ => return ([], false)
    | .ok n =>
      match ← Sh.act (Process.pull n (some 1)) with
      | .error _ | .ok [] => return ([], false)
      | .ok (c :: _) =>
        if c = '\x00' then readLine raw fuel escaped
        else if escaped then
          if c = '\n' then readLine raw fuel false
          else
            let (rest, ended) ← readLine raw fuel false
            return (⟨c, true⟩ :: rest, ended)
        else if c = '\\' ∧ !raw then readLine raw fuel true
        else if c = '\n' then return ([], true)
        else
          let (rest, ended) ← readLine raw fuel false
          return (⟨c, false⟩ :: rest, ended)

def maxLine : Nat := 0x100000

structure Cut where
  wanted : Nat
  fields : List Octets := []
  field : Octets := []
  blank : Bool := false
  stop : Option Nat := none

namespace Cut

def keep (k : Cut) (c : Char) : Cut := { k with field := c :: k.field, blank := false }

def last (separators : Octets) (k : Cut) (c : Char) : Cut :=
  let separates := separators.contains c
  if separates ∧ defaultSeparators.contains c then
    { k with stop := some (k.stop.getD k.field.length), field := c :: k.field }
  else
    { k with stop := if separates ∧ k.blank then k.stop else none, field := c :: k.field, blank := false }

def step (separators : Octets) (k : Cut) (r : Read) : Cut :=
  let c := r.char
  let separates := separators.contains c
  let blank := separates && defaultSeparators.contains c
  if r.escaped then k.keep c
  else if k.wanted = 0 then k.last separators c
  else if k.blank then
    if blank then k else if separates then { k with blank := false } else k.keep c
  else if !separates then k.keep c
  else if blank ∧ k.field.isEmpty then k
  else if k.wanted = 1 then
    { k with wanted := 0, stop := some k.field.length, field := c :: k.field, blank }
  else { k with wanted := k.wanted - 1, fields := k.field.reverse :: k.fields, field := [], blank }

def finish (k : Cut) : List Octets :=
  let field := match k.stop with
    | some n => k.field.reverse.take n
    | none => k.field.reverse
  (if field.isEmpty then k.fields else field :: k.fields).reverse

end Cut

def read (i : Invocation) : Sh Nat := do
  let (given, names) ← options "p:r" i.args
  if names.isEmpty then Sh.fail "arg count".toList
  let raw := given.any fun g => g.letter == 'r'
  let (line, ended) ← readLine raw maxLine false
  let separators ← Sh.separators
  let k := line.foldl (Cut.step separators) { wanted := names.length }
  let fields := k.finish
  names.zipIdx.forM fun (name, n) => Sh.setVariable name (fields[n]?.getD [])
  return if ended then 0 else 1

end Inlay.Program.Shell.Builtin

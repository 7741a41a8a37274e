import Inlay.Program.Shell.State

namespace Inlay.Program.Shell.Signal

def greatest : Nat := 64

def names : List String :=
  "EXIT" :: signalNames ++ ["32", "33", "RTMIN"] ++ (List.range 15).map (fun n => "RTMIN+" ++ toString (n + 1)) ++
    (List.range 14).map (fun n => "RTMAX-" ++ toString (14 - n)) ++ ["RTMAX"]

def nameOf (n : Nat) : Octets := ((names[n]?).getD "").toList

def ofText? (least : Nat) (o : Octets) : Option Nat :=
  match Octets.nat? o with
  | some n => if n ≤ greatest then some n else none
  | none =>
    (List.range (greatest + 1)).find? fun n =>
      decide (least ≤ n) && (nameOf n).map Char.toUpper == o.map Char.toUpper

def description? (n : Nat) : Option String :=
  match n with
  | 2 | 13 => none
  | 1 => some "Hangup"
  | 3 => some "Quit"
  | 4 => some "Illegal instruction"
  | 5 => some "Trace/breakpoint trap"
  | 6 => some "Aborted"
  | 7 => some "Bus error"
  | 8 => some "Floating point exception"
  | 9 => some "Killed"
  | 10 => some "User defined signal 1"
  | 11 => some "Segmentation fault"
  | 12 => some "User defined signal 2"
  | 14 => some "Alarm clock"
  | 15 => some "Terminated"
  | 16 => some "Stack fault"
  | 24 => some "CPU time limit exceeded"
  | 25 => some "File size limit exceeded"
  | 26 => some "Virtual timer expired"
  | 27 => some "Profiling timer expired"
  | 29 => some "I/O possible"
  | 30 => some "Power failure"
  | 31 => some "Bad system call"
  | n => some ("Real-time signal " ++ toString (n - 34))

def isHarmless (n : Nat) : Bool := [0, 17, 18, 19, 20, 21, 22, 23, 28].contains n

def isCertain (n : Nat) : Bool := n == 9 || n == 19

def arrive (n : Nat) : Sh Unit := do
  let s ← get
  if isHarmless n ∧ (s.traps.get? n).isNone then return
  match if isCertain n then none else s.traps.get? n with
  | some [] => return
  | some _ => set { s with pending := if s.pending.contains n then s.pending else s.pending ++ [n] }
  | none =>
    if !isCertain n ∧ (← Sh.process).ignored.contains n then return
    throw (.gone (.signalled n))

def receive : Sh Unit := do
  if (← get).isPart then return
  let p ← Sh.process
  let (mine, others) := p.signals.partition fun s => s.1 == p.identifier
  if mine.isEmpty then return
  Sh.act (set { p with signals := others })
  mine.forM fun s => arrive s.2

def report (s : Status) : Sh Unit := do
  match s with
  | .signalled n _ =>
    match description? n with
    | some text => Sh.complain (text.toList ++ ['\n'])
    | none => return
  | .exited _ => return

end Inlay.Program.Shell.Signal

import Inlay.Disk.Sibling

namespace Inlay

namespace Program

inductive Status
  | exited (code : Nat)
  | signalled (signal : Nat) (dumped : Bool := false)
  deriving DecidableEq, Repr

def signalNames : List String :=
  ["HUP", "INT", "QUIT", "ILL", "TRAP", "ABRT", "BUS", "FPE", "KILL", "USR1", "SEGV", "USR2", "PIPE",
    "ALRM", "TERM", "STKFLT", "CHLD", "CONT", "STOP", "TSTP", "TTIN", "TTOU", "URG", "XCPU", "XFSZ",
    "VTALRM", "PROF", "WINCH", "IO", "PWR", "SYS"]

def signalName? (signal : Nat) : Option String := if signal = 0 then none else signalNames[signal - 1]?

namespace Status

def success : Status := .exited 0

def isSuccess (s : Status) : Bool := s == .success

def message : Status → String
  | .exited code => "exit status: " ++ toString code
  | .signalled signal dumped =>
    let name := match signalName? signal with
      | some name => " (SIG" ++ name ++ ")"
      | none => ""
    "signal: " ++ toString signal ++ name ++ if dumped then " (core dumped)" else ""

def code : Status → Nat
  | .exited code => code
  | .signalled signal _ => 128 + signal

end Status

structure Outcome where
  stdout : Bytes := []
  stderr : Bytes := []
  status : Status := .success
  deriving DecidableEq, Repr

/-- Why a program that was asked for has no outcome. -/
inductive Fault
  | spawn (cause : IoError)
  | io (cause : IoError)
  deriving DecidableEq, Repr

end Program

abbrev Variables := Table String String

/-- Runs a program with its arguments and its input. The disk may change, even if there is no outcome. -/
abbrev Launcher := Variables → (program : String) → (args : List String) → (stdin : Bytes) →
  ExceptT Program.Fault (StateM Disk) Program.Outcome

abbrev Position := Bytes → Nat × Nat

/-- What is found around the program beside the disk. -/
structure Environment where
  vars : Variables
  accountHome : Option Path
  launch : Launcher
  surroundings : Path → Disk.Surroundings
  position : Position

end Inlay

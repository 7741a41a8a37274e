import Inlay.Disk.Create
import Inlay.Environment
import Inlay.Program.Octets

namespace Inlay.Program

inductive Channel
  | file (l : Location)
  | orphan (n : Nat)
  | directory (l : Location)
  | device (kind : Device)
  | pipe (n : Nat)
  deriving DecidableEq, Repr

/-- An open file. Descriptors that stand for the same one share its offset. -/
structure Stream where
  channel : Channel
  reads : Bool
  writes : Bool
  appends : Bool := false
  offset : Nat := 0
  deriving DecidableEq, Repr

/-- What has been written into a pipe and not been read yet, the latest part of it in reverse. -/
structure Pipe where
  early : Octets := []
  late : List Octets := []
  deriving DecidableEq, Repr

namespace Pipe

def waiting (p : Pipe) : Octets := p.early ++ p.late.reverse.flatten

def push (p : Pipe) (o : Octets) : Pipe := { p with late := o :: p.late }

end Pipe

structure Process where
  disk : Disk
  streams : Array Stream := #[]
  pipes : Array Pipe := #[]
  orphans : Array Bytes := #[]
  descriptors : Table Nat Nat := .empty
  environment : Table String Octets := .empty
  mask : Nat := 0o022
  ignored : List Nat := []
  identifier : Nat := 100
  signals : List (Nat × Nat) := []

abbrev Act := StateM Process

namespace Process

def resume (parent child : Process) : Process :=
  { parent with
    disk := { child.disk with workingDirectory := parent.disk.workingDirectory }
    streams := child.streams
    pipes := child.pipes
    orphans := child.orphans
    signals := child.signals }

def addStream (s : Stream) : Act Nat :=
  modifyGet fun p => (p.streams.size, { p with streams := p.streams.push s })

def addPipe (content : Octets) : Act Nat :=
  modifyGet fun p => (p.pipes.size, { p with pipes := p.pipes.push ⟨content, []⟩ })

def attach (descriptor stream : Nat) : Act Unit :=
  modify fun p => { p with descriptors := p.descriptors.insert descriptor stream }

def detach (descriptor : Nat) : Act Unit :=
  modify fun p => { p with descriptors := p.descriptors.filter (· ≠ descriptor) }

def stream (descriptor : Nat) : Act (Except IoError Nat) := do
  match (← get).descriptors.get? descriptor with
  | some n => return .ok n
  | none => return .error .badDescriptor

def pipeContent (n : Nat) : Act Octets := do
  return ((← get).pipes[n]?.getD {}).waiting

def content (p : Process) : Channel → Bytes
  | .file l => (p.disk.content? l).getD []
  | .orphan n => p.orphans[n]?.getD []
  | .device kind => kind.content
  | .directory _ | .pipe _ => []

def setContent (p : Process) (c : Channel) (content : Bytes) : Process :=
  match c with
  | .file l => { p with disk := p.disk.setContent l content }
  | .orphan n => { p with orphans := p.orphans.set! n content }
  | .directory _ | .device _ | .pipe _ => p

def pullWith (n : Nat) (count : Octets → Nat) : Act (Except IoError Octets) := do
  let p ← get
  match p.streams[n]? with
  | none => return .error .badDescriptor
  | some s =>
    if !s.reads then return .error .badDescriptor
    else
      match s.channel with
      | .directory _ => return .error .isDirectory
      | .device kind =>
        let o := Octets.ofBytes kind.content
        return .ok (o.take (count o))
      | .pipe k =>
        let waiting := (p.pipes[k]?.getD {}).waiting
        let o := waiting.take (count waiting)
        set { p with pipes := p.pipes.set! k ⟨waiting.drop o.length, []⟩ }
        return .ok o
      | c =>
        let o := Octets.ofBytes ((p.content c).drop s.offset)
        let o := o.take (count o)
        set { p with streams := p.streams.set! n { s with offset := s.offset + o.length } }
        return .ok o

def pull (n : Nat) (limit : Option Nat) : Act (Except IoError Octets) :=
  pullWith n fun o => limit.getD o.length

def pullThrough (n : Nat) (mark : Char) : Act (Except IoError Octets) :=
  pullWith n fun o => (o.takeWhile (· ≠ mark)).length + 1

def overwrite (content : Bytes) (offset : Nat) (new : Bytes) : Bytes :=
  content.take offset ++ List.replicate (offset - content.length) 0 ++ new ++
    content.drop (offset + new.length)

def push (n : Nat) (o : Octets) : Act (Except IoError Unit) := do
  let p ← get
  match p.streams[n]? with
  | none => return .error .badDescriptor
  | some s =>
    if !s.writes then return .error .badDescriptor
    else
      match s.channel with
      | .directory _ => return .error .isDirectory
      | .device kind => return if kind = .full ∧ !o.isEmpty then .error .noSpace else .ok ()
      | .pipe k =>
        set { p with pipes := p.pipes.modify k (·.push o) }
        return .ok ()
      | c =>
        let old := p.content c
        let offset := if s.appends then old.length else s.offset
        let p := p.setContent c (overwrite old offset (Octets.toBytes o))
        set { p with streams := p.streams.set! n { s with offset := offset + o.length } }
        return .ok ()

def rewind (n count : Nat) : Act Unit :=
  modify fun p =>
    match p.streams[n]? with
    | some s => { p with streams := p.streams.set! n { s with offset := s.offset - count } }
    | none => p

def isPipe (n : Nat) : Act Bool := do
  match (← get).streams[n]? with
  | some ⟨.pipe _, _, _, _, _⟩ => return true
  | _ => return false

def put (descriptor : Nat) (o : Octets) : Act (Except IoError Unit) := do
  match ← stream descriptor with
  | .ok n => push n o
  | .error e => return .error e

inductive Access
  | read
  | write
  | append
  | create
  | update
  deriving DecidableEq, Repr

namespace Access

def reads (a : Access) : Bool := a == .read || a == .update

def writes (a : Access) : Bool := a != .read

def truncates (a : Access) : Bool := a == .write

end Access

def descriptorDirectories : List Octets := ["/dev/fd/".toList, "/proc/self/fd/".toList]

def descriptorOf? (path : Octets) : Option Nat :=
  match String.ofList path with
  | "/dev/stdin" => some 0
  | "/dev/stdout" => some 1
  | "/dev/stderr" => some 2
  | _ => do
    let directory ← descriptorDirectories.find? (·.isPrefixOf path)
    Octets.nat? (path.drop directory.length)

def reopen (p : Process) (c : Channel) (a : Access) : Process × Stream :=
  let s : Stream := ⟨c, a.reads, a.writes, a == .append, 0⟩
  (if a.truncates then p.setContent c [] else p, s)

def channelAt (d : Disk) (l : Location) : Channel :=
  match d.entry? l with
  | some (.directory _) => .directory l
  | some (.device kind) => .device kind
  | _ => .file l

def channelOf (p : Process) (path : Octets) (a : Access) : Except IoError (Process × Channel) := do
  let name := Octets.toBytes path
  if !a.writes then
    let l ← p.disk.locate name
    if p.disk.grantsAt .read l then .ok (p, channelAt p.disk l) else .error .notPermitted
  else
    let l ← p.disk.writable name
    match p.disk.entry? l with
    | some (.directory _) => .error .isDirectory
    | some (.device kind) => .ok (p, .device kind)
    | some e =>
      if a = .create then .error .alreadyThere
      else if p.disk.grants .write e then .ok (p, .file l)
      else .error .notPermitted
    | none =>
      let all := Entry.deviceMode
      if p.disk.grantsAt .write l.dropLast then
        .ok ({ p with disk := p.disk.put l (.file (all - (all &&& p.mask)) []) }, .file l)
      else .error .notPermitted

def openPath (path : Octets) (a : Access) : Act (Except IoError Nat) := do
  let p ← get
  match descriptorOf? path with
  | some descriptor =>
    match (p.descriptors.get? descriptor).bind fun n => p.streams[n]? with
    | none => return .error .noEntry
    | some s =>
      let (p, s) := p.reopen s.channel a
      set p
      return .ok (← addStream s)
  | none =>
    match p.channelOf path a with
    | .error e => return .error e
    | .ok (p, c) =>
      let (p, s) := p.reopen c a
      set p
      return .ok (← addStream s)

inductive Kind
  | file (mode size : Nat)
  | directory (mode : Nat)
  | device
  | pipe
  deriving DecidableEq, Repr

def kindOf (p : Process) : Channel → Kind
  | .file l =>
    match p.disk.entry? l with
    | some (.file mode content) => .file mode content.length
    | _ => .file 0 0
  | .orphan n => .file Entry.defaultFileMode (p.orphans[n]?.getD []).length
  | .directory l =>
    match p.disk.entry? l with
    | some (.directory mode) => .directory mode
    | _ => .directory Entry.defaultDirectoryMode
  | .device _ => .device
  | .pipe _ => .pipe

def inspect (p : Process) (path : Octets) : Except IoError Kind :=
  match descriptorOf? path with
  | some descriptor =>
    match (p.descriptors.get? descriptor).bind fun n => p.streams[n]? with
    | none => .error .noEntry
    | some s => .ok (p.kindOf s.channel)
  | none => do
    let l ← p.disk.locate (Octets.toBytes path)
    .ok (p.kindOf (channelAt p.disk l))

def replaceAt (p : Process) (l : Location) (e : Entry) : Process :=
  let orphaned : Stream → Stream := fun s =>
    if s.channel = .file l then { s with channel := .orphan p.orphans.size } else s
  { p with
    disk := p.disk.put l e
    streams := p.streams.map orphaned
    orphans := p.orphans.push ((p.disk.content? l).getD []) }

end Process

end Inlay.Program

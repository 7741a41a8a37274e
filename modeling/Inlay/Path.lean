import Inlay.Text.Utf8

namespace Inlay

/-- Bytes that name something in a tree. They need not be text. -/
abbrev Path := Bytes

instance : Coe String Path := ⟨Text.encode⟩

namespace Path

def slash : UInt8 := 0x2F

def dot : UInt8 := 0x2E

def here : Path := [dot]

def above : Path := [dot, dot]

def isAbsolute (path : Path) : Bool := path.head? == some slash

def endsInSlash (path : Path) : Bool := path.getLast? == some slash

def splitSlash : Path → List Path
  | [] => [[]]
  | b :: bs =>
    if b = slash then [] :: splitSlash bs
    else
      match splitSlash bs with
      | [] => [[b]]
      | word :: words => (b :: word) :: words

/-- The names on a path, without the empty ones that repeated slashes leave. -/
def names (path : Path) : List Path := (splitSlash path).filter (!·.isEmpty)

/-- The steps of following a path. A slash at the end asks for a directory, which is a step with an empty name. -/
def steps (path : Path) : List Path := names path ++ if endsInSlash path then [[]] else []

/-- What a path says, however it is written: a slash for the root first, and "." only in first place
of a relative path. -/
def components (path : Path) : List Path :=
  if isAbsolute path then [slash] :: (names path).filter (· != here)
  else
    match names path with
    | [] => []
    | name :: rest => name :: rest.filter (· != here)

/-- An absolute second path replaces the first; an empty one leaves a slash at the end. -/
def join (base path : Path) : Path :=
  if isAbsolute path then path
  else if base.isEmpty || endsInSlash base then base ++ path
  else base ++ slash :: path

def fileName? (path : Path) : Option Path :=
  ((names path).filter (· != here)).getLast?.filter (· != above)

/-- What follows the last dot of a name; a dot in first place starts no extension. -/
def extensionOf? (name : Path) : Option Path :=
  let tail := name.reverse.takeWhile (· != dot)
  let stem := name.reverse.drop (tail.length + 1)
  if stem.isEmpty then none else some tail.reverse

def extension? (path : Path) : Option Path := (fileName? path).bind extensionOf?

/-- A name that is not text is not hidden, whatever it starts with. -/
def isHidden (name : Path) : Bool := (Text.decode? name).any fun text => text.toList.head? == some '.'

def display (path : Path) : String := String.ofList (Text.decodeLossy path)

end Path

end Inlay

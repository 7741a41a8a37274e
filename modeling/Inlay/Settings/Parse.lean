import Inlay.Settings.Descriptor

namespace Inlay.Settings

open Json

inductive Field
  | dsl
  | packages
  | packageRoots
  | fusionPath
  | fileExtension
  deriving DecidableEq, Repr

namespace Field

def name : Field → String
  | .dsl => "dsl"
  | .packages => "packages"
  | .packageRoots => "package_roots"
  | .fusionPath => "fusion_path"
  | .fileExtension => "file_extension"

def all : List Field := [.dsl, .packages, .packageRoots, .fusionPath, .fileExtension]

def ofName? (s : String) : Option Field := all.find? (·.name == s)

theorem ofName?_name (f : Field) : ofName? f.name = some f := by cases f <;> decide

end Field

structure Draft where
  dsl : Option (Table String Descriptor) := none
  packages : Option (Table String String) := none
  packageRoots : Option (List String) := none
  fusionPath : Option String := none
  fileExtension : Option String := none

namespace Draft

def has (d : Draft) : Field → Bool
  | .dsl => d.dsl.isSome
  | .packages => d.packages.isSome
  | .packageRoots => d.packageRoots.isSome
  | .fusionPath => d.fusionPath.isSome
  | .fileExtension => d.fileExtension.isSome

def settings (d : Draft) : Settings where
  dsl := d.dsl.getD ({} : Settings).dsl
  packages := d.packages.getD ({} : Settings).packages
  packageRoots := d.packageRoots.getD ({} : Settings).packageRoots
  fusionPath := d.fusionPath.getD ({} : Settings).fusionPath
  fileExtension := d.fileExtension.getD ({} : Settings).fileExtension

end Draft

def entriesOf {α : Type} (read : Node → Read α) : Members → Read (List (String × α))
  | .closed => .ok []
  | .broken b => .error (.json b.read)
  | .cons key value tail => do
    let name ← ofJson key.text
    let a ← read value
    let rest ← entriesOf read tail
    .ok ((name, a) :: rest)

/-- Of entries with the same key the last one counts. -/
def tableAt {α : Type} (read : Node → Read α) : Node → Read (Table String α)
  | .object members => do .ok (.ofList (← entriesOf read members))
  | n => mismatch "a map" n

def pathAt (n : Node) : Read String := textAt "path string" n

def pathsOf : Items → Read (List String)
  | .closed => .ok []
  | .broken b => .error (.json b.read)
  | .cons head tail => do
    let path ← pathAt head
    let rest ← pathsOf tail
    .ok (path :: rest)

def pathsAt : Node → Read (List String)
  | .array items => pathsOf items
  | n => mismatch "a sequence" n

/-- How deep a descriptor may nest, as it stands two levels below the root. -/
def descriptorDepth : Nat := maxDepth - 2

def Draft.read (d : Draft) (n : Node) : Field → Read Draft
  | .dsl => do .ok { d with dsl := some (← tableAt (descriptorAt descriptorDepth) n) }
  | .packages => do .ok { d with packages := some (← tableAt pathAt n) }
  | .packageRoots => do .ok { d with packageRoots := some (← pathsAt n) }
  | .fusionPath => do .ok { d with fusionPath := some (← pathAt n) }
  | .fileExtension => do .ok { d with fileExtension := some (← textAt "a string" n) }

def draftOfMembers (d : Draft) : Members → Read Draft
  | .closed => .ok d
  | .broken b => .error (.json b.read)
  | .cons key value tail => do
    let name ← ofJson key.text
    match Field.ofName? name with
    | none =>
      ofJson value.skip
      draftOfMembers d tail
    | some f =>
      if d.has f then .error (.duplicateField name)
      else draftOfMembers (← d.read value f) tail

def checkClosed : Items → Read Unit
  | .closed => .ok ()
  | .broken (.fault .arrayEnds) => .error (.json .arrayEnds)
  | .broken .arrayTrailingComma => .error (.json .trailingComma)
  | .broken _ | .cons .. => .error (.json .trailingCharacters)

def draftOfItems (d : Draft) : List Field → Items → Read Draft
  | [], items => do
    checkClosed items
    .ok d
  | _ :: _, .closed => .ok d
  | _ :: _, .broken b => .error (.json b.read)
  | f :: fs, .cons head tail => do draftOfItems (← d.read head f) fs tail

def settingsAt : Node → Read Settings
  | .object members => do .ok (← draftOfMembers {} members).settings
  | .array items => do .ok (← draftOfItems {} Field.all items).settings
  | n => mismatch "struct DslSettings" n

def parse (text : Bytes) : Read Settings := do
  let document := Json.parse text
  let s ← settingsAt document.root
  if document.hasTrailing then .error (.json .trailingCharacters) else .ok s

end Inlay.Settings

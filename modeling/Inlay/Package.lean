import Inlay.Error

namespace Inlay

/-- Where packages are looked for: the paths of some by their key, then the roots in their order. -/
structure Packages where
  paths : Table String Path
  roots : List Path
  fusionPath : Path
  deriving DecidableEq

namespace Packages

def ofSettings (s : Settings) : Packages :=
  ⟨s.packages.map Text.encode, s.packageRoots.map Text.encode, Text.encode s.fusionPath⟩

/-- The first directory named like the key, one or two levels below a root. -/
def search? (p : Packages) (d : Disk) (key : String) : Option Path :=
  ((p.roots.filter d.isDirectory).flatMap (d.directoriesNamed (Text.encode key))).head?

def configured? (p : Packages) (d : Disk) (key : String) : Option Path :=
  (p.paths.get? key).filter d.isDirectory

def path? (p : Packages) (d : Disk) (key : String) : Option Path :=
  match p.configured? d key with
  | some path => some path
  | none => p.search? d key

def fusionDirectory (p : Packages) (d : Disk) (key : String) : Except Error Path :=
  match p.path? d key with
  | none => .error (.packageNotFound key)
  | some path =>
    let directory := Path.join path p.fusionPath
    if d.isDirectory directory then .ok directory else .error (.fusionDirectoryMissing directory)

end Packages

def listFiles (d : Disk) (directory : Path) (extension : String) : Except Error (List Path) :=
  match d.files directory extension with
  | .ok files => .ok files
  | .error fault => .error (.readFailure (fault.path?.getD directory) (.walk fault))

def persist (s : Disk.Surroundings) (path : Path) (content : String) : ExceptT Error (StateM Disk) Unit :=
  (s.replace path (Text.encode content)).adapt (.writeFailure path)

end Inlay

import Inlay.Path
import Inlay.Table
import Inlay.Template

namespace Inlay

/-- How the code bodies of one identifier are expanded. -/
inductive Descriptor
  | template (template : String) (escape : Escape)
  | command (program : String) (args : List String) (trimTrailingNewline : Bool)
  deriving DecidableEq, Repr

structure Settings where
  dsl : Table String Descriptor := .empty
  packages : Table String String := .empty
  packageRoots : List String := ["Packages"]
  fusionPath : String := "Resources/Private/Fusion"
  fileExtension : String := "fusion"
  deriving DecidableEq, Inhabited

namespace Settings

def same (s t : Settings) : Bool :=
  let components (path : String) := Path.components path
  s.dsl == t.dsl && s.packages.map components == t.packages.map components &&
    s.packageRoots.map components == t.packageRoots.map components &&
    components s.fusionPath == components t.fusionPath && s.fileExtension == t.fileExtension

end Settings

end Inlay

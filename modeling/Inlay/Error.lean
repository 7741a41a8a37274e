import Inlay.Disk.Listing
import Inlay.Transpiler

namespace Inlay

/-- Why a file of a run or its listing cannot be read. -/
inductive ReadError
  | io (cause : IoError)
  | walk (fault : WalkError)
  | notUtf8
  deriving DecidableEq, Repr

def ReadError.message : ReadError → String
  | .io cause => cause.message
  | .walk fault => fault.message
  | .notUtf8 => "not valid UTF-8, Fusion files must be UTF-8 encoded"

inductive Error
  | unknownIdentifier (identifier : String)
  | invalidTargetSelection
  | packageNotFound (key : String)
  | fusionDirectoryMissing (path : Path)
  | fileNotFound (path : Path)
  | confirmationDeclined (identifier : String)
  | readFailure (path : Path) (cause : ReadError)
  | writeFailure (path : Path) (cause : IoError)
  | transpileFailure (identifier : String) (reason : TranspileError)
  | invalidIdentifier (identifier : String)
  | settings (text : String)
  | internal (text : String)
  deriving DecidableEq, Repr

def Error.message : Error → String
  | .unknownIdentifier identifier => "No Fusion-DSL with identifier \"" ++ identifier ++ "\" was found"
  | .invalidTargetSelection => "You have to specify either a packageKey or a fusionFile"
  | .packageNotFound key => "Package " ++ key ++ " is not available"
  | .fusionDirectoryMissing path => "Fusion path " ++ path.display ++ " is not found"
  | .fileNotFound path => "File " ++ path.display ++ " is not available"
  | .confirmationDeclined identifier => "Ejecting Fusion-DSL \"" ++ identifier ++ "\" was not confirmed"
  | .readFailure path cause => "Failed to read " ++ path.display ++ ": " ++ cause.message
  | .writeFailure path cause => "Failed to write " ++ path.display ++ ": " ++ cause.message
  | .transpileFailure identifier reason =>
    "Failed to transpile " ++ identifier ++ "`...`: " ++ reason.message
  | .invalidIdentifier identifier =>
    "Invalid Fusion-DSL identifier \"" ++ identifier ++ "\", expected [a-zA-Z0-9.]+"
  | .settings text => "Settings error: " ++ text
  | .internal text => "Internal error: " ++ text

end Inlay

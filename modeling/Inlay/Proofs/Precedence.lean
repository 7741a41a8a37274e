import Inlay.Proofs.Invocation
import Inlay.Proofs.Mirror

namespace Inlay

variable {part : Location → Bool} {d d' : Disk} {path : Path}

namespace Settings

variable {env : Environment} {explicit source : Option Path} {mode : Nat} {content : Bytes}

/-! ### Where settings may be -/

end Settings

namespace CommandLine

variable {env : Environment} {v : Invocation} {arguments : List String} {stdin : Bytes}

def Dotenv.Avoids (d : Disk) (part : Location → Bool) : Prop := ∀ l ∈ ancestors d.workingDirectory, d.Misses part (Dotenv.path l)

end CommandLine

namespace CommandLine

end CommandLine

end Inlay

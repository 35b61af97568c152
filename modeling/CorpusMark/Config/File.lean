import CorpusMark.Config.Toml
import CorpusMark.Files.Access

/-!
# Configuration files
-/

namespace CorpusMark

variable {m : Type → Type} [Monad m]

/-- Reads a configuration file. -/
def Config.ofFile (files : FileReading m) (path : String) : m (Except ConfigError Config) := do
  match ← files.text path with
  | .error fault => return .error (.unreadable path fault.message)
  | .ok text => return Config.ofToml text

end CorpusMark

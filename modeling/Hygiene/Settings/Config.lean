import Hygiene.Layout.Printer

/-!
# Configuration

What a configuration file settles: how generated code is printed. Every setting has a default, and
an empty file settles nothing.
-/

namespace Hygiene

structure Config where
  render : Layout := {}
  deriving DecidableEq

/-- The file that configuration is read from unless another one is named. -/
def Config.defaultFile : String := "hygen.toml"

end Hygiene

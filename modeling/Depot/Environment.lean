import Depot.Text.Blank
import Depot.Text.Lower

/-!
This module contains environments: the variables that a program is started with.
-/

namespace Depot

abbrev Environment := List (String × String)

namespace Environment

/-- The text of a variable; empty if it is not set. -/
def get (env : Environment) (key : String) : String :=
  (env.lookup key).getD ""

/-- What a text says about a flag, if it says anything. -/
def readFlag? (text : String) : Option Bool :=
  let word := Text.lower (Text.strip text)
  if ["1", "true", "yes", "on"].contains word then some true
  else if ["0", "false", "no", "off"].contains word then some false
  else none

/-- The flag in a variable, or `default` if the variable does not tell. -/
def flag (env : Environment) (key : String) (default : Bool) : Bool :=
  (readFlag? (env.get key)).getD default

/-- The text of a variable without the blanks around it, or `default` if that is empty. -/
def word (env : Environment) (key default : String) : String :=
  let text := Text.strip (env.get key)
  if text = "" then default else text

end Environment

end Depot

import Runbook.EnvFile.Reference
import Runbook.EnvFile.Statement

/-!
# The values of an env file

Bindings take effect in order: a value may refer to the bindings before it and to the environment,
and the last binding of a key decides. A key that ends up without a value is no value but a
complaint. Keys are listed in the order in which they are first bound.
-/

namespace Runbook.EnvFile

/-- The bindings with all references replaced. `earlier` holds the bindings before them, the latest
first. -/
def expandAll (environment : Keyed String) (earlier : List (String × Option String)) :
    List (String × Option String) → List (String × Option String)
  | [] => []
  | (key, written?) :: rest =>
    let value? := written?.map (expand environment earlier)
    (key, value?) :: expandAll environment ((key, value?) :: earlier) rest

/-- What the keys of a text end up with. -/
def resolvedBindings (environment : Keyed String) (text : String) : Keyed (Option String) :=
  Keyed.ofPairs (expandAll environment [] (bindings text))

/-- What an env file says. -/
structure Contents where
  /-- The values of the keys that have one. -/
  values : Keyed String
  /-- The keys that end up without a value. -/
  bareKeys : List String
  /-- The lines of the statements that cannot be read. -/
  malformed : List Nat
deriving DecidableEq, Repr

namespace Contents

/-- Reads an env file in the given environment. -/
def ofText (environment : Keyed String) (text : String) : Contents :=
  let resolved := resolvedBindings environment text
  { values := resolved.filterMap fun e ↦ e.2.map (e.1, ·)
    bareKeys := resolved.filterMap fun e ↦ if e.2.isNone then some e.1 else none
    malformed := malformedLines text }

/-- The messages about statements that cannot be read, in order. -/
def complaints (c : Contents) : List String :=
  c.malformed.map fun line ↦
    "python-dotenv could not parse statement starting at line " ++ toString line

/-- The messages about keys without a value, for the file called `source`. -/
def warnings (c : Contents) (source : String) : List String :=
  c.bareKeys.map fun key ↦
    "Skipping malformed line in " ++ source ++ ": " ++ key ++ " has no value"

end Contents

end Runbook.EnvFile

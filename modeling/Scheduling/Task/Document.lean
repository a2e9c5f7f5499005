import Scheduling.Json.Variant
import Scheduling.Task
/-!
# States as documents

The JSON form of the state of a task is its name.
-/

namespace Scheduling.State

def json (s : State) : Json := .string s.name

def read : Json.Reader State := Json.readVariant (all.map fun s => (s.name, s))

/-- Reads a state from a whole text, or tells why it cannot be read. -/
def parse (text : String) : Except String State := Json.readAll read text

end Scheduling.State

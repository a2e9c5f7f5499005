import Scheduling.Json.Record
/-!
# Reading variants

A variant is read from its name, or from an object with the name as its only key and `null` for its
value.
-/

namespace Scheduling.Json

/-- Looks a variant up by the name that was read in front of `rest`. -/
def variantNamed {α : Type} (variants : List (String × α)) (name : String) (rest : List Char) :
    Except Failure α :=
  match variants.lookup name with
  | some a => .ok a
  | none => .error (.here (.unknownVariant name (variants.map (·.1))) rest)

def readVariant {α : Type} (variants : List (String × α)) (s : List Char) :
    Except Failure (α × List Char) :=
  match skipBlanks s with
  | [] => .error (.here .endInValue [])
  | '"' :: rest => do
    let (name, rest) ← readTextFrom [] rest
    return (← variantNamed variants name rest, rest)
  | '{' :: rest => do
    let (name, rest) ← readText "variant identifier" rest
    let a ← variantNamed variants name rest
    let (_, rest) ← readNull (← readColon rest)
    match skipBlanks rest with
    | '}' :: rest => return (a, rest)
    | [] => .error (.here .endInObject [])
    | rest => .error (.here .expectedValue rest)
  | rest => .error (.next .expectedValue rest)

end Scheduling.Json

import Scheduling.Json.Record
import Scheduling.Options
/-!
# Policies as documents

The JSON form of the policies of an executor. Durations are whole milliseconds; a policy that is
off is left out.
-/

namespace Scheduling

/-- A duration in a document: its whole milliseconds. -/
def Duration.json (d : Duration) : Json := .integer d.storedMillis

def Duration.read (s : List Char) : Except Json.Failure (Duration × List Char) :=
  (Json.readNat .long s).map fun (n, rest) => (Duration.ofMillis n, rest)

namespace RetryPolicy

def json (p : RetryPolicy) : Json :=
  .object [("attempts", .integer p.attempts), ("delay_ms", p.delay.json)]

def schema : Json.Schema RetryPolicy :=
  ⟨"RetryPolicy",
    [⟨"attempts", true, fun p s =>
        (Json.readNat .short s).map fun (n, rest) => ({ p with attempts := n }, rest)⟩,
      ⟨"delay_ms", true, fun p s =>
        (Duration.read s).map fun (d, rest) => ({ p with delay := d }, rest)⟩]⟩

def read : Json.Reader RetryPolicy := schema.read ⟨0, Duration.zero⟩

/-- Reads a retry policy from a whole text, or tells why it cannot be read. -/
def parse (text : String) : Except String RetryPolicy := Json.readAll read text

end RetryPolicy

namespace ExecutorOptions

/-- A member of a document that is left out if there is no value. -/
def optionalMember {α : Type} (name : String) (json : α → Json) (value : Option α) :
    List (String × Json) :=
  (value.map fun a => (name, json a)).toList

/-- The document of the policies. -/
def json (o : ExecutorOptions) : Json :=
  .object
    (optionalMember "timeout_ms" Duration.json o.timeout
      ++ optionalMember "retry" RetryPolicy.json o.retry
      ++ optionalMember "cooldown_ms" Duration.json o.cooldown
      ++ [("once", .bool o.once)])

/-- The fields of the policies. -/
def schema : Json.Schema ExecutorOptions :=
  ⟨"ExecutorOptions",
    [⟨"timeout_ms", false, fun o s =>
        (Json.readOption Duration.read s).map fun (d, rest) => ({ o with timeout := d }, rest)⟩,
      ⟨"retry", false, fun o s =>
        (Json.readOption RetryPolicy.read s).map fun (p, rest) => ({ o with retry := p }, rest)⟩,
      ⟨"cooldown_ms", false, fun o s =>
        (Json.readOption Duration.read s).map fun (d, rest) => ({ o with cooldown := d }, rest)⟩,
      ⟨"once", false, fun o s =>
        (Json.readBool s).map fun (b, rest) => ({ o with once := b }, rest)⟩]⟩

/-- Reads policies; those that are not given are off. -/
def read : Json.Reader ExecutorOptions := schema.read {}

/-- Reads policies from a whole text, or tells why they cannot be read. -/
def parse (text : String) : Except String ExecutorOptions := Json.readAll read text

end ExecutorOptions

end Scheduling

import Scheduling.Decimal.Shortest
import Scheduling.Json.Printer
import Scheduling.Text.Quoted
/-!
# Faults of documents

Why a JSON text or value cannot be read as something, and where in the text. A reader works on the
characters that are left; it tells the place of a fault by those, and the line and column are
counted only when the fault is reported.
-/

namespace Scheduling.Json

/-- What stands in a document where something else was expected. -/
inductive Found
  | null
  | bool (value : Bool)
  | integer (value : Int)
  | float (bits : UInt64)
  | text (value : String)
  | sequence
  | map
deriving DecidableEq, Repr

def Found.describe : Found → String
  | null => "null"
  | bool value => "boolean `" ++ toString value ++ "`"
  | integer value => "integer `" ++ toString value ++ "`"
  | float bits => "floating point `" ++ numberStyle.text bits ++ "`"
  | text value => "string " ++ Text.quote value
  | sequence => "sequence"
  | map => "map"

/-- Why a document cannot be read. -/
inductive Fault
  | endInList
  | endInObject
  | endInString
  | endInValue
  | expectedColon
  | expectedCommaOrBracket
  | expectedCommaOrBrace
  /-- One of the words `null`, `true` and `false` was begun and not finished. -/
  | brokenWord
  | expectedValue
  | badEscape
  | badNumber
  | numberOutOfRange
  | controlCharacter
  | keyNotString
  | loneSurrogate
  | unpairedSurrogate
  | trailingComma
  | trailingCharacters
  | wrongType (found : Found) (expected : String)
  | wrongValue (found : Found) (expected : String)
  | wrongLength (length : Nat) (expected : String)
  | missingField (name : String)
  | duplicateField (name : String)
  | unknownVariant (name : String) (known : List String)
deriving DecidableEq, Repr

/-- Names between back quotes, with commas between them. -/
def listNames (names : List String) : String :=
  ", ".intercalate (names.map fun name => "`" ++ name ++ "`")

/-- The text that is shown for a fault. -/
def Fault.message : Fault → String
  | endInList => "EOF while parsing a list"
  | endInObject => "EOF while parsing an object"
  | endInString => "EOF while parsing a string"
  | endInValue => "EOF while parsing a value"
  | expectedColon => "expected `:`"
  | expectedCommaOrBracket => "expected `,` or `]`"
  | expectedCommaOrBrace => "expected `,` or `\x7d`"
  | brokenWord => "expected ident"
  | expectedValue => "expected value"
  | badEscape => "invalid escape"
  | badNumber => "invalid number"
  | numberOutOfRange => "number out of range"
  | controlCharacter => "control character (\\u0000-\\u001F) found while parsing a string"
  | keyNotString => "key must be a string"
  | loneSurrogate => "lone leading surrogate in hex escape"
  | unpairedSurrogate => "unexpected end of hex escape"
  | trailingComma => "trailing comma"
  | trailingCharacters => "trailing characters"
  | wrongType found expected => "invalid type: " ++ found.describe ++ ", expected " ++ expected
  | wrongValue found expected => "invalid value: " ++ found.describe ++ ", expected " ++ expected
  | wrongLength length expected => "invalid length " ++ toString length ++ ", expected " ++ expected
  | missingField name => "missing field `" ++ name ++ "`"
  | duplicateField name => "duplicate field `" ++ name ++ "`"
  | unknownVariant name known =>
    "unknown variant `" ++ name ++ "`, expected one of " ++ listNames known

/-- A fault with its place: some bytes beyond the point at which these characters are left. -/
structure Failure where
  fault : Fault
  left : List Char
  ahead : Nat
deriving DecidableEq, Repr

namespace Failure

def here (fault : Fault) (left : List Char) : Failure := ⟨fault, left, 0⟩

def next (fault : Fault) (left : List Char) : Failure := ⟨fault, left, 1⟩

end Failure

/-- A place in a text: the line, counted from 1, and the number of bytes before it on that line. -/
structure Position where
  line : Nat
  column : Nat
deriving DecidableEq, Repr

/-- The place behind the first bytes of a text, at most those that there are. -/
def Position.after (p : Position) : Nat → List Char → Position
  | _, [] => p
  | bytes, c :: rest =>
    if c.utf8Size ≤ bytes then
      Position.after (if c = '\n' then ⟨p.line + 1, 0⟩ else ⟨p.line, p.column + c.utf8Size⟩)
        (bytes - c.utf8Size) rest
    else ⟨p.line, p.column + bytes⟩

def byteCount (s : List Char) : Nat := s.foldl (fun bytes c => bytes + c.utf8Size) 0

/-- The place of a fault in the text in which it occurred. -/
def Failure.position (f : Failure) (text : List Char) : Position :=
  Position.after ⟨1, 0⟩ (byteCount text - byteCount f.left + f.ahead) text

def Failure.message (f : Failure) (text : List Char) : String :=
  let p := f.position text
  f.fault.message ++ " at line " ++ toString p.line ++ " column " ++ toString p.column

end Scheduling.Json

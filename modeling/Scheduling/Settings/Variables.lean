import Scheduling.Registry
import Scheduling.Text.Blank
import Scheduling.Text.Letter
/-!
# Variable files

A file of variables holds assignments, one a line. A value may be quoted, span lines within quotes,
and refer to variables that are set. Reading stops at the first line that is no assignment; what
came before counts. A variable that is set keeps its value.
-/

namespace Scheduling.Variables

/-! ## Lines -/

/-- Where a character stands in a file. -/
inductive LineState
  | plain
  /-- Behind a blank, where a comment may begin. -/
  | blank
  /-- Behind a backslash. -/
  | escaped
  | single
  | singleEscaped
  | double
  | doubleEscaped
  | comment
deriving DecidableEq, Repr

/-- The state behind a character that is neither quoted nor escaped. -/
def LineState.afterPlain (c : Char) (other : LineState) : LineState :=
  if c = '\\' then .escaped
  else if c = '"' then .double
  else if c = '\'' then .single
  else other

/-- The state behind a character. -/
def LineState.next (state : LineState) (c : Char) : LineState :=
  match state with
  | plain =>
    if Text.isBlank c && c ≠ '\n' && c ≠ '\r' then .blank else afterPlain c .plain
  | blank => if c = '#' then .comment else afterPlain c .plain
  | escaped => .plain
  | single => if c = '\\' then .singleEscaped else if c = '\'' then .plain else .single
  | singleEscaped => .single
  | double => if c = '\\' then .doubleEscaped else if c = '"' then .plain else .double
  | doubleEscaped => .double
  | comment => .comment

def scan (state : LineState) : List Char → LineState × List Char
  | [] => (state, [])
  | c :: rest =>
    match state.next c with
    | .comment => (.comment, [])
    | next =>
      let (last, kept) := scan next rest
      (last, c :: kept)

/-- The lines of a file, each with its line feed. -/
def splitLines : List Char → List (List Char)
  | [] => []
  | c :: rest =>
    if c = '\n' then [c] :: splitLines rest
    else
      match splitLines rest with
      | [] => [[c]]
      | line :: lines => (c :: line) :: lines

/-- Drops the line feed at the end of a line, and a carriage return before it. -/
def dropLineEnd (line : List Char) : List Char :=
  match line.reverse with
  | '\n' :: '\r' :: rest => rest.reverse
  | '\n' :: rest => rest.reverse
  | _ => line

/-- Joins the lines that belong together because of quotes, and drops comments; `before` was read
and its quotes are open. The last one is `none` if the file ends too early. -/
def joinLines (state : LineState) (before : List Char) :
    List (List Char) → List (Option (List Char))
  | [] => if state = .plain then [] else [none]
  | line :: lines =>
    if ((before ++ line).dropWhile Text.isBlank).head? = some '#' then
      some [] :: joinLines .plain [] lines
    else
      match scan state line with
      | (.plain, kept) => some (dropLineEnd (before ++ kept)) :: joinLines .plain [] lines
      | (.comment, kept) => some (before ++ kept) :: joinLines .plain [] lines
      | (state, kept) => joinLines state (before ++ kept) lines

/-! ## Values -/

/-- Where a character stands in a value. -/
inductive ValueState
  | bare
  | double
  | single
  | escaped (quoted : Bool)
  | name (quoted braced : Bool) (name : List Char)
  /-- Behind the value. -/
  | past
  | comment
deriving DecidableEq, Repr

/-- The state outside of names, between double quotes or not. -/
def ValueState.outside (quoted : Bool) : ValueState := if quoted then .double else .bare

/-- The value of a variable; one that is not set is empty. -/
def valueOf (set : Registry String String) (name : List Char) : List Char :=
  ((set.get? (String.ofList name)).getD "").toList

/-- The state behind a character and what it adds to the value; `none` if it may not stand
there. -/
def ValueState.next (set : Registry String String) (state : ValueState) (c : Char) :
    Option (ValueState × List Char) :=
  match state with
  | bare =>
    if c = '$' then some (.name false false [], [])
    else if c = '\'' then some (.single, [])
    else if c = '"' then some (.double, [])
    else if c = '\\' then some (.escaped false, [])
    else if c = ' ' ∨ c = '\t' then some (.past, [])
    else some (.bare, [c])
  | double =>
    if c = '$' then some (.name true false [], [])
    else if c = '"' then some (.bare, [])
    else if c = '\\' then some (.escaped true, [])
    else some (.double, [c])
  | single => if c = '\'' then some (.bare, []) else some (.single, [c])
  | escaped quoted =>
    if c ∈ ['\\', '\'', '"', '$', ' '] then some (outside quoted, [c])
    else if c = 'n' then some (outside quoted, ['\n'])
    else none
  | name quoted braced sofar =>
    if Text.isLetter c then some (.name quoted braced (sofar ++ [c]), [])
    else if braced then
      if c = '}' then some (outside quoted, valueOf set sofar)
      else some (.name quoted true (sofar ++ [c]), [])
    else if c = '{' ∧ sofar = [] then some (.name quoted true [], [])
    else if c = '$' then some (.name quoted false [], valueOf set sofar)
    else some (outside quoted, valueOf set sofar ++ [c])
  | past =>
    if c = ' ' ∨ c = '\t' then some (.past, [])
    else if c = '#' then some (.comment, [])
    else none
  | comment => some (.comment, [])

/-- What is still added where a value ends; `none` if it may not end there. -/
def ValueState.finish? (set : Registry String String) : ValueState → Option (List Char)
  | bare | escaped false | past | comment => some []
  | name false false sofar => some (valueOf set sofar)
  | _ => none

def readValue (set : Registry String String) (state : ValueState) :
    List Char → Option (List Char)
  | [] => state.finish? set
  | c :: rest => do
    let (state, added) ← state.next set c
    return added ++ (← readValue set state rest)

/-! ## Assignments -/

def isNameStart (c : Char) : Bool := c.isAlpha || c = '_'

def isNamePart (c : Char) : Bool := c.isAlphanum || c = '_' || c = '.'

def readName (s : List Char) : Option (List Char × List Char) :=
  match s with
  | [] => none
  | c :: _ =>
    if isNameStart c then
      some (s.takeWhile isNamePart, (s.dropWhile isNamePart).dropWhile Text.isBlank)
    else none

def readEquals : List Char → Option (List Char)
  | '=' :: rest => some (rest.dropWhile Text.isBlank)
  | _ => none

/-- Reads the name of an assignment up to its value; the word `export` may stand in front. -/
def readTarget (s : List Char) : Option (List Char × List Char) := do
  let (name, rest) ← readName s
  if name = "export".toList then
    match readEquals rest with
    | some rest => return (name, rest)
    | none =>
      let (name, rest) ← readName rest
      return (name, ← readEquals rest)
  else return (name, ← readEquals rest)

/-- Whether nothing but a comment stands here. -/
def isVoid (s : List Char) : Bool := s = [] || s.head? = some '#'

/-- Carries out the assignment of a line, if there is one; `none` if the line is no assignment. -/
def assign (set : Registry String String) (line : List Char) : Option (Registry String String) :=
  let line := Text.trim line
  if isVoid line then some set
  else do
    let (name, rest) ← readTarget line
    let value ← if isVoid rest then some [] else readValue set .bare rest
    let name := String.ofList name
    return if set.contains name then set else set.insert name (String.ofList value)

/-- Carries out the assignments of lines up to the first that is none. -/
def assignAll (set : Registry String String) : List (Option (List Char)) → Registry String String
  | some line :: lines =>
    match assign set line with
    | some set => assignAll set lines
    | none => set
  | _ => set

/-- The variables that are set after reading a file. -/
def load (set : Registry String String) (file : String) : Registry String String :=
  let text := match file.toList with
    | '\ufeff' :: rest => rest
    | text => text
  assignAll set (joinLines .plain [] (splitLines text))

end Scheduling.Variables

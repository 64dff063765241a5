import Entitlement.Environment.Settings
import Entitlement.Text.Alphanumeric

/-!
Variables from a file of lines `NAME=value`. A line may begin with `export`; `#` opens a comment;
values may be quoted, strongly or weakly, escaped, and refer to variables that are set. Names that
are set hold ASCII characters; a reference goes on over letters and digits of any script. A variable
keeps the value it has, and reading stops at the first line that is not well formed. No variable can
be set to a value with a NUL character in it.
-/

namespace Entitlement.Environment.VariableFile

open Text

def isNameStart (c : Char) : Bool :=
  c.isAlpha || c = '_'

def isNamePart (c : Char) : Bool :=
  c.isAlphanum || c = '_' || c = '.'

/-- Takes a variable name off the front. -/
def takeName (cs : List Char) : Option (String × List Char) :=
  match cs with
  | [] => none
  | c :: _ =>
    if isNameStart c then
      some (String.ofList (cs.takeWhile isNamePart), cs.dropWhile isNamePart)
    else none

def takeEquals : List Char → Option (List Char)
  | '=' :: rest => some rest
  | _ => none

/-- Where in a value the next character stands. Behind a dollar sign a name is gathered backwards;
`weak` tells whether that is inside weak quotes. -/
inductive Mode where
  | plain
  | strong
  | weak
  | escaped (weak : Bool)
  | reference (weak : Bool) (name : List Char)
  | braced (weak : Bool) (name : List Char)
  /-- Behind the value, where only a comment may follow. -/
  | ended
deriving DecidableEq

def Mode.outside (weak : Bool) : Mode :=
  if weak then .weak else .plain

/-- The character a backslash and another one stand for. -/
def escape : Char → Option Char
  | '\\' => some '\\'
  | '\x27' => some '\x27'
  | '"' => some '"'
  | '$' => some '$'
  | ' ' => some ' '
  | 'n' => some '\n'
  | _ => none

/-- The value of the variable whose name is given backwards, itself backwards; nothing if it is not
set. -/
def referred (environment : Environment) (name : List Char) : List Char :=
  ((environment.value? (String.ofList name.reverse)).getD "").toList.reverse

/-- Reads a value on from a character; `out` is what it holds so far, backwards. The character that
ends a reference without braces stands for itself. -/
def readValue (environment : Environment) (mode : Mode) (out : List Char) :
    List Char → Option String
  | [] =>
    match mode with
    | .plain | .ended | .escaped false => some (String.ofList out.reverse)
    | .reference false name => some (String.ofList (referred environment name ++ out).reverse)
    | _ => none
  | c :: rest =>
    match mode with
    | .ended =>
      if c = ' ' || c = '\t' then readValue environment .ended out rest
      else if c = '#' then some (String.ofList out.reverse)
      else none
    | .escaped weak =>
      match escape c with
      | some c => readValue environment (.outside weak) (c :: out) rest
      | none => none
    | .strong =>
      if c = '\x27' then readValue environment .plain out rest
      else readValue environment .strong (c :: out) rest
    | .reference weak name =>
      if isAlphanumeric c then readValue environment (.reference weak (c :: name)) out rest
      else if c = '\x7b' && name.isEmpty then readValue environment (.braced weak []) out rest
      else if c = '$' then
        readValue environment (.reference weak []) (referred environment name ++ out) rest
      else
        readValue environment (.outside weak) (c :: referred environment name ++ out) rest
    | .braced weak name =>
      if c = '\x7d' then
        readValue environment (.outside weak) (referred environment name ++ out) rest
      else readValue environment (.braced weak (c :: name)) out rest
    | .weak =>
      if c = '$' then readValue environment (.reference true []) out rest
      else if c = '"' then readValue environment .plain out rest
      else if c = '\\' then readValue environment (.escaped true) out rest
      else readValue environment .weak (c :: out) rest
    | .plain =>
      if c = '$' then readValue environment (.reference false []) out rest
      else if c = '\x27' then readValue environment .strong out rest
      else if c = '"' then readValue environment .weak out rest
      else if c = '\\' then readValue environment (.escaped false) out rest
      else if c = ' ' || c = '\t' then readValue environment .ended out rest
      else readValue environment .plain (c :: out) rest

/-- Takes a name and an equals sign off the front. -/
def takeAssignment (cs : List Char) : Option (String × List Char) := do
  let (name, rest) ← takeName cs
  return (name, ← takeEquals (dropBlanks rest))

/-- The same, where the name may stand behind the word `export`. -/
def takeExport (cs : List Char) : Option (String × List Char) :=
  match takeAssignment cs, takeName cs with
  | some assignment, _ => some assignment
  | none, some ("export", rest) => takeAssignment (dropBlanks rest)
  | none, _ => none

/-- A line that sets nothing, or the variable it sets; `none` if it is not well formed. -/
def readLine (environment : Environment) (line : List Char) : Option (Option (String × String)) :=
  let line := dropBlanks (dropBlanksEnd line)
  if line.isEmpty || line.head? = some '#' then some none
  else do
    let (name, rest) ← takeExport line
    let rest := dropBlanks rest
    if rest.isEmpty || rest.head? = some '#' then return some (name, "")
    else return some (name, ← readValue environment .plain [] rest)

/-- Adds the variables of lines to an environment, as far as the lines are well formed; `none` if
one of them cannot be set. -/
def addLines? (environment : Environment) : List (List Char) → Option Environment
  | [] => some environment
  | line :: rest =>
    match readLine environment line with
    | none => some environment
    | some none => addLines? environment rest
    | some (some (name, value)) =>
      if (environment.value? name).isSome then addLines? environment rest
      else if value.contains '\x00' then none
      else addLines? (environment ++ [(name, value)]) rest

/-- The same for a file. -/
def addFile? (environment : Environment) (text : String) : Option Environment :=
  addLines? environment ((text.splitOn "\n").map String.toList)

end Entitlement.Environment.VariableFile

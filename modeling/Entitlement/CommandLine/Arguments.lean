import Entitlement.Absence.Record
import Entitlement.Calendar.DateText

/-!
The arguments of a scan on the command line. An option takes what is attached to it or the next
argument, and an argument that begins with a dash is never taken. Each option stands at most once. A
request for help counts if nothing before it is wrong.
-/

namespace Entitlement.CommandLine

structure Arguments where
  rules : String
  ledger : String
  person : PersonId
  start : Date
  troublesCsv : Option String
  periodsCsv : Option String
  output : Option String
  json : Bool

/-- Why arguments do not lead to a scan. -/
inductive Stop where
  | help
  | usage
deriving DecidableEq

/-- The options that take a value. -/
inductive Key where
  | rules
  | ledger
  | person
  | start
  | troublesCsv
  | periodsCsv
  | output
deriving DecidableEq

def Key.ofLong? : String → Option Key
  | "rules" => some .rules
  | "ledger" => some .ledger
  | "person" => some .person
  | "from" => some .start
  | "troubles-csv" => some .troublesCsv
  | "periods-csv" => some .periodsCsv
  | "output" => some .output
  | _ => none

def Key.ofShort? : Char → Option Key
  | 'r' => some .rules
  | 'l' => some .ledger
  | 'p' => some .person
  | 'f' => some .start
  | 'o' => some .output
  | _ => none

/-- The options given so far. -/
structure Given where
  values : List (Key × String)
  json : Bool

/-- A number of 64 bits, with or without a plus sign. -/
def number? (text : String) : Option Nat :=
  let digits := match text.toList with
    | '+' :: rest => rest
    | cs => cs
  if digits.isEmpty || !digits.all Char.isDigit then none
  else
    let n := Text.digitsValue digits
    if n < UInt64.size then some n else none

/-- Whether an option accepts a value: a number, a date, or a path that is not empty. -/
def Key.accepts (key : Key) (value : String) : Bool :=
  match key with
  | .person => (number? value).isSome
  | .start => (Date.ofText? value).isSome
  | _ => value ≠ ""

namespace Given

def value? (given : Given) (key : Key) : Option String :=
  given.values.lookup key

def add (given : Given) (key : Key) (value : String) : Except Stop Given :=
  if (given.value? key).isNone && key.accepts value then
    return { given with values := (key, value) :: given.values }
  else throw .usage

/-- The arguments, if all that are needed were given. -/
def complete (given : Given) : Except Stop Arguments :=
  let arguments? := do
    let person ← given.value? .person
    let start ← given.value? .start
    return { rules := ← given.value? .rules
             ledger := ← given.value? .ledger
             person := ← number? person
             start := ← Date.ofText? start
             troublesCsv := given.value? .troublesCsv
             periodsCsv := given.value? .periodsCsv
             output := given.value? .output
             json := given.json : Arguments }
  match arguments? with
  | some arguments => return arguments
  | none => throw .usage

end Given

/-- What one argument says. -/
inductive Token where
  | help
  | json
  | attached (key : Key) (value : String)
  | separate (key : Key)
  | other

def longToken (name : List Char) : Token :=
  let text := String.ofList (name.takeWhile (· ≠ '='))
  match name.dropWhile (· ≠ '=') with
  | _ :: value =>
    match Key.ofLong? text with
    | some key => .attached key (String.ofList value)
    | none => .other
  | [] =>
    if text = "help" then .help
    else if text = "json" then .json
    else match Key.ofLong? text with
      | some key => .separate key
      | none => .other

def shortToken (c : Char) (rest : List Char) : Token :=
  if c = 'h' then .help
  else match Key.ofShort? c, rest with
    | some key, [] => .separate key
    | some key, '=' :: value => .attached key (String.ofList value)
    | some key, value => .attached key (String.ofList value)
    | none, _ => .other

def token (argument : String) : Token :=
  match argument.toList with
  | '-' :: '-' :: name => longToken name
  | '-' :: c :: rest => shortToken c rest
  | _ => .other

/-- An argument that can only be an option, never the value of one. -/
def isOption (argument : String) : Bool :=
  match argument.toList with
  | '-' :: _ :: _ => true
  | _ => false

/-- Reads arguments in turn. Behind two dashes nothing may follow. -/
def read (given : Given) : List String → Except Stop Given
  | [] => return given
  | argument :: rest =>
    if argument = "--" then (if rest.isEmpty then return given else throw .usage)
    else match token argument with
      | .help => throw .help
      | .json => if given.json then throw .usage else read { given with json := true } rest
      | .attached key value => do read (← given.add key value) rest
      | .separate key =>
        match rest with
        | [] => throw .usage
        | value :: rest =>
          if isOption value then throw .usage else do read (← given.add key value) rest
      | .other => throw .usage

def Arguments.parse (arguments : List String) : Except Stop Arguments := do
  (← read ⟨[], false⟩ arguments).complete

end Entitlement.CommandLine

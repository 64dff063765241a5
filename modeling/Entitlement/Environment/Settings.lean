import Entitlement.Scan.Settings
import Entitlement.Text.Blank

/-!
Scan settings from environment variables. Variables that begin with the mark `ABSENCE_` count;
behind the mark, letter case does not matter. Lists are separated by commas, and unset variables
leave the standard settings. An environment is handed on as lines `NAME=value`, and variables are
looked up in such lines.
-/

namespace Entitlement

open Text

/-- A reason to refuse settings. -/
inductive SettingsError where
  | duplicateVariable (field : String)
  | unknownPattern (name : String)
deriving DecidableEq

def SettingsError.message : SettingsError → String
  | duplicateVariable field =>
    "Environment configuration error: duplicate field `" ++ field ++ "`"
  | unknownPattern name => "Unknown category pattern: " ++ name

/-- The pattern a text names, blanks around it not counted. -/
def Pattern.ofText (text : String) : Except SettingsError Pattern :=
  match ofKey? (trim text) with
  | some pattern => return pattern
  | none => throw (.unknownPattern (trim text))

/-- The settings as texts, each of them present or not. -/
structure RawSettings where
  excludedPatterns : Option (List String)
  excludedCategories : Option (List String)
  logFilter : Option String
deriving DecidableEq

namespace RawSettings

def patterns : List String → Except SettingsError (List Pattern)
  | [] => return []
  | text :: rest => do
    if trim text = "" then patterns rest
    else
      let pattern ← Pattern.ofText text
      return pattern :: (← patterns rest)

/-- The standard settings, with the lists that are present in place of the standard ones. Blank
entries are dropped. -/
def toSettings (raw : RawSettings) : Except SettingsError ScanSettings := do
  let excludedPatterns ← match raw.excludedPatterns with
    | none => pure ScanSettings.standard.excludedPatterns
    | some texts => (patterns texts).map OrderedSet.ofList
  let excludedCategories := match raw.excludedCategories with
    | none => ScanSettings.standard.excludedCategories
    | some texts => .ofList ((texts.map trim).filter fun text => text ≠ "")
  return ⟨excludedPatterns, excludedCategories⟩

end RawSettings

/-- The variables of an environment with their values. -/
abbrev Environment := List (String × String)

namespace Environment

/-- The line `NAME=value` that a variable is handed on by. -/
def line (name value : String) : String :=
  name ++ "=" ++ value

/-- The variable that a line gives. A name has at least one character and ends before the next
equals sign. -/
def ofLine? (line : String) : Option (String × String) :=
  match line.toList with
  | [] => none
  | c :: rest =>
    match rest.dropWhile (· ≠ '=') with
    | [] => none
    | _ :: value => some (String.ofList (c :: rest.takeWhile (· ≠ '=')), String.ofList value)

def ofLines (lines : List String) : Environment :=
  lines.filterMap ofLine?

/-- The value of a variable: what stands behind the name and an equals sign in the first line that
begins with them. So a name with an equals sign in it finds a variable whose value begins with the
rest of that name. -/
def value? (environment : Environment) (name : String) : Option String :=
  if name = "" then none
  else environment.findSome? fun (key, value) =>
    ((line name "").toList.isPrefixOf? (line key value).toList).map String.ofList

/-- What marks the variables of this program. -/
def mark : List Char := "ABSENCE_".toList

theorem mark_length : mark.length = 8 := by decide

/-- Takes the mark off the front, as often as it is there. -/
def stripMark (name : List Char) : List Char :=
  if name.take mark.length = mark then stripMark (name.drop mark.length) else name
termination_by name.length
decreasing_by
  have taken := congrArg List.length ‹_›
  simp only [List.length_take, mark_length] at taken
  simp only [List.length_drop, mark_length]
  omega

/-- The name of a setting that a name of the environment stands for. -/
def settingName? (name : String) : Option String :=
  if name.toList.take mark.length = mark then
    some (String.ofList ((stripMark name.toList).map Char.toLower))
  else none

/-- The value given for a setting, if one variable gives it. -/
def setting? (environment : Environment) (name : String) :
    Except SettingsError (Option String) :=
  match environment.filter fun e => settingName? e.1 = some name with
  | [] => return none
  | [(_, value)] => return some value
  | _ => throw (.duplicateVariable name)

/-- The parts of a text between commas; an empty text has none. -/
def listValue (text : String) : List String :=
  if text = "" then [] else (text.splitOn ",").map trim

/-- The settings that the variables give. -/
def rawSettings (environment : Environment) : Except SettingsError RawSettings := do
  let patterns ← environment.setting? "excluded_patterns"
  let categories ← environment.setting? "excluded_categories"
  let filter ← environment.setting? "log_filter"
  return ⟨patterns.map listValue, categories.map listValue, filter⟩

def settings (environment : Environment) : Except SettingsError ScanSettings := do
  (← environment.rawSettings).toSettings

end Environment

end Entitlement

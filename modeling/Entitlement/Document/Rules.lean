import Entitlement.Document.Records
import Entitlement.Problem.Basic
import Entitlement.Rule.Tree
import Entitlement.Scan.Settings

/-!
Rules, scan settings and critical errors as JSON. The kind of a period is a field among the fields of
that kind, which have to be readable all of them before the kind is known.
-/

namespace Entitlement

open Text

namespace Document

instance : Readable Pattern := ⟨fun json => (variantName? json).bind Pattern.ofKey?⟩

instance : Writable Pattern := ⟨fun pattern => .str pattern.key⟩

mutual

/-- Whether a value and all values in it can be read. -/
def isReadable : Json → Bool
  | .unreadable => false
  | .arr items => areReadable items
  | .obj fields => areFieldsReadable fields
  | _ => true

def areReadable : List Json → Bool
  | [] => true
  | item :: rest => isReadable item && areReadable rest

def areFieldsReadable : List (FieldName × Json) → Bool
  | [] => true
  | (_, value) :: rest => isReadable value && areFieldsReadable rest

end

/-- Reads the fields that belong to a kind of period. An array has to hold all of them and no more. -/
def periodOfKind? (kind : String) (json : Json) : Option PeriodRule :=
  match kind with
  | "always" => (slots? [] json).map fun _ => .always
  | "year" => (slots? [] json).map fun _ => .year
  | "month" => (slots? [] json).map fun _ => .month
  | "previous_year" => do
    let [source, untilMonth] ← slots? ["source", "usable_until_month"] json | none
    return .previousYear (← source.required) (← untilMonth.bind (natBelow UInt32.size))
  | "child" => do
    let [ordinal, fromYears, toYears] ← slots? ["ordinal", "from_years", "to_years"] json | none
    return .child (← ordinal.required) (← fromYears.bind (natBelow UInt32.size))
      (← toYears.bind (natBelow UInt32.size))
  | _ => none

/-- Splits the kind off the fields of a period. -/
def tagged? : Json → Option (String × Json)
  | .obj fields =>
    match fields.filter fun f => f.1.text = "kind" with
    | [(_, .str kind)] => some (kind, .obj (fields.filter fun f => f.1.text ≠ "kind"))
    | _ => none
  | .arr (.str kind :: rest) => some (kind, .arr rest)
  | _ => none

instance : Readable PeriodRule where
  read? json :=
    if isReadable json then (tagged? json).bind fun (kind, rest) => periodOfKind? kind rest
    else none

instance : Writable PeriodRule where
  write
    | .always => .obj [("kind", .str "always")]
    | .year => .obj [("kind", .str "year")]
    | .month => .obj [("kind", .str "month")]
    | .previousYear source untilMonth => .obj [("kind", .str "previous_year"),
        ("source", write source), ("usable_until_month", write untilMonth)]
    | .child ordinal fromYears toYears => .obj [("kind", .str "child"),
        ("ordinal", write ordinal), ("from_years", write fromYears), ("to_years", write toYears)]

instance : Readable Takable where
  read? json := do
    let [unit, codes, limit] ← slots? ["amount_type", "taken_codes", "fixed_limit"] json | none
    return ⟨← unit.required, ← codes.required, ← limit.required⟩

instance : Writable Takable where
  write t := .obj [("amount_type", write t.unit), ("taken_codes", write t.codes),
    ("fixed_limit", write t.limit)]

instance : Readable ReplacingCode where
  read? json := do
    let [code, amount] ← slots? ["code", "amount"] json | none
    return ⟨← code.required, ← amount.required⟩

instance : Writable ReplacingCode where
  write r := .obj [("code", write r.code), ("amount", write r.amount)]

instance : Readable Completion where
  read? json := do
    let [unit, codes, replacing] ← slots?
      ["amount_type", "completion_codes", "replacing_codes"] json
      | none
    return ⟨← unit.required, ← codes.required, ← replacing.required⟩

instance : Writable Completion where
  write c := .obj [("amount_type", write c.unit), ("completion_codes", write c.codes),
    ("replacing_codes", write c.replacing)]

instance : Readable Category where
  read? json := do
    let [name, description, pattern, period, takable, completion, next, automatic, initializable] ←
      slots? ["name", "description", "pattern", "period", "takable", "completion", "next",
        "automatic", "initializable"] json
      | none
    return ⟨← name.required, ← description.withDefault "", ← pattern.required, ← period.required,
      ← takable.optional, ← completion.optional, ← next.optional, ← automatic.withDefault false,
      ← initializable.withDefault false⟩

instance : Writable Category where
  write c := .obj [("name", write c.name), ("description", write c.description),
    ("pattern", write c.pattern), ("period", write c.period), ("takable", write c.takable),
    ("completion", write c.completion), ("next", write c.next), ("automatic", write c.automatic),
    ("initializable", write c.initializable)]

instance : Readable CodeEntry where
  read? json := do
    let [code, description, kinds] ← slots? ["code", "description", "justified_kinds"] json | none
    return ⟨← code.required, ← description.withDefault "", ← kinds.required⟩

instance : Writable CodeEntry where
  write e := .obj [("code", write e.code), ("description", write e.description),
    ("justified_kinds", write e.kinds)]

/-- A rule tree is read from the lists of its categories and codes. -/
instance : Readable RuleTree where
  read? json := do
    let [categories, codes] ← slots? ["categories", "codes"] json | none
    return .ofLists (← categories.required) (← codes.withDefault [])

instance : Readable ScanSettings where
  read? json := do
    let [patterns, categories] ← slots? ["excluded_patterns", "excluded_categories"] json | none
    return ⟨← patterns.required, ← categories.required⟩

instance : Writable ScanSettings where
  write s := .obj [("excluded_patterns", write s.excludedPatterns),
    ("excluded_categories", write s.excludedCategories)]

/-- Reads the data of a fault from its name and its fields. -/
def faultOf? (name : String) (json : Json) : Option Fault :=
  match name with
  | "UnsupportedPattern" => do
    let [pattern] ← fieldSlots? ["pattern"] json | none
    return .unsupportedPattern (← pattern.required)
  | "MalformedRuleGraph" => do
    let [detail] ← fieldSlots? ["detail"] json | none
    return .malformedRules (.worded (← detail.required))
  | "IncalculableAmount" => do
    let [code, date] ← fieldSlots? ["code", "date"] json | none
    return .incalculableAmount (← code.required) (← date.required)
  | "ConflictingReplacingAmount" => do
    let [first, second, amount] ← fieldSlots? ["first", "second", "amount"] json | none
    return .conflictingAmounts (← first.required) (← second.required) (← amount.required)
  | "TwoPeriodsWhereOneExpected" => do
    let [date] ← fieldSlots? ["date"] json | none
    return .twoPeriods (← date.required)
  | _ => none

/-- A fault is an object of one field, which gives its data, an object of their own, to its name. -/
instance : Readable Fault where
  read?
    | .obj [(name, json)] => faultOf? name.text json
    | _ => none

instance : Writable Fault where
  write
    | .unsupportedPattern pattern =>
      .obj [("UnsupportedPattern", .obj [("pattern", write pattern)])]
    | .malformedRules defect =>
      .obj [("MalformedRuleGraph", .obj [("detail", write defect.message)])]
    | .incalculableAmount code date =>
      .obj [("IncalculableAmount", .obj [("code", write code), ("date", write date)])]
    | .conflictingAmounts first second amount =>
      .obj [("ConflictingReplacingAmount", .obj [("first", write first), ("second", write second),
        ("amount", write amount)])]
    | .twoPeriods date => .obj [("TwoPeriodsWhereOneExpected", .obj [("date", write date)])]

instance : Readable CriticalError where
  read? json := do
    let [category, date, absence, fault] ← slots? ["category", "date", "absence", "problem"] json
      | none
    return ⟨← category.required, ← date.required, ← absence.optional, ← fault.required⟩

instance : Writable CriticalError where
  write e := .obj [("category", write e.category), ("date", write e.date),
    ("absence", write e.absence), ("problem", write e.fault)]

end Document

end Entitlement

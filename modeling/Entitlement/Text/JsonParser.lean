import Entitlement.Text.Json

/-!
Reading JSON. Each step takes something off the front of the text and shows that the rest is shorter,
which is why reading ends. The whole text must be one value with blanks around it. Numbers have to be
finite and brackets may nest 127 levels deep; what goes beyond is well formed but cannot be read.
-/

namespace Entitlement.Text.Json

/-- What is left of a text after something was taken off. -/
abbrev Shorter (s : List Char) := { r : List Char // r.length < s.length }

abbrev NotLonger (s : List Char) := { r : List Char // r.length ≤ s.length }

def isSpace (c : Char) : Bool :=
  c = ' ' || c = '\n' || c = '\t' || c = '\r'

def skipSpace (s : List Char) : NotLonger s :=
  ⟨s.dropWhile isSpace, (List.dropWhile_suffix _).length_le⟩

/-- The first character that is not a space, and what follows it. -/
def token? (s : List Char) : Option (Char × Shorter s) :=
  match skipSpace s with
  | ⟨[], _⟩ => none
  | ⟨c :: rest, fits⟩ => some (c, ⟨rest, fits⟩)

def hexValue (c : Char) : Option Nat :=
  if c.isDigit then some (c.toNat - 48)
  else if 'a' ≤ c && c ≤ 'f' then some (c.toNat - 87)
  else if 'A' ≤ c && c ≤ 'F' then some (c.toNat - 55)
  else none

/-- The number of four hexadecimal digits. -/
def hexQuad (a b c d : Char) : Option Nat := do
  return (((← hexValue a) * 16 + (← hexValue b)) * 16 + (← hexValue c)) * 16 + (← hexValue d)

def isHighSurrogate (n : Nat) : Bool := 0xD800 ≤ n && n < 0xDC00

def isLowSurrogate (n : Nat) : Bool := 0xDC00 ≤ n && n < 0xE000

def joinSurrogates (high low : Nat) : Char :=
  Char.ofNat (0x10000 + (high - 0xD800) * 0x400 + (low - 0xDC00))

/-- The character a backslash and one letter stand for. -/
def shortEscape : Char → Option Char
  | '"' => some '"'
  | '\\' => some '\\'
  | '/' => some '/'
  | 'b' => some (Char.ofNat 8)
  | 'f' => some (Char.ofNat 12)
  | 'n' => some '\n'
  | 'r' => some '\r'
  | 't' => some '\t'
  | _ => none

/-- The low surrogate escaped at the front of a text. -/
def lowSurrogate? : List Char → Option (Nat × List Char)
  | '\\' :: 'u' :: a :: b :: c :: d :: rest =>
    match hexQuad a b c d with
    | some n => if isLowSurrogate n then some (n, rest) else none
    | none => none
  | _ => none

theorem lowSurrogate?_length {s rest : List Char} {n : Nat} (h : lowSurrogate? s = some (n, rest)) :
    rest.length < s.length := by
  unfold lowSurrogate? at h
  split at h
  · split at h
    · split at h
      · simp only [Option.some.injEq, Prod.mk.injEq] at h
        simp only [List.length_cons, h.2]
        omega
      · exact absurd h (by simp)
    · exact absurd h (by simp)
  · exact absurd h (by simp)

/-- The rest of a string behind its opening quote; `none` for the value where half of a surrogate
pair stands alone. -/
def stringBody (read : List Char) (paired : Bool) (s : List Char) :
    Option (Option String × List Char) :=
  match s with
  | [] => none
  | '"' :: rest => some (if paired then some (String.ofList read.reverse) else none, rest)
  | '\\' :: 'u' :: a :: b :: c :: d :: rest =>
    match hexQuad a b c d with
    | none => none
    | some n =>
      if isHighSurrogate n then
        match _h : lowSurrogate? rest with
        | some (low, rest) => stringBody (joinSurrogates n low :: read) paired rest
        | none => stringBody read false rest
      else if isLowSurrogate n then stringBody read false rest
      else stringBody (Char.ofNat n :: read) paired rest
  | '\\' :: c :: rest =>
    match shortEscape c with
    | some c => stringBody (c :: read) paired rest
    | none => none
  | c :: rest => if c.toNat < 0x20 then none else stringBody (c :: read) paired rest
termination_by s.length
decreasing_by
  all_goals simp only [List.length_cons]
  · have shorter := lowSurrogate?_length ‹_›
    omega
  all_goals omega

theorem stringBody_length {read : List Char} {paired : Bool} {s rest : List Char}
    {value : Option String} (h : stringBody read paired s = some (value, rest)) :
    rest.length < s.length := by
  fun_induction stringBody read paired s with
  | case1 => exact absurd h (by simp)
  | case2 =>
      simp only [Option.some.injEq, Prod.mk.injEq] at h
      simp [h.2]
  | case3 => exact absurd h (by simp)
  | case4 _ _ _ _ _ _ _ _ _ _ _ _ found ih =>
      have := ih h
      have := lowSurrogate?_length found
      simp only [List.length_cons]
      omega
  | case9 => exact absurd h (by simp)
  | case10 => exact absurd h (by simp)
  | case5 | case6 | case7 | case8 | case11 =>
      rename_i ih
      have := ih h
      simp only [List.length_cons]
      omega

/-- One digit or more. -/
def digits (s : List Char) : Option (List Char × Shorter s) :=
  match h : s.takeWhile Char.isDigit with
  | [] => none
  | d :: ds => some (d :: ds, ⟨s.dropWhile Char.isDigit, by
      have parts := congrArg List.length (List.takeWhile_append_dropWhile (p := Char.isDigit) (l := s))
      simp only [List.length_append, h, List.length_cons] at parts
      omega⟩)

/-- The digits behind a point, if there is a point. -/
def fraction (s : List Char) : Option (Option (List Char) × NotLonger s) :=
  match s with
  | '.' :: rest =>
    match digits rest with
    | some (ds, ⟨r, h⟩) => some (some ds, ⟨r, by simp only [List.length_cons]; omega⟩)
    | none => none
  | s => some (none, ⟨s, Nat.le_refl _⟩)

/-- The sign of an exponent; tells whether it is a minus. -/
def exponentSign : (s : List Char) → Bool × NotLonger s
  | '+' :: rest => (false, ⟨rest, by simp⟩)
  | '-' :: rest => (true, ⟨rest, by simp⟩)
  | s => (false, ⟨s, Nat.le_refl _⟩)

private theorem exponent_rest {c : Char} {rest r r' : List Char} (h : r.length ≤ rest.length)
    (h' : r'.length < r.length) : r'.length ≤ (c :: rest).length := by
  rw [List.length_cons]
  omega

/-- The value of an exponent, if there is one. -/
def exponent (s : List Char) : Option (Option Int × NotLonger s) :=
  match s with
  | c :: rest =>
    if c = 'e' || c = 'E' then
      let (negative, ⟨r, h⟩) := exponentSign rest
      match digits r with
      | some (ds, ⟨r', h'⟩) =>
        let n : Int := digitsValue ds
        some (some (if negative then -n else n), ⟨r', exponent_rest h h'⟩)
      | none => none
    else some (none, ⟨c :: rest, Nat.le_refl _⟩)
  | [] => some (none, ⟨[], Nat.le_refl _⟩)

/-- A number without its sign. -/
def unsigned (negative : Bool) (s : List Char) : Option (Json × Shorter s) :=
  match digits s with
  | none => none
  | some (whole, ⟨r, h⟩) =>
    if 1 < whole.length && whole.head? = some '0' then none
    else
      match fraction r with
      | none => none
      | some (fractionDigits, ⟨r', h'⟩) =>
        match exponent r' with
        | none => none
        | some (power, ⟨r'', h''⟩) =>
          let n := digitsValue whole
          let numeral : Numeral := ⟨whole, fractionDigits.getD [], power.getD 0⟩
          let value :=
            if !numeral.isFinite then unreadable
            else if fractionDigits.isSome || power.isSome || (negative && n = 0) then
              decimal negative numeral
            else int (if negative then -n else n)
          some (value, ⟨r'', by omega⟩)

def number (s : List Char) : Option (Json × Shorter s) :=
  match s with
  | '-' :: rest =>
    match unsigned true rest with
    | some (v, ⟨r, h⟩) => some (v, ⟨r, by simp only [List.length_cons]; omega⟩)
    | none => none
  | s => unsigned false s

/-- A string behind its opening quote. -/
def string (s : List Char) : Option (Option String × Shorter s) :=
  match h : stringBody [] true s with
  | none => none
  | some (value, rest) => some (value, ⟨rest, stringBody_length h⟩)

/-- Whether the string behind an opening quote has an escape in it. -/
def hasEscape (s : List Char) : Bool :=
  (s.takeWhile fun c => c ≠ '"').contains '\\'

/-- How many levels deep the brackets of a text may nest. -/
def deepest : Nat := 127

/-- A value with brackets around it, if there is a level left for them. -/
def within (levels : Nat) (json : Json) : Json :=
  if levels = 0 then unreadable else json

mutual

/-- A value; brackets may nest in it up to a number of levels. -/
def value (levels : Nat) (s : List Char) : Option (Json × Shorter s) :=
  match s with
  | 'n' :: 'u' :: 'l' :: 'l' :: rest =>
    some (null, ⟨rest, by simp only [List.length_cons]; omega⟩)
  | 't' :: 'r' :: 'u' :: 'e' :: rest =>
    some (bool true, ⟨rest, by simp only [List.length_cons]; omega⟩)
  | 'f' :: 'a' :: 'l' :: 's' :: 'e' :: rest =>
    some (bool false, ⟨rest, by simp only [List.length_cons]; omega⟩)
  | '"' :: rest =>
    match string rest with
    | none => none
    | some (text, ⟨r, h⟩) =>
      some (text.elim unreadable str, ⟨r, by simp only [List.length_cons]; omega⟩)
  | '[' :: rest =>
    match token? rest with
    | some (']', ⟨r, h⟩) => some (within levels (arr []), ⟨r, by simp only [List.length_cons]; omega⟩)
    | _ =>
      match items (levels - 1) rest with
      | none => none
      | some (l, ⟨r, h⟩) => some (within levels (arr l), ⟨r, by simp only [List.length_cons]; omega⟩)
  | '\x7b' :: rest =>
    match token? rest with
    | some ('\x7d', ⟨r, h⟩) =>
      some (within levels (obj []), ⟨r, by simp only [List.length_cons]; omega⟩)
    | _ =>
      match fields (levels - 1) rest with
      | none => none
      | some (l, ⟨r, h⟩) =>
        some (within levels (l.elim unreadable obj), ⟨r, by simp only [List.length_cons]; omega⟩)
  | s => number s
termination_by (s.length, 0)
decreasing_by
  all_goals
    simp only [List.length_cons]
    exact Prod.Lex.left _ _ (by omega)

/-- The items of an array up to its closing bracket. -/
def items (levels : Nat) (s : List Char) : Option (List Json × Shorter s) :=
  let ⟨s', hs⟩ := skipSpace s
  match value levels s' with
  | none => none
  | some (v, ⟨r, h⟩) =>
    match token? r with
    | some (']', ⟨rest, hr⟩) => some ([v], ⟨rest, by omega⟩)
    | some (',', ⟨rest, hr⟩) =>
      match items levels rest with
      | none => none
      | some (l, ⟨r', h'⟩) => some (v :: l, ⟨r', by omega⟩)
    | _ => none
termination_by (s.length, 1)
decreasing_by
  · rcases Nat.lt_or_eq_of_le hs with lt | eq
    · exact Prod.Lex.left _ _ lt
    · rw [eq]
      exact Prod.Lex.right _ (by omega)
  · exact Prod.Lex.left _ _ (by omega)

/-- The fields of an object up to its closing bracket; `none` for them where a name cannot be read. -/
def fields (levels : Nat) (s : List Char) :
    Option (Option (List (FieldName × Json)) × Shorter s) :=
  match token? s with
  | some ('"', ⟨s', hs⟩) =>
    match string s' with
    | none => none
    | some (name, ⟨r, h⟩) =>
      match token? r with
      | some (':', ⟨r1, h1⟩) =>
        let ⟨r2, h2⟩ := skipSpace r1
        match value levels r2 with
        | none => none
        | some (v, ⟨r3, h3⟩) =>
          let name := name.map fun n => FieldName.mk n (hasEscape s')
          match token? r3 with
          | some ('\x7d', ⟨rest, h4⟩) => some (name.map fun n => [(n, v)], ⟨rest, by omega⟩)
          | some (',', ⟨rest, h4⟩) =>
            match fields levels rest with
            | none => none
            | some (l, ⟨r5, h5⟩) =>
              some (name.bind fun n => l.map fun l => (n, v) :: l, ⟨r5, by omega⟩)
          | _ => none
      | _ => none
  | _ => none
termination_by (s.length, 1)
decreasing_by
  all_goals exact Prod.Lex.left _ _ (by omega)

end

/-- The value a text holds, if it is one JSON value. -/
def parse? (text : String) : Option Json :=
  match value deepest (skipSpace text.toList).1 with
  | none => none
  | some (json, ⟨rest, _⟩) => if (skipSpace rest).1.isEmpty then some json else none

end Entitlement.Text.Json

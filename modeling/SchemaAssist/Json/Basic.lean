/-! # JSON values

Numbers are kept as written, so a whole number is told from the same quantity with a fraction or an
exponent. The fields of an object are kept in the order of the document, repeated names included.
-/
namespace SchemaAssist

/-- A JSON value. `garbled` stands for a string, or an object with a field name, that holds half of
a surrogate pair: its shape is sound but it denotes no text. -/
inductive Json where
  | null
  | bool (value : Bool)
  | num (written : String)
  | str (text : String)
  | arr (items : List Json)
  | obj (fields : List (String × Json))
  | garbled
  deriving Repr, Inhabited

namespace Json

def ofNat (n : Nat) : Json := .num (toString n)

def ofOption {α : Type} (encode : α → Json) : Option α → Json
  | none => .null
  | some a => encode a

def ofList {α : Type} (encode : α → Json) (items : List α) : Json := .arr (items.map encode)

def field? (name : String) : Json → Option Json
  | .obj fields => fields.lookup name
  | _ => none

def text? : Json → Option String
  | .str text => some text
  | _ => none

def bool? : Json → Option Bool
  | .bool b => some b
  | _ => none

def items? : Json → Option (List Json)
  | .arr items => some items
  | _ => none

/-- The number a run of digits writes in base ten. -/
def digitsValue (digits : List Char) : Nat :=
  digits.foldl (fun n c => 10 * n + (c.toNat - '0'.toNat)) 0

/-- A whole number written with digits only, below a limit. -/
def natBelow? (limit : Nat) : Json → Option Nat
  | .num written =>
    let digits := written.toList
    if digits.all Char.isDigit && decide (digitsValue digits < limit) then some (digitsValue digits)
    else none
  | _ => none

/-- `null` as absence, any other value by the decoder. -/
def optional? {α : Type} (decode : Json → Option α) : Json → Option (Option α)
  | .null => some none
  | v => (decode v).map some

/-- Sets a field, in place where the name is present. -/
def putField (name : String) (value : Json) : List (String × Json) → List (String × Json)
  | [] => [(name, value)]
  | (n, v) :: rest => if n = name then (name, value) :: rest else (n, v) :: putField name value rest

mutual

/-- The value with one field for each name, the last one given, at every level. -/
def distinct : Json → Json
  | .arr items => .arr (distinctItems items)
  | .obj fields => .obj (distinctFields [] fields)
  | v => v

def distinctItems : List Json → List Json
  | [] => []
  | v :: rest => distinct v :: distinctItems rest

/-- Adds fields to those collected so far. -/
def distinctFields (seen : List (String × Json)) : List (String × Json) → List (String × Json)
  | [] => seen
  | (name, v) :: rest => distinctFields (putField name (distinct v) seen) rest

end

end Json
end SchemaAssist

import SchemaAssist.Json.Basic
import SchemaAssist.Yaml.Basic

/-! # Records read from named fields

A record is given by fields of known names; other fields are passed over. A document format says
what its values are as text or as a truth value, everything else is common to the formats. JSON may
also give the values of a record as an array, in the order of its fields.
-/
namespace SchemaAssist

/-- What a format's values are as scalars; `none` is a value of another kind. -/
structure ScalarReader (α : Type) where
  text : α → Option String
  optionalText : α → Option (Option String)
  flag : α → Option Bool
  optionalFlag : α → Option (Option Bool)

def Json.scalars : ScalarReader Json where
  text := Json.text?
  optionalText := Json.optional? Json.text?
  flag := Json.bool?
  optionalFlag := Json.optional? Json.bool?

def Yaml.scalars : ScalarReader Yaml where
  text := Yaml.scalar?
  optionalText := Yaml.optional? Yaml.scalar?
  flag := Yaml.bool?
  optionalFlag := Yaml.optional? Yaml.bool?

namespace Record

/-- The value of a field, or the given one where the field is missing. -/
def fieldOr {α β : Type} (fields : List (String × α)) (name : String) (read : α → Option β)
    (missing : β) : Option β :=
  match fields.lookup name with
  | none => some missing
  | some v => read v

def field {α β : Type} (fields : List (String × α)) (name : String) (read : α → Option β) :
    Option β :=
  (fields.lookup name).bind read

def repeats {α : Type} (names : List String) (fields : List (String × α)) : Bool :=
  names.any fun name => decide (1 < (fields.filter fun f => f.1 = name).length)

/-- Fields of an object, or of an array that may leave out its last ones. -/
def ofLenient (names : List String) : Json → Option (List (String × Json))
  | .obj fields => some fields
  | .arr items => if items.length ≤ names.length then some (names.zip items) else none
  | _ => none

/-- Fields of an object, or of an array that has one value for each name. -/
def ofStrict (names : List String) : Json → Option (List (String × Json))
  | .obj fields => some fields
  | .arr items => if items.length = names.length then some (names.zip items) else none
  | _ => none

/-- The name of a choice, given as text or as an object with this one field, which is `null`. -/
def choice? : Json → Option String
  | .str name => some name
  | .obj [(name, .null)] => some name
  | _ => none

def member? {α : Type} (label : α → String) (all : List α) (v : Json) : Option α :=
  (choice? v).bind fun name => all.find? fun a => label a = name

end Record
end SchemaAssist

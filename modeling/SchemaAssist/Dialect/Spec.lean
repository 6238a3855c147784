import SchemaAssist.Record

/-! # Dialect descriptors

The form a dialect is handed around in: a name, and whatever differs from the standard. An absent
entry means the standard one.
-/
namespace SchemaAssist.Dialect

structure Spec where
  name : String
  /-- Words parted by blanks, as in the two lists below. -/
  keywords : Option String
  types : Option String
  builtin : Option String
  /-- A backslash in a string hides the character after it. -/
  backslashEscapes : Option Bool
  /-- `#` starts a line comment. -/
  hashComments : Option Bool
  /-- `//` starts a line comment. -/
  slashComments : Option Bool
  /-- `--` starts a line comment only before a space. -/
  spaceAfterDashes : Option Bool
  /-- `"..."` is a string, not an identifier. -/
  doubleQuotedStrings : Option Bool
  /-- `$$...$$` is a string. -/
  doubleDollarQuotedStrings : Option Bool
  /-- `0b1010` is a bit literal. -/
  unquotedBitLiterals : Option Bool
  /-- `b'...'` may hold any characters. -/
  treatBitsAsBytes : Option Bool
  /-- `_utf8'...'` and `N'...'` are strings. -/
  charSetCasts : Option Bool
  /-- `q'[...]'` is a string. -/
  plsqlQuotingMechanism : Option Bool
  operatorChars : Option String
  specialVar : Option String
  identifierQuotes : Option String
  deriving Repr, DecidableEq

namespace Spec

def named (name : String) : Spec where
  name := name
  keywords := none
  types := none
  builtin := none
  backslashEscapes := none
  hashComments := none
  slashComments := none
  spaceAfterDashes := none
  doubleQuotedStrings := none
  doubleDollarQuotedStrings := none
  unquotedBitLiterals := none
  treatBitsAsBytes := none
  charSetCasts := none
  plsqlQuotingMechanism := none
  operatorChars := none
  specialVar := none
  identifierQuotes := none

def fieldNames : List String :=
  ["name", "keywords", "types", "builtin", "backslashEscapes", "hashComments", "slashComments",
   "spaceAfterDashes", "doubleQuotedStrings", "doubleDollarQuotedStrings", "unquotedBitLiterals",
   "treatBitsAsBytes", "charSetCasts", "plsqlQuotingMechanism", "operatorChars", "specialVar",
   "identifierQuotes"]

def ofFields {α : Type} (read : ScalarReader α) (fields : List (String × α)) : Option Spec := do
  let text (name : String) := Record.fieldOr fields name read.optionalText none
  let flag (name : String) := Record.fieldOr fields name read.optionalFlag none
  return {
    name := ← Record.fieldOr fields "name" read.text ""
    keywords := ← text "keywords"
    types := ← text "types"
    builtin := ← text "builtin"
    backslashEscapes := ← flag "backslashEscapes"
    hashComments := ← flag "hashComments"
    slashComments := ← flag "slashComments"
    spaceAfterDashes := ← flag "spaceAfterDashes"
    doubleQuotedStrings := ← flag "doubleQuotedStrings"
    doubleDollarQuotedStrings := ← flag "doubleDollarQuotedStrings"
    unquotedBitLiterals := ← flag "unquotedBitLiterals"
    treatBitsAsBytes := ← flag "treatBitsAsBytes"
    charSetCasts := ← flag "charSetCasts"
    plsqlQuotingMechanism := ← flag "plsqlQuotingMechanism"
    operatorChars := ← text "operatorChars"
    specialVar := ← text "specialVar"
    identifierQuotes := ← text "identifierQuotes"
  }

/-- The fields by name, the name of the dialect first. -/
def toJson (s : Spec) : Json :=
  let text := Json.ofOption Json.str
  let flag := Json.ofOption Json.bool
  .obj
    [("name", .str s.name),
     ("keywords", text s.keywords),
     ("types", text s.types),
     ("builtin", text s.builtin),
     ("backslashEscapes", flag s.backslashEscapes),
     ("hashComments", flag s.hashComments),
     ("slashComments", flag s.slashComments),
     ("spaceAfterDashes", flag s.spaceAfterDashes),
     ("doubleQuotedStrings", flag s.doubleQuotedStrings),
     ("doubleDollarQuotedStrings", flag s.doubleDollarQuotedStrings),
     ("unquotedBitLiterals", flag s.unquotedBitLiterals),
     ("treatBitsAsBytes", flag s.treatBitsAsBytes),
     ("charSetCasts", flag s.charSetCasts),
     ("plsqlQuotingMechanism", flag s.plsqlQuotingMechanism),
     ("operatorChars", text s.operatorChars),
     ("specialVar", text s.specialVar),
     ("identifierQuotes", text s.identifierQuotes)]

def ofJson? (v : Json) : Option Spec := (Record.ofLenient fieldNames v).bind (ofFields Json.scalars)

def ofYaml? (v : Yaml) : Option Spec := do
  let fields ← v.fields?
  if Record.repeats fieldNames fields then none else ofFields Yaml.scalars fields

end Spec
end SchemaAssist.Dialect

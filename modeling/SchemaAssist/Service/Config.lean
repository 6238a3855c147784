import SchemaAssist.Text.Lowercase
import SchemaAssist.Text.Quoted
import SchemaAssist.Dialect.Builtin

/-! # Configuration

A configuration chooses a dialect, builtin or one of its own, and how suggestions are presented. A
valid one has custom dialects with names, no two of them equal without regard to case, and chooses
a dialect that exists.
-/
namespace SchemaAssist
open Dialect (Spec)

structure Config where
  /-- The chosen dialect. Custom dialects are looked at first, then the builtin ones. -/
  dialect : String
  upperCaseKeywords : Bool
  snippetSupport : Bool
  customDialects : List Spec
  deriving Repr, DecidableEq

inductive ConfigError where
  | malformedSettings
  | malformedFile
  | unknownDialect (name : String)
  | duplicateDialect (name : String)
  | invalidDialect (cause : DialectError)
  deriving Repr, DecidableEq

def ConfigError.message : ConfigError → String
  | .malformedSettings => "Invalid settings"
  | .malformedFile => "Invalid configuration file"
  | .unknownDialect name => "Unknown dialect: " ++ name
  | .duplicateDialect name => "Duplicate custom dialect: " ++ name
  | .invalidDialect cause => "Invalid custom dialect: " ++ cause.message

namespace Config

def standard : Config := ⟨"Standard SQL", false, true, []⟩

def resolveDialect (c : Config) : Except ConfigError Dialect :=
  match c.customDialects.find? fun s => Text.sameWord s.name c.dialect with
  | some s => (Dialect.defineNamed s).mapError .invalidDialect
  | none => (Dialect.builtin? c.dialect).mapError fun _ => .unknownDialect c.dialect

/-- Checks the names of dialects against each other and against names seen before. -/
def checkNames (seen : List String) : List Spec → Except ConfigError Unit
  | [] => .ok ()
  | s :: rest =>
    if Text.isBlankText s.name then .error (.invalidDialect .missingName)
    else if seen.contains (Text.lowercase s.name) then .error (.duplicateDialect s.name)
    else checkNames (Text.lowercase s.name :: seen) rest

def validate (c : Config) : Except ConfigError Unit := do
  checkNames [] c.customDialects
  discard c.resolveDialect

/-! ## Settings and files -/

def fieldNames : List String :=
  ["dialect", "upperCaseKeywords", "snippetSupport", "customDialects"]

def ofFields {α : Type} (read : ScalarReader α) (specs : α → Option (List Spec))
    (fields : List (String × α)) : Option Config := do
  return {
    dialect := ← Record.fieldOr fields "dialect" read.text standard.dialect
    upperCaseKeywords :=
      ← Record.fieldOr fields "upperCaseKeywords" read.flag standard.upperCaseKeywords
    snippetSupport := ← Record.fieldOr fields "snippetSupport" read.flag standard.snippetSupport
    customDialects := ← Record.fieldOr fields "customDialects" specs standard.customDialects
  }

def toJson (c : Config) : Json :=
  .obj
    [("dialect", .str c.dialect), ("upperCaseKeywords", .bool c.upperCaseKeywords),
     ("snippetSupport", .bool c.snippetSupport),
     ("customDialects", .ofList Spec.toJson c.customDialects)]

def ofJson? (v : Json) : Option Config :=
  (Record.ofLenient fieldNames v).bind
    (ofFields Json.scalars fun v => v.items?.bind (·.mapM Spec.ofJson?))

def ofYaml? (v : Yaml) : Option Config := do
  let fields ← v.fields?
  if Record.repeats fieldNames fields then none
  else ofFields Yaml.scalars (fun v => v.items?.bind (·.mapM Spec.ofYaml?)) fields

def checked (c : Config) : Except ConfigError Config := c.validate.map fun _ => c

/-- The configuration under the key `dbdl` of a client's settings; settings without it choose the
standard one. -/
def ofSettings (settings : Json) : Except ConfigError Config :=
  match settings.field? "dbdl" with
  | none => standard.checked
  | some v =>
    match ofJson? v with
    | some c => c.checked
    | none => .error .malformedSettings

def ofYamlText (source : String) : Except ConfigError Config :=
  match (Yaml.read source).bind ofYaml? with
  | some c => c.checked
  | none => .error .malformedFile

/-! ## Written form -/

def showOption {α : Type} (write : α → String) : Option α → String
  | none => "None"
  | some a => "Some(" ++ write a ++ ")"

def showRecord (name : String) (fields : List (String × String)) : String :=
  name ++ " \x7b " ++ ", ".intercalate (fields.map fun f => f.1 ++ ": " ++ f.2) ++ " \x7d"

def showSpec (s : Spec) : String :=
  let text := showOption Text.quote
  let flag := showOption fun b : Bool => toString b
  showRecord "DialectSpec"
    [("name", Text.quote s.name), ("keywords", text s.keywords), ("types", text s.types),
     ("builtin", text s.builtin), ("backslash_escapes", flag s.backslashEscapes),
     ("hash_comments", flag s.hashComments), ("slash_comments", flag s.slashComments),
     ("space_after_dashes", flag s.spaceAfterDashes),
     ("double_quoted_strings", flag s.doubleQuotedStrings),
     ("double_dollar_quoted_strings", flag s.doubleDollarQuotedStrings),
     ("unquoted_bit_literals", flag s.unquotedBitLiterals),
     ("treat_bits_as_bytes", flag s.treatBitsAsBytes), ("char_set_casts", flag s.charSetCasts),
     ("plsql_quoting_mechanism", flag s.plsqlQuotingMechanism),
     ("operator_chars", text s.operatorChars), ("special_var", text s.specialVar),
     ("identifier_quotes", text s.identifierQuotes)]

def summary (c : Config) : String :=
  showRecord "ServiceConfig"
    [("dialect", Text.quote c.dialect), ("upper_case_keywords", toString c.upperCaseKeywords),
     ("snippet_support", toString c.snippetSupport),
     ("custom_dialects", "[" ++ ", ".intercalate (c.customDialects.map showSpec) ++ "]")]

end Config
end SchemaAssist

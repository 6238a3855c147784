import SchemaAssist.Json.Reader
import SchemaAssist.Yaml.Reader
import SchemaAssist.Dialect.Basic

/-! # Dialects from documents

A dialect read from a descriptor needs a name that is not blank.
-/
namespace SchemaAssist

inductive DialectError where
  | malformedJson
  | malformedYaml
  | missingName
  | unknownDialect (name : String)
  deriving Repr, DecidableEq

def DialectError.message : DialectError → String
  | .malformedJson => "Invalid JSON dialect descriptor"
  | .malformedYaml => "Invalid YAML dialect descriptor"
  | .missingName => "Dialect descriptor is missing a name"
  | .unknownDialect name => "Unknown dialect: " ++ name

namespace Dialect

/-- A JSON document may not repeat a field of the descriptor. -/
def Spec.ofJsonText (source : String) : Except DialectError Spec :=
  match Json.read source with
  | none => .error .malformedJson
  | some v =>
    let repeated := match v with
      | .obj fields => Record.repeats fieldNames fields
      | _ => false
    match if repeated then none else ofJson? v with
    | some s => .ok s
    | none => .error .malformedJson

def Spec.ofYamlText (source : String) : Except DialectError Spec :=
  match (Yaml.read source).bind ofYaml? with
  | some s => .ok s
  | none => .error .malformedYaml

def defineNamed (s : Spec) : Except DialectError Dialect :=
  if Text.isBlankText s.name then .error .missingName else .ok (define s)

def ofJsonText (source : String) : Except DialectError Dialect :=
  Spec.ofJsonText source >>= defineNamed

def ofYamlText (source : String) : Except DialectError Dialect :=
  Spec.ofYamlText source >>= defineNamed

end Dialect
end SchemaAssist

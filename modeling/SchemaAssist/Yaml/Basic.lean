/-! # YAML values

Scalars keep their text as written. A plain scalar is told from a quoted one, since only plain
text can stand for a truth value or for absence.
-/
namespace SchemaAssist

inductive Yaml where
  | plain (text : String)
  | quoted (text : String)
  | seq (items : List Yaml)
  | map (fields : List (Yaml × Yaml))
  deriving Repr, Inhabited

namespace Yaml

def scalar? : Yaml → Option String
  | .plain text => some text
  | .quoted text => some text
  | _ => none

def isAbsent : Yaml → Bool
  | .plain text => ["", "~", "null", "Null", "NULL"].contains text
  | _ => false

def bool? : Yaml → Option Bool
  | .plain text =>
    if ["true", "True", "TRUE"].contains text then some true
    else if ["false", "False", "FALSE"].contains text then some false
    else none
  | _ => none

def optional? {α : Type} (decode : Yaml → Option α) (v : Yaml) : Option (Option α) :=
  if v.isAbsent then some none else (decode v).map some

/-- The fields of a mapping whose keys are scalars; an empty plain scalar has none. -/
def fields? : Yaml → Option (List (String × Yaml))
  | .map fields => fields.mapM fun f => f.1.scalar?.map fun name => (name, f.2)
  | .plain "" => some []
  | _ => none

/-- The items of a sequence; an empty plain scalar has none. -/
def items? : Yaml → Option (List Yaml)
  | .seq items => some items
  | .plain "" => some []
  | _ => none

end Yaml
end SchemaAssist

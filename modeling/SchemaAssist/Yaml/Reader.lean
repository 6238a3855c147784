import SchemaAssist.Yaml.Basic
import SchemaAssist.Yaml.Token

/-! # Reading YAML

The value that the tokens of a document give. A document without content is an empty plain scalar,
as is any key, value or item left out. A text holds one document at most.
-/
namespace SchemaAssist.Yaml

def missing : Yaml := .plain ""

/-- Whether an item of a block sequence is left out before these tokens. -/
def endsItem : List Token → Bool
  | .item :: _ | .blockEnd :: _ => true
  | _ => false

/-- Whether a key, a value or an item of a mapping is left out before these tokens. -/
def endsField : List Token → Bool
  | .key :: _ | .value :: _ | .blockEnd :: _ => true
  | _ => false

/-- Whether a key or a value inside brackets is left out before these tokens. -/
def endsFlow (close : Token) : List Token → Bool
  | [] => false
  | t :: _ => t = .value || t = .comma || t = close

mutual

/-- One value. The first argument bounds the number of tokens; `bare` says that the items of a
sequence may follow without a token that opens it. -/
def readNode : Nat → Bool → List Token → Option (Yaml × List Token)
  | 0, _, _ => none
  | fuel + 1, bare, ts =>
    match ts with
    | .scalar isPlain text :: rest => some (if isPlain then .plain text else .quoted text, rest)
    | .openSequence :: rest => (readFlowItems fuel true rest).map fun r => (.seq r.1, r.2)
    | .openMapping :: rest => (readFlowFields fuel true rest).map fun r => (.map r.1, r.2)
    | .blockSequence :: rest => (readItems fuel rest).map fun r => (.seq r.1, r.2)
    | .blockMapping :: rest => (readFields fuel rest).map fun r => (.map r.1, r.2)
    | .item :: _ => if bare then (readBareItems fuel ts).map fun r => (.seq r.1, r.2) else none
    | _ => none

def readOr : Nat → Bool → Bool → List Token → Option (Yaml × List Token)
  | 0, _, _, _ => none
  | fuel + 1, absent, bare, ts => if absent then some (missing, ts) else readNode fuel bare ts

def readItems : Nat → List Token → Option (List Yaml × List Token)
  | 0, _ => none
  | fuel + 1, ts =>
    match ts with
    | .blockEnd :: rest => some ([], rest)
    | .item :: rest => do
      let (v, rest) ← readOr fuel (endsItem rest) false rest
      let (items, rest) ← readItems fuel rest
      return (v :: items, rest)
    | _ => none

/-- Items that stand in the column of the key before them. -/
def readBareItems : Nat → List Token → Option (List Yaml × List Token)
  | 0, _ => none
  | fuel + 1, ts =>
    match ts with
    | .item :: rest => do
      let (v, rest) ← readOr fuel (endsItem rest || endsField rest) false rest
      let (items, rest) ← readBareItems fuel rest
      return (v :: items, rest)
    | _ => some ([], ts)

def readFields : Nat → List Token → Option (List (Yaml × Yaml) × List Token)
  | 0, _ => none
  | fuel + 1, ts =>
    match ts with
    | .blockEnd :: rest => some ([], rest)
    | .key :: rest => do
      let (key, rest) ← readOr fuel (endsField rest) true rest
      let (value, rest) ← match rest with
        | .value :: rest => readOr fuel (endsField rest) true rest
        | _ => some (missing, rest)
      let (fields, rest) ← readFields fuel rest
      return ((key, value) :: fields, rest)
    | _ => none

def readFlowValue : Nat → Token → List Token → Option (Yaml × List Token)
  | 0, _, _ => none
  | fuel + 1, close, ts =>
    match ts with
    | .value :: rest => readOr fuel (endsFlow close rest) false rest
    | _ => some (missing, ts)

/-- Items up to the closing bracket; an item with a key is a mapping of one field. A key left out
takes along the sign after it. -/
def readFlowItems : Nat → Bool → List Token → Option (List Yaml × List Token)
  | 0, _, _ => none
  | fuel + 1, isFirst, ts =>
    match ts with
    | .closeSequence :: rest => some ([], rest)
    | _ => do
      let ts ← if isFirst then some ts else match ts with
        | .comma :: rest => some rest
        | _ => none
      match ts with
      | .closeSequence :: rest => return ([], rest)
      | .key :: rest => do
        let absent := endsFlow .closeSequence rest
        let (key, rest) ← readOr fuel absent false (if absent then rest.drop 1 else rest)
        let (value, rest) ← readFlowValue fuel .closeSequence rest
        let (items, rest) ← readFlowItems fuel false rest
        return (.map [(key, value)] :: items, rest)
      | _ => do
        let (v, rest) ← readNode fuel false ts
        let (items, rest) ← readFlowItems fuel false rest
        return (v :: items, rest)

/-- Fields up to the closing brace; a field without a key sign has no value. -/
def readFlowFields : Nat → Bool → List Token → Option (List (Yaml × Yaml) × List Token)
  | 0, _, _ => none
  | fuel + 1, isFirst, ts =>
    match ts with
    | .closeMapping :: rest => some ([], rest)
    | _ => do
      let ts ← if isFirst then some ts else match ts with
        | .comma :: rest => some rest
        | _ => none
      match ts with
      | .closeMapping :: rest => return ([], rest)
      | .key :: rest => do
        let (key, rest) ← readOr fuel (endsFlow .closeMapping rest) false rest
        let (value, rest) ← readFlowValue fuel .closeMapping rest
        let (fields, rest) ← readFlowFields fuel false rest
        return ((key, value) :: fields, rest)
      | _ => do
        let (key, rest) ← readNode fuel false ts
        let (fields, rest) ← readFlowFields fuel false rest
        return ((key, missing) :: fields, rest)

end

/-- Whether the content of a document is left out before these tokens. -/
def endsDocument : List Token → Bool
  | [] | .documentStart :: _ | .documentEnd :: _ => true
  | _ => false

/-- The value of the only document. A document that is not marked has content. -/
def ofTokens? (ts : List Token) : Option Yaml := do
  let fuel := 2 * ts.length + 2
  let (value, rest) ← match ts with
    | [] => some (missing, [])
    | .documentStart :: rest => readOr fuel (endsDocument rest) false rest
    | _ => readNode fuel false ts
  if rest.all (· = .documentEnd) then some value else none

def read (text : String) : Option Yaml := (tokens? text.toList).bind ofTokens?

end SchemaAssist.Yaml

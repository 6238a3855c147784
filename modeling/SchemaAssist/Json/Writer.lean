import SchemaAssist.Json.Basic

/-! # Writing JSON

The compact form: no space between tokens, every control character escaped.
-/
namespace SchemaAssist.Json

def hexChar (n : Nat) : Char := if n < 10 then Char.ofNat (48 + n) else Char.ofNat (87 + n)

def escapeChar (c : Char) : List Char :=
  if c = '"' then ['\\', '"']
  else if c = '\\' then ['\\', '\\']
  else if c = '\n' then ['\\', 'n']
  else if c = '\r' then ['\\', 'r']
  else if c = '\t' then ['\\', 't']
  else if c.toNat < 0x20 then
    ['\\', 'u', '0', '0', hexChar (c.toNat / 16), hexChar (c.toNat % 16)]
  else [c]

/-- A string literal put in front of what follows. -/
def writeString (text : String) (after : List Char) : List Char :=
  '"' :: text.toList.foldr (fun c rest => escapeChar c ++ rest) ('"' :: after)

mutual

/-- A value put in front of what follows; `garbled` is written as `null`. -/
def write : Json → List Char → List Char
  | .null, after => 'n' :: 'u' :: 'l' :: 'l' :: after
  | .garbled, after => 'n' :: 'u' :: 'l' :: 'l' :: after
  | .bool true, after => 't' :: 'r' :: 'u' :: 'e' :: after
  | .bool false, after => 'f' :: 'a' :: 'l' :: 's' :: 'e' :: after
  | .num written, after => written.toList ++ after
  | .str text, after => writeString text after
  | .arr items, after => '[' :: writeItems items (']' :: after)
  | .obj fields, after => '\x7b' :: writeFields fields ('\x7d' :: after)

def writeItems : List Json → List Char → List Char
  | [], after => after
  | [v], after => write v after
  | v :: w :: rest, after => write v (',' :: writeItems (w :: rest) after)

def writeFields : List (String × Json) → List Char → List Char
  | [], after => after
  | [(name, v)], after => writeString name (':' :: write v after)
  | (name, v) :: f :: rest, after =>
    writeString name (':' :: write v (',' :: writeFields (f :: rest) after))

end

def render (value : Json) : String := String.ofList (write value [])

end SchemaAssist.Json

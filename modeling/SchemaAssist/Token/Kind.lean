import SchemaAssist.Text.Bytes
import SchemaAssist.Dialect.Word

/-! # Tokens and their kinds -/
namespace SchemaAssist

inductive TokenKind where
  | whitespace
  | lineComment
  | blockComment
  | string
  | quotedIdentifier
  | identifier
  | keyword
  | type
  | builtin
  | bool
  | null
  | not
  | default
  | number
  | bits
  | bytes
  | dot
  /-- `@name`, `?`, `:param` and the like. -/
  | specialVar
  | operator
  /-- `,` `;` `:` -/
  | punctuation
  | parenOpen
  | parenClose
  | braceOpen
  | braceClose
  | bracketOpen
  | bracketClose
  /-- A character that no rule accepts. -/
  | unknown
  deriving Repr, DecidableEq

namespace TokenKind

def all : List TokenKind :=
  [.whitespace, .lineComment, .blockComment, .string, .quotedIdentifier, .identifier, .keyword,
   .type, .builtin, .bool, .null, .not, .default, .number, .bits, .bytes, .dot, .specialVar,
   .operator, .punctuation, .parenOpen, .parenClose, .braceOpen, .braceClose, .bracketOpen,
   .bracketClose, .unknown]

def label : TokenKind → String
  | .whitespace => "Whitespace"
  | .lineComment => "LineComment"
  | .blockComment => "BlockComment"
  | .string => "String"
  | .quotedIdentifier => "QuotedIdentifier"
  | .identifier => "Identifier"
  | .keyword => "Keyword"
  | .type => "Type"
  | .builtin => "Builtin"
  | .bool => "Bool"
  | .null => "Null"
  | .not => "Not"
  | .default => "Default"
  | .number => "Number"
  | .bits => "Bits"
  | .bytes => "Bytes"
  | .dot => "Dot"
  | .specialVar => "SpecialVar"
  | .operator => "Operator"
  | .punctuation => "Punctuation"
  | .parenOpen => "ParenOpen"
  | .parenClose => "ParenClose"
  | .braceOpen => "BraceOpen"
  | .braceClose => "BraceClose"
  | .bracketOpen => "BracketOpen"
  | .bracketClose => "BracketClose"
  | .unknown => "Unknown"

def isTrivia : TokenKind → Bool
  | .whitespace | .lineComment | .blockComment => true
  | _ => false

def isWord : TokenKind → Bool
  | .identifier | .keyword | .type | .builtin | .bool | .null | .not | .default => true
  | _ => false

def ofClass : WordClass → TokenKind
  | .keyword => .keyword
  | .type => .type
  | .builtin => .builtin
  | .bool => .bool
  | .null => .null
  | .not => .not
  | .default => .default

end TokenKind

/-- A classified span of a text, in bytes. -/
structure Token where
  kind : TokenKind
  start : Nat
  stop : Nat
  deriving Repr, DecidableEq

namespace Token

/-! ## Classes of characters -/

def isAscii (c : Char) : Bool := decide (c.toNat < 0x80)

def isSpace (c : Char) : Bool := c = ' ' || c = '\t' || c = '\r' || c = '\n'

def isBinaryDigit (c : Char) : Bool := c = '0' || c = '1'

def isHexDigit (c : Char) : Bool :=
  c.isDigit || (decide ('a' ≤ c) && decide (c ≤ 'f')) || (decide ('A' ≤ c) && decide (c ≤ 'F'))

/-- The delimiter that closes what another one opens. -/
def closing (delimiter : Char) : Char :=
  if delimiter = '[' then ']'
  else if delimiter = '\x7b' then '\x7d'
  else if delimiter = '<' then '>'
  else if delimiter = '(' then ')'
  else delimiter

def signKind? (c : Char) : Option TokenKind :=
  if c = ',' || c = ';' || c = ':' then some .punctuation
  else if c = '(' then some .parenOpen
  else if c = ')' then some .parenClose
  else if c = '\x7b' then some .braceOpen
  else if c = '\x7d' then some .braceClose
  else if c = '[' then some .bracketOpen
  else if c = ']' then some .bracketClose
  else none

/-! ## Spans -/

def length (t : Token) : Nat := t.stop - t.start

def isEmpty (t : Token) : Bool := t.start = t.stop

/-- The part of a text the token spans; `none` if the span does not fit the text. -/
def text? (t : Token) (text : String) : Option String := Text.slice? text t.start t.stop

end Token
end SchemaAssist

/-! # Places in a YAML document

A document is read with one sign for most line ends: return, line feed, their pair and the next
line sign are all a line feed. The line and paragraph separators end lines too and stay what they
are. A place counts lines, columns in characters and offsets in bytes.
-/
namespace SchemaAssist.Yaml

def isBlankChar (c : Char) : Bool := c = ' ' || c = '\t'

/-- The signs that end a line once line ends are unified. -/
def isLineEnd (c : Char) : Bool := c = '\n' || c = '\u2028' || c = '\u2029'

/-- Line feeds for returns, for pairs of return and line feed, and for next line signs. -/
def unifyEnds : List Char → List Char
  | [] => []
  | '\r' :: '\n' :: rest => '\n' :: unifyEnds rest
  | c :: rest => (if c = '\r' || c = '\u0085' then '\n' else c) :: unifyEnds rest

def isAllowed (c : Char) : Bool :=
  let n := c.toNat
  n = 0x9 || n = 0xA || n = 0xD || (decide (0x20 ≤ n) && decide (n ≤ 0x7E)) || n = 0x85 ||
    (decide (0xA0 ≤ n) && decide (n ≠ 0xFFFE) && decide (n ≠ 0xFFFF))

/-- Whether a word ends before these characters: at a blank, a line end or the end. -/
def endsWord : List Char → Bool
  | [] => true
  | c :: _ => isBlankChar c || isLineEnd c

/-- Whether these characters, at the start of a line, are a mark between documents. -/
def isMark : List Char → Bool
  | '-' :: '-' :: '-' :: rest => endsWord rest
  | '.' :: '.' :: '.' :: rest => endsWord rest
  | _ => false

structure Place where
  line : Nat
  column : Nat
  offset : Nat
  deriving Repr, DecidableEq

namespace Place

def start : Place := ⟨0, 0, 0⟩

def after (p : Place) (c : Char) : Place :=
  if isLineEnd c then ⟨p.line + 1, 0, p.offset + c.utf8Size⟩
  else ⟨p.line, p.column + 1, p.offset + c.utf8Size⟩

def past (p : Place) (cs : List Char) : Place := cs.foldl after p

end Place

/-- What is left of a document, and its place. -/
structure Rest where
  place : Place
  chars : List Char
  deriving Repr, DecidableEq

/-- The rest after `n` more characters. -/
def Rest.drop (r : Rest) (n : Nat) : Rest := ⟨r.place.past (r.chars.take n), r.chars.drop n⟩

end SchemaAssist.Yaml

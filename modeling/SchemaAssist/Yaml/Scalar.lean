import SchemaAssist.Json.Reader
import SchemaAssist.Yaml.Place

/-! # YAML scalars

Plain, single-quoted and double-quoted text. Line ends inside a scalar are folded: blanks around
them are dropped, a single line feed becomes a space, and of more signs the first is dropped if it
is a line feed. A mark between documents may not stand at the start of a line of a quoted scalar,
and ends a plain one.
-/
namespace SchemaAssist.Yaml

/-- What stands between two words of a scalar: blanks held back, or line ends. A line end taken
back by a backslash leaves no first one. -/
inductive Gap where
  | blanks (held : List Char)
  | ends (first : Option Char) (more : List Char)
  deriving Repr, DecidableEq

namespace Gap

def empty : Gap := .blanks []

def isEmpty (g : Gap) : Bool := decide (g = empty)

def hasEnd : Gap → Bool
  | .blanks _ => false
  | .ends _ _ => true

def blank (c : Char) : Gap → Gap
  | .blanks held => .blanks (held ++ [c])
  | .ends first more => .ends first more

def lineEnd (c : Char) : Gap → Gap
  | .blanks _ => .ends (some c) []
  | .ends first more => .ends first (more ++ [c])

/-- What the gap stands for in the text of the scalar. -/
def text : Gap → List Char
  | .blanks held => held
  | .ends none more => more
  | .ends (some c) more =>
    if c = '\n' then if more.isEmpty then [' '] else more else c :: more

end Gap

/-- The result with characters put in front of its text. -/
def prepend (cs : List Char) (r : Option (List Char × Rest)) : Option (List Char × Rest) :=
  r.map fun r => (cs ++ r.1, r.2)

/-- The text of a single-quoted scalar after a gap, and what follows its closing quote. -/
def readSingle (gap : Gap) (p : Place) : List Char → Option (List Char × Rest)
  | [] => none
  | '\x27' :: '\x27' :: rest =>
    prepend (gap.text ++ ['\x27']) (readSingle .empty (p.past ['\x27', '\x27']) rest)
  | '\x27' :: rest => some (gap.text, ⟨p.after '\x27', rest⟩)
  | c :: rest =>
    if isBlankChar c then readSingle (gap.blank c) (p.after c) rest
    else if isLineEnd c then readSingle (gap.lineEnd c) (p.after c) rest
    else if p.column = 0 && isMark (c :: rest) then none
    else prepend (gap.text ++ [c]) (readSingle .empty (p.after c) rest)

def letterEscapes : List (Char × Char) :=
  [('0', '\x00'), ('a', '\x07'), ('b', '\x08'), ('t', '\t'), ('\t', '\t'), ('n', '\n'),
   ('v', '\x0b'), ('f', '\x0c'), ('r', '\r'), ('e', '\x1b'), (' ', ' '), ('"', '"'), ('/', '/'),
   ('\\', '\\'), ('N', '\u0085'), ('_', '\u00a0'), ('L', '\u2028'), ('P', '\u2029')]

def hexChar? (digits : List Char) : Option Char := do
  let values ← digits.mapM Json.hexDigit?
  let n := values.foldl (fun n d => 16 * n + d) 0
  if n.isValidChar then some (Char.ofNat n) else none

/-- The text of a double-quoted scalar after a gap, and what follows its closing quote. -/
def readDouble (gap : Gap) (p : Place) : List Char → Option (List Char × Rest)
  | [] => none
  | '"' :: rest => some (gap.text, ⟨p.after '"', rest⟩)
  | '\\' :: 'x' :: a :: b :: rest => do
    let c ← hexChar? [a, b]
    prepend (gap.text ++ [c]) (readDouble .empty (p.past ['\\', 'x', a, b]) rest)
  | '\\' :: 'u' :: a :: b :: c :: d :: rest => do
    let e ← hexChar? [a, b, c, d]
    prepend (gap.text ++ [e]) (readDouble .empty (p.past ['\\', 'u', a, b, c, d]) rest)
  | '\\' :: 'U' :: a :: b :: c :: d :: e :: f :: g :: h :: rest => do
    let i ← hexChar? [a, b, c, d, e, f, g, h]
    prepend (gap.text ++ [i])
      (readDouble .empty (p.past ['\\', 'U', a, b, c, d, e, f, g, h]) rest)
  | '\\' :: c :: rest =>
    let next := p.past ['\\', c]
    if isLineEnd c then prepend gap.text (readDouble (.ends none []) next rest)
    else do
      let e ← letterEscapes.lookup c
      prepend (gap.text ++ [e]) (readDouble .empty next rest)
  | c :: rest =>
    if isBlankChar c then readDouble (gap.blank c) (p.after c) rest
    else if isLineEnd c then readDouble (gap.lineEnd c) (p.after c) rest
    else if p.column = 0 && isMark (c :: rest) then none
    else prepend (gap.text ++ [c]) (readDouble .empty (p.after c) rest)

/-- Brackets, braces and the comma, which end plain text inside brackets. -/
def isFlowIndicator (c : Char) : Bool :=
  c = ',' || c = '[' || c = ']' || c = '\x7b' || c = '\x7d'

/-- Characters no plain text starts with, whatever follows them. -/
def indicators : List Char :=
  [',', '[', ']', '\x7b', '\x7d', '#', '&', '*', '!', '|', '>', '\x27', '"', '%', '@', '\x60']

/-- Whether plain text starts with `c` before `rest`. Inside brackets a dash may stand alone, and
no question mark or colon may start it. -/
def startsPlain (flow : Bool) (c : Char) (rest : List Char) : Bool :=
  if c = '-' then rest.head?.all fun d => !isBlankChar d
  else if c = '?' || c = ':' then !flow && !endsWord rest
  else !isBlankChar c && !isLineEnd c && !indicators.contains c

/-- Plain text after a gap, the gap it ends before, and what follows. Lines that carry it on keep
to columns from `least` on, except inside brackets. -/
def readPlain (flow : Bool) (least : Nat) (gap : Gap) (p : Place) :
    List Char → Option (List Char × Gap × Rest)
  | [] => some ([], gap, ⟨p, []⟩)
  | c :: rest =>
    if isBlankChar c then
      if gap.hasEnd && decide (p.column < least) && c = '\t' then none
      else readPlain flow least (gap.blank c) (p.after c) rest
    else if isLineEnd c then readPlain flow least (gap.lineEnd c) (p.after c) rest
    else if !gap.isEmpty && ((!flow && decide (p.column < least)) ||
        (p.column = 0 && isMark (c :: rest)) || c = '#') then
      some ([], gap, ⟨p, c :: rest⟩)
    else if flow && c = ':' && rest.head?.any (fun d => d = '?' || isFlowIndicator d) then none
    else if (c = ':' && endsWord rest) || (flow && isFlowIndicator c) then
      some ([], gap, ⟨p, c :: rest⟩)
    else
      (readPlain flow least .empty (p.after c) rest).map fun r => (gap.text ++ c :: r.1, r.2)

end SchemaAssist.Yaml

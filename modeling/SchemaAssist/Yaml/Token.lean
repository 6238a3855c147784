import SchemaAssist.Yaml.Scalar

/-! # Tokens of a YAML document

The signs and scalars of a document, with tokens of their own where a block starts and ends. Blocks
follow the columns of their lines; inside brackets columns do not count.

A key before a colon is known as such only when the colon is read. Where one may begin, its start is
kept; it is given up at the end of its line or after 1024 bytes. The first token of a line in a
mapping has to be a key.

Anchors, aliases, tags, block scalars and directives are refused.
-/
namespace SchemaAssist.Yaml

inductive Token where
  | documentStart
  | documentEnd
  | blockSequence
  | blockMapping
  | blockEnd
  | item
  | key
  | value
  | openSequence
  | closeSequence
  | openMapping
  | closeMapping
  | comma
  | scalar (isPlain : Bool) (text : String)
  deriving Repr, DecidableEq

/-- Where a key may have begun: its place, and how many tokens come before it. -/
structure KeyStart where
  place : Place
  tokens : Nat
  required : Bool
  deriving Repr, DecidableEq

/-- Whether a key that began here cannot reach on to a place. -/
def KeyStart.isStale (k : KeyStart) (p : Place) : Bool :=
  decide (k.place.line < p.line) || decide (k.place.offset + 1024 < p.offset)

structure Scan where
  rest : Rest
  tokens : Array Token
  /-- For each block, innermost first, the column after the one it stands in. -/
  margins : List Nat
  /-- Where a key may have begun on this level of brackets. -/
  keyStart : Option KeyStart
  /-- The same for the levels around, innermost first. -/
  outer : List (Option KeyStart)
  /-- Whether a key may begin here. -/
  keyAllowed : Bool

namespace Scan

def new (text : List Char) : Scan := ⟨⟨.start, text⟩, #[], [], none, [], true⟩

def place (s : Scan) : Place := s.rest.place

def inFlow (s : Scan) : Bool := !s.outer.isEmpty

def goTo (s : Scan) (rest : Rest) : Scan := { s with rest := rest }

def emit (s : Scan) (t : Token) : Scan := { s with tokens := s.tokens.push t }

def sign (s : Scan) (t : Token) (n : Nat) : Scan := (s.goTo (s.rest.drop n)).emit t

def allow (s : Scan) (b : Bool) : Scan := { s with keyAllowed := b }

/-! ## Keys -/

/-- Gives up a key; a required one is missed. -/
def dropKey : Option KeyStart → Option (Option KeyStart)
  | none => some none
  | some k => if k.required then none else some none

def forgetKey (s : Scan) : Option Scan := do return { s with keyStart := ← dropKey s.keyStart }

/-- Gives up a key that cannot reach on to a place. -/
def dropStale (p : Place) (k : Option KeyStart) : Option (Option KeyStart) :=
  if k.any (·.isStale p) then dropKey k else some k

def forgetStale (s : Scan) : Option Scan := do
  return { s with
    keyStart := ← dropStale s.place s.keyStart
    outer := ← s.outer.mapM (dropStale s.place) }

/-- Keeps this place as the start of a key, where one may begin. -/
def keepKey (s : Scan) : Option Scan := do
  if s.keyAllowed then
    let required := !s.inFlow && s.margins.head? = some (s.place.column + 1)
    let s ← s.forgetKey
    return { s with keyStart := some ⟨s.place, s.tokens.size, required⟩ }
  else return s

/-! ## Blocks -/

/-- Closes the blocks whose margin is beyond a limit. -/
def closeBlocks (s : Scan) (limit : Nat) : Scan :=
  if s.inFlow then s
  else
    let closed := s.margins.takeWhile (limit < ·)
    { s with
      margins := s.margins.drop closed.length
      tokens := s.tokens ++ Array.replicate closed.length .blockEnd }

/-- Opens a block in a column, unless one is open there, with its token put in at an index. -/
def openBlock (s : Scan) (column index : Nat) (t : Token) : Scan :=
  if s.inFlow || s.margins.any (column < ·) then s
  else
    { s with
      margins := (column + 1) :: s.margins
      tokens := s.tokens.insertIdxIfInBounds index t }

def openHere (s : Scan) (t : Token) : Scan := s.openBlock s.place.column s.tokens.size t

/-! ## Signs -/

def mark (s : Scan) (t : Token) : Option Scan := do
  let s ← (s.closeBlocks 0).forgetKey
  return (s.sign t 3).allow false

def openBracket (s : Scan) (t : Token) : Option Scan := do
  let s ← s.keepKey
  return ({ s with keyStart := none, outer := s.keyStart :: s.outer }.sign t 1).allow true

def closeBracket (s : Scan) (t : Token) : Option Scan := do
  let s ← s.forgetKey
  let s := match s.outer with
    | [] => s
    | k :: outer => { s with keyStart := k, outer := outer }
  return (s.sign t 1).allow false

def comma (s : Scan) : Option Scan := do return ((← s.forgetKey).sign .comma 1).allow true

def item (s : Scan) : Option Scan := do
  if !s.inFlow && !s.keyAllowed then none
  else return ((← (s.openHere .blockSequence).forgetKey).sign .item 1).allow true

def keySign (s : Scan) : Option Scan := do
  if !s.inFlow && !s.keyAllowed then none
  else return ((← (s.openHere .blockMapping).forgetKey).sign .key 1).allow !s.inFlow

/-- The colon before a value, and the key before the colon. -/
def valueSign (s : Scan) : Option Scan :=
  match s.keyStart with
  | some k =>
    let s := { s with tokens := s.tokens.insertIdxIfInBounds k.tokens .key, keyStart := none }
    some (((s.openBlock k.place.column k.tokens .blockMapping).sign .value 1).allow false)
  | none =>
    if !s.inFlow && !s.keyAllowed then none
    else some (((s.openHere .blockMapping).sign .value 1).allow !s.inFlow)

/-! ## Scalars -/

def scalar (s : Scan) (isPlain keyAfter : Bool) (text : List Char) (rest : Rest) :
    Option Scan := do
  let s ← s.keepKey
  return ((s.goTo rest).emit (.scalar isPlain (String.ofList text))).allow keyAfter

def plainScalar (s : Scan) : Option Scan := do
  let (text, gap, rest) ← readPlain s.inFlow (s.margins.headD 0) .empty s.place s.rest.chars
  s.scalar true gap.hasEnd text rest

/-! ## The whole document -/

/-- Blanks, comments and line ends passed over. A new line outside brackets may start a key, and
where a key may begin no tab is passed over outside brackets. A byte order mark that starts a line
is passed over as well and takes the first column. -/
def skipSpace (flow comment keyAllowed : Bool) (p : Place) : List Char → Bool × Rest
  | [] => (keyAllowed, ⟨p, []⟩)
  | c :: rest =>
    if isLineEnd c then skipSpace flow false (keyAllowed || !flow) (p.after c) rest
    else if comment || c = ' ' || (c = '\t' && (flow || !keyAllowed)) ||
        (c = '\uFEFF' && p.column = 0) then
      skipSpace flow comment keyAllowed (p.after c) rest
    else if c = '#' then skipSpace flow true keyAllowed (p.after c) rest
    else (keyAllowed, ⟨p, c :: rest⟩)

/-- Goes on to the next token and closes the blocks that end before it. -/
def approach (s : Scan) : Option Scan := do
  let skipped := skipSpace s.inFlow false s.keyAllowed s.place s.rest.chars
  let s ← ((s.goTo skipped.2).allow skipped.1).forgetStale
  return s.closeBlocks (s.place.column + 1)

def token (s : Scan) (c : Char) (rest : List Char) : Option Scan :=
  if s.place.column = 0 && c = '%' then none
  else if s.place.column = 0 && isMark (c :: rest) then
    s.mark (if c = '-' then .documentStart else .documentEnd)
  else if c = '[' then s.openBracket .openSequence
  else if c = '\x7b' then s.openBracket .openMapping
  else if c = ']' then s.closeBracket .closeSequence
  else if c = '\x7d' then s.closeBracket .closeMapping
  else if c = ',' then s.comma
  else if c = '-' && endsWord rest then s.item
  else if c = '?' && (s.inFlow || endsWord rest) then s.keySign
  else if c = ':' && (s.inFlow || endsWord rest) then s.valueSign
  else if c = '\x27' then do
    let (text, rest) ← readSingle .empty (s.place.after c) rest
    s.scalar false false text rest
  else if c = '"' then do
    let (text, rest) ← readDouble .empty (s.place.after c) rest
    s.scalar false false text rest
  else if startsPlain s.inFlow c rest then s.plainScalar
  else none

/-- Reads all tokens. Each takes a character, so their number is bounded by that of the characters
left. -/
def run : Nat → Scan → Option (List Token)
  | 0, _ => none
  | fuel + 1, s => do
    let s ← s.approach
    match s.rest.chars with
    | [] => return (← (s.closeBlocks 0).forgetKey).tokens.toList
    | c :: rest => run fuel (← s.token c rest)

end Scan

def tokens? (text : List Char) : Option (List Token) :=
  if text.all isAllowed then
    let text := unifyEnds text
    (Scan.new text).run (text.length + 1)
  else none

end SchemaAssist.Yaml

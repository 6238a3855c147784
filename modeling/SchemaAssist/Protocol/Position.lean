import SchemaAssist.Text.Bytes

/-! # Positions

An editor counts lines and, within a line, UTF-16 units, both in 32 bits. Offsets count bytes.
-/
namespace SchemaAssist.Protocol

structure Position where
  line : Nat
  character : Nat
  deriving Repr, DecidableEq

def units (c : Char) : Nat := if c.toNat < 0x10000 then 1 else 2

def Position.after (p : Position) (c : Char) : Position :=
  if c = '\n' then ⟨p.line + 1, 0⟩ else ⟨p.line, p.character + units c⟩

/-- The position with both numbers cut to 32 bits. -/
def Position.truncate (p : Position) : Position := ⟨p.line % UInt32.size, p.character % UInt32.size⟩

/-- The position of a byte offset into text that starts at `p`; past the end, that of the end,
inside a character, that of its start. -/
def positionFrom (p : Position) : List Char → Nat → Position
  | [], _ => p
  | c :: rest, offset =>
    if c.utf8Size ≤ offset then positionFrom (p.after c) rest (offset - c.utf8Size) else p

def positionAt (text : String) (offset : Nat) : Position :=
  (positionFrom ⟨0, 0⟩ text.toList offset).truncate

/-- Bytes before a line, and the text from it on. -/
def lineAt? : Nat → List Char → Option (Nat × List Char)
  | 0, cs => some (0, cs)
  | _ + 1, [] => none
  | n + 1, c :: rest =>
    (lineAt? (if c = '\n' then n else n + 1) rest).map fun r => (c.utf8Size + r.1, r.2)

/-- Bytes of a line before a column, or of the whole line if it is shorter. -/
def columnOffset : List Char → Nat → Nat
  | [], _ => 0
  | c :: rest, column =>
    if column = 0 || c = '\n' then 0 else c.utf8Size + columnOffset rest (column - units c)

/-- The byte offset of a position. A column past the end of its line means that end; a line past
the last one has no offset. -/
def offsetAt? (text : String) (p : Position) : Option Nat :=
  (lineAt? p.line text.toList).map fun l => l.1 + columnOffset l.2 p.character

structure Range where
  start : Position
  stop : Position
  deriving Repr, DecidableEq

def rangeOf (text : String) (start stop : Nat) : Range := ⟨positionAt text start, positionAt text stop⟩

end SchemaAssist.Protocol

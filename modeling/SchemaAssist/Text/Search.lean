import SchemaAssist.Text.Bytes
import SchemaAssist.Text.Quoted

/-! # Finding a text inside another

Searches give the byte offset of the first occurrence. A locator searches on from where its last
find ended.
-/
namespace SchemaAssist.Text

def findChars? (needle : List Char) : List Char → Option Nat
  | [] => if needle.isEmpty then some 0 else none
  | c :: rest =>
    if needle.isPrefixOf (c :: rest) then some 0
    else (findChars? needle rest).map (c.utf8Size + ·)

def contains (text needle : String) : Bool := (findChars? needle.toList text.toList).isSome

inductive SearchError where
  /-- The search would start past the end or inside a character. -/
  | offBoundary
  | notFound (needle place : String)
  deriving Repr, DecidableEq

/-- What to say of a failed search; a start off the boundaries is not commented on. -/
def SearchError.message? : SearchError → Option String
  | .offBoundary => none
  | .notFound needle place => some (quote needle ++ " not found " ++ place)

/-- Byte offset of the first occurrence at or after the boundary `start`. -/
def findFrom (text needle : String) (start : Nat) (place : String) : Except SearchError Nat :=
  match splitAt? start text.toList with
  | none => .error .offBoundary
  | some (_, rest) =>
    match findChars? needle.toList rest with
    | some offset => .ok (start + offset)
    | none => .error (.notFound needle place)

/-- A text and the offset at which the next search starts. -/
structure Locator where
  text : String
  pos : Nat
  deriving Repr

namespace Locator

def new (text : String) : Locator := ⟨text, 0⟩

def peek (l : Locator) (needle : String) : Except SearchError Nat :=
  findFrom l.text needle l.pos ("after offset " ++ toString l.pos)

/-- Span of the next occurrence, and the locator that goes on after it. -/
def next (l : Locator) (needle : String) : Except SearchError ((Nat × Nat) × Locator) :=
  (l.peek needle).map fun start =>
    ((start, start + size needle), { l with pos := start + size needle })

end Locator

/-! ## The cursor in an annotated text -/

def cursor? (input : String) : Option Nat := findChars? ['|'] input.toList

def withoutCursor (input : String) : String :=
  let cs := input.toList
  String.ofList (cs.takeWhile (· ≠ '|') ++ (cs.dropWhile (· ≠ '|')).drop 1)

/-- The text and the offset of its bar, or of its end if there is none. -/
def splitCursor (input : String) : String × Nat :=
  let text := withoutCursor input
  (text, (cursor? input).getD (size text))

end SchemaAssist.Text

import Mathlib.Algebra.Group.Nat.Even
import Mathlib.Data.List.DropRight
import SchemaAssist.Dialect.Builtin
import SchemaAssist.Proofs.Token.Start

/-! # Where quoted text ends

A literal is closed in one of two ways: by a quote, which an odd number of backslashes in front of
it may hide, or by a sign of its own that nothing hides. It ends right behind the first place in its
body where it is closed, and with the text if there is none.
-/
namespace SchemaAssist
open Text Token

/-- What closes a literal. -/
inductive Closing where
  | quote (quote : Char) (escapes : Bool)
  | sign (sign : List Char)

namespace Closing

/-- The characters that close the literal. -/
def chars : Closing → List Char
  | quote q _ => [q]
  | sign s => s

/-- The literal is closed by the start of `rest`, with `inside` in front of it in the body. -/
def ClosesAt : Closing → List Char → List Char → Prop
  | quote q escapes, inside, rest =>
    rest.head? = some q ∧ (escapes = true → Even (inside.rtakeWhile (· = '\\')).length)
  | sign s, _, rest => s <+: rest

variable {k : Closing} {u v : List Char}

/-- Whether the next character is hidden, behind the part of a body that was read. -/
def hidden (escapes : Bool) (u : List Char) : Bool :=
  escapes && !decide (Even (u.rtakeWhile (· = '\\')).length)

end Closing

/-! ## Openers -/

variable {d : Dialect} {text : String} {t : Token} {before body : List Char}

end SchemaAssist

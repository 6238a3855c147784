import SchemaAssist.Text.Ascii
import SchemaAssist.Text.Search
import SchemaAssist.Dialect.Basic
import SchemaAssist.Token.Kind

/-! # How far a token reaches

Each rule says how many of the characters after an opening belong to the token. Literals and block
comments that are never closed reach to the end of the text.
-/
namespace SchemaAssist.Token

def runLength (p : Char → Bool) (cs : List Char) : Nat := (cs.takeWhile p).length

def wordLength (cs : List Char) : Nat := runLength Text.isWordChar cs

/-- Length through the closing quote. With `escapes`, a backslash hides the character after it;
`hidden` says that the next character is so hidden. -/
def literalLength (quote : Char) (escapes : Bool) (hidden : Bool) : List Char → Nat
  | [] => 0
  | c :: rest =>
    if c = quote && !hidden then 1
    else 1 + literalLength quote escapes (escapes && !hidden && c = '\\') rest

def lengthThrough (terminator : List Char) : List Char → Nat
  | [] => 0
  | c :: rest =>
    if terminator.isPrefixOf (c :: rest) then terminator.length
    else 1 + lengthThrough terminator rest

/-- Length through the sign that closes a comment, inside so many comments. -/
def commentLength (outer : Nat) : List Char → Nat
  | [] => 0
  | '*' :: '/' :: rest =>
    match outer with
    | 0 => 2
    | n + 1 => 2 + commentLength n rest
  | '/' :: '*' :: rest => 2 + commentLength (outer + 1) rest
  | _ :: rest => 1 + commentLength outer rest

def lineLength (cs : List Char) : Nat := runLength (· ≠ '\n') cs

/-- Length of digits with one dot among them at most. -/
def mantissaLength (sawDot : Bool) : List Char → Nat
  | [] => 0
  | c :: rest =>
    if c = '.' then if sawDot then 0 else 1 + mantissaLength true rest
    else if c.isDigit then 1 + mantissaLength sawDot rest
    else 0

/-- Length of an exponent, whose digits may be missing. -/
def exponentLength : List Char → Nat
  | [] => 0
  | e :: rest =>
    if e = 'e' || e = 'E' then
      match rest with
      | [] => 1
      | s :: digits =>
        if s = '+' || s = '-' then 2 + runLength Char.isDigit digits
        else 1 + runLength Char.isDigit rest
    else 0

def numberLength (sawDot : Bool) (cs : List Char) : Nat :=
  let n := mantissaLength sawDot cs
  n + exponentLength (cs.drop n)

/-- Length of a run of digits, and of a closing quote if there is one. -/
def digitsLength (p : Char → Bool) (quote : Char) (cs : List Char) : Nat :=
  let n := runLength p cs
  if (cs.drop n).head? = some quote then n + 1 else n

/-- Length of the letters and digits of a character set name before a quote, two at least. -/
def charSetLength? (cs : List Char) : Option Nat :=
  let n := runLength Char.isAlphanum cs
  if 1 < n && (cs.drop n).head? = some '\x27' then some n else none

/-- Length of a name or quoted text after the sign of a special variable. -/
def variableLength : List Char → Nat
  | [] => 0
  | c :: rest =>
    if c = '\x27' || c = '"' || c = '\x60' then 1 + literalLength c false false rest
    else wordLength (c :: rest)

end SchemaAssist.Token

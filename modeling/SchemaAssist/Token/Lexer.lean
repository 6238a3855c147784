import SchemaAssist.Token.Extent

/-! # Tokens as runs of characters

The rules of the scanner told on characters: each gives the kind of a token and how many characters
after the first one belong to it. Any character outside ASCII is a token by itself, but for those in
literals and comments.

The text of a token depends on what follows it and on the one character before it. The lexemes of a
text, put one after the other, are the text.
-/
namespace SchemaAssist
namespace Token

/-- The kind of a word that is no part of a qualified name, or an identifier in one. -/
def wordKind (d : Dialect) (before : Option Char) (word after : List Char) : TokenKind :=
  if after.head? = some '.' || before = some '.' then .identifier
  else ((d.classify (String.ofList word)).map TokenKind.ofClass).getD .identifier

def scanWord (d : Dialect) (before : Option Char) (c : Char) (rest : List Char) :
    TokenKind × Nat :=
  let n := wordLength rest
  (wordKind d before (c :: rest.take n) (rest.drop n), n)

/-- Strings, bit strings and hexadecimal numbers that begin with a letter or an underscore. A `q`
before a quote without a delimiter is a word. -/
def scanMarked? (d : Dialect) (before : Option Char) (c : Char) (rest : List Char) :
    Option (TokenKind × Nat) :=
  match rest with
  | [] => none
  | q :: body =>
    if (c = 'e' || c = 'E') && q = '\x27' then
      some (.string, 1 + literalLength '\x27' true false body)
    else if (c = 'n' || c = 'N') && d.charSetCasts && q = '\x27' then
      some (.string, 1 + literalLength '\x27' d.backslashEscapes false body)
    else if c = '_' && d.charSetCasts then
      (charSetLength? rest).map fun n =>
        (.string, n + 1 + literalLength '\x27' d.backslashEscapes false (rest.drop (n + 1)))
    else if (c = 'q' || c = 'Q') && d.plsqlQuotingMechanism && q = '\x27' then
      match body with
      | [] => some (scanWord d before c rest)
      | delimiter :: quoted =>
        if isSpace delimiter then some (scanWord d before c rest)
        else some (.string, 2 + lengthThrough [closing delimiter, '\x27'] quoted)
    else if (c = 'b' || c = 'B') && (q = '\x27' || q = '"') then
      if d.treatBitsAsBytes then some (.bytes, 1 + literalLength q d.backslashEscapes false body)
      else some (.bits, 1 + digitsLength isBinaryDigit q body)
    else if (c = 'x' || c = 'X') && q = '\x27' then
      some (.number, 1 + digitsLength isHexDigit '\x27' body)
    else none

/-- Numbers and unquoted bit strings. A dot starts a number only if no word ends before it. -/
def scanNumber? (d : Dialect) (before : Option Char) (c : Char) (rest : List Char) :
    Option (TokenKind × Nat) :=
  if c = '0' && d.unquotedBitLiterals && rest.head? = some 'b' then
    some (.bits, 1 + runLength isBinaryDigit (rest.drop 1))
  else if c = '0' && (rest.head? = some 'x' || rest.head? = some 'X') then
    some (.number, 1 + runLength isHexDigit (rest.drop 1))
  else if c = '.' then
    if (rest.head?.any Char.isDigit) && !(before.any Text.isWordChar) then
      some (.number, numberLength true rest)
    else some (.dot, 0)
  else if c.isDigit then some (.number, numberLength false rest)
  else none

def scanQuoted? (d : Dialect) (c : Char) (rest : List Char) : Option (TokenKind × Nat) :=
  if c = '$' && d.doubleDollarQuotedStrings && rest.head? = some '$' then
    some (.string, 1 + lengthThrough ['$', '$'] (rest.drop 1))
  else if c = '\x27' then some (.string, literalLength c d.backslashEscapes false rest)
  else if c = '"' && d.doubleQuotedStrings then
    some (.string, literalLength c d.backslashEscapes false rest)
  else if c = '#' && d.hashComments then some (.lineComment, lineLength rest)
  else if c = '/' && d.slashComments && rest.head? = some '/' then
    some (.lineComment, lineLength rest)
  else if c = '-' && rest.head? = some '-' &&
      (!d.spaceAfterDashes || (rest.drop 1).head? = some ' ') then
    some (.lineComment, lineLength rest)
  else if c = '/' && rest.head? = some '*' then
    some (.blockComment, 1 + commentLength 0 (rest.drop 1))
  else none

/-- The kind of the token that starts with `c`, and how many characters after `c` belong to it.
The character sets of the dialect count only where no literal and no word begins. -/
def scan (d : Dialect) (before : Option Char) (c : Char) (rest : List Char) : TokenKind × Nat :=
  if isSpace c then (.whitespace, runLength isSpace rest)
  else if let some found := scanQuoted? d c rest then found
  else if let some found := scanMarked? d before c rest then found
  else if let some found := scanNumber? d before c rest then found
  else if isAscii c && d.isIdentifierQuote c then
    (.quotedIdentifier, literalLength c false false rest)
  else if Text.isWordChar c then scanWord d before c rest
  else if isAscii c && d.isOperatorChar c then
    (.operator, runLength (fun c => isAscii c && d.isOperatorChar c) rest)
  else if isAscii c && d.isSpecialVarChar c then
    if rest.head? = some c then (.specialVar, 1 + variableLength (rest.drop 1))
    else (.specialVar, variableLength rest)
  else ((signKind? c).getD .unknown, 0)

end Token

structure Lexeme where
  kind : TokenKind
  chars : List Char
  deriving Repr, DecidableEq

namespace Lexeme

/-- The lexemes of a text that follows the given character. -/
def all (d : Dialect) (before : Option Char) : List Char → List Lexeme
  | [] => []
  | c :: rest =>
    let found := Token.scan d before c rest
    let chars := c :: rest.take found.2
    ⟨found.1, chars⟩ :: all d chars.getLast? (rest.drop found.2)
termination_by cs => cs.length
decreasing_by rw [List.length_drop, List.length_cons]; omega

/-- The lexemes put together are the text. -/
theorem flatMap_chars_all (d : Dialect) (before : Option Char) (cs : List Char) :
    (all d before cs).flatMap (·.chars) = cs := by
  fun_induction all d before cs with
  | case1 => rfl
  | case2 before c rest found chars ih =>
    rw [List.flatMap_cons, ih]
    simp [chars]

/-- Spans of lexemes that stand side by side from an offset on. -/
def spans (start : Nat) : List Lexeme → List Token
  | [] => []
  | x :: rest =>
    ⟨x.kind, start, start + Text.byteLength x.chars⟩ ::
      spans (start + Text.byteLength x.chars) rest

end Lexeme

end SchemaAssist

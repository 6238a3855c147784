import SchemaAssist.Text.Ascii
import SchemaAssist.Text.Search
import SchemaAssist.Dialect.Basic
import SchemaAssist.Token.Kind

/-! # Scanning

A scan goes over the bytes of a text from one token to the next. Rules are tried in a fixed order at
each position, since several literals begin alike: `b'01'` and a word beginning with `b`, `0x1F` and
a number, `_utf8'a'` and an identifier.

A byte is read as the character with its number, so the bytes of a character outside ASCII never
read as ASCII ones. Where a rule needs whole characters, it cuts the text at its position. There is
no result where such a cut falls inside a character, and none where a token does not move on.
-/
namespace SchemaAssist
open Token

structure Source where
  chars : List Char
  bytes : Array UInt8
  bytes_eq : bytes.toList = Text.utf8 chars

namespace Source

def of (text : String) : Source := ⟨text.toList, (Text.utf8 text.toList).toArray, rfl⟩

variable (s : Source)

def peek (i : Nat) : Option Char := s.bytes[i]?.map Char.ofUInt8

def hasAt (i : Nat) (c : Char) : Bool := s.peek i = some c

def eatWhile (p : Char → Bool) (i : Nat) : Nat :=
  if h : i < s.bytes.size then
    if p (Char.ofUInt8 s.bytes[i]) then eatWhile p (i + 1) else i
  else i
termination_by s.bytes.size - i

/-- After the closing quote. With `escapes`, a backslash hides the byte after it; `hidden` says that
the next byte is so hidden. -/
def readLiteral (quote : Char) (escapes hidden : Bool) (i : Nat) : Nat :=
  if h : i < s.bytes.size then
    let c := Char.ofUInt8 s.bytes[i]
    if c = quote && !hidden then i + 1
    else readLiteral quote escapes (escapes && !hidden && c = '\\') (i + 1)
  else i
termination_by s.bytes.size - i

/-- After the first occurrence of a terminator, or at the end. -/
def readThrough (terminator : List Char) (i : Nat) : Option Nat :=
  (Text.splitAt? i s.chars).map fun cut =>
    match Text.findChars? terminator cut.2 with
    | some offset => i + offset + Text.byteLength terminator
    | none => s.bytes.size

def readLine (i : Nat) : Nat := s.eatWhile (· ≠ '\n') i

/-- After the sign that closes the outermost of `depth` comments. A sign that closes none has no
result. -/
def readComment (depth i : Nat) : Option Nat :=
  if h : i < s.bytes.size then
    if s.hasAt i '*' && s.hasAt (i + 1) '/' then
      match depth with
      | 0 => none
      | 1 => some (i + 2)
      | n + 2 => readComment (n + 1) (i + 2)
    else if s.hasAt i '/' && s.hasAt (i + 1) '*' then readComment (depth + 1) (i + 2)
    else readComment depth (i + 1)
  else some i
termination_by s.bytes.size - i

/-- Length of the letters and digits before the quote of a text in a given character set. -/
def charSetLength? (i : Nat) : Option Nat :=
  let n := s.eatWhile Char.isAlphanum i - i
  if 1 < n && s.hasAt (i + n) '\x27' then some n else none

/-- The delimiter at a position, if there is one and it is no blank. -/
def delimiter? (i : Nat) : Option Char :=
  ((Text.splitAt? i s.chars).bind (·.2.head?)).filter fun c => !isSpace c

/-- After a run of digits, and after a closing quote if there is one. -/
def readDigits (p : Char → Bool) (quote : Char) (i : Nat) : Nat :=
  let stop := s.eatWhile p i
  if s.hasAt stop quote then stop + 1 else stop

/-- After digits with one dot among them at most. -/
def readMantissa (sawDot : Bool) (i : Nat) : Nat :=
  if h : i < s.bytes.size then
    let c := Char.ofUInt8 s.bytes[i]
    if c = '.' then if sawDot then i else readMantissa true (i + 1)
    else if c.isDigit then readMantissa sawDot (i + 1)
    else i
  else i
termination_by s.bytes.size - i

/-- After a number, whose exponent may lack digits. -/
def readNumber (sawDot : Bool) (i : Nat) : Nat :=
  let stop := s.readMantissa sawDot i
  if s.hasAt stop 'e' || s.hasAt stop 'E' then
    if s.hasAt (stop + 1) '+' || s.hasAt (stop + 1) '-' then s.eatWhile Char.isDigit (stop + 2)
    else s.eatWhile Char.isDigit (stop + 1)
  else stop

def readVariable (i : Nat) : Nat :=
  match s.peek i with
  | some c =>
    if c = '\x27' || c = '"' || c = '\x60' then s.readLiteral c false false (i + 1)
    else s.eatWhile Text.isWordChar i
  | none => i

/-- The word that starts at `start`: an identifier beside a dot, else what the dialect says. -/
def readWord (d : Dialect) (start : Nat) : Option (TokenKind × Nat) :=
  let stop := s.eatWhile Text.isWordChar (start + 1)
  if s.hasAt stop '.' || (decide (0 < start) && s.hasAt (start - 1) '.') then some (.identifier, stop)
  else
    (Text.sliceChars? s.chars start stop).map fun word =>
      (((d.classify (String.ofList word)).map TokenKind.ofClass).getD .identifier, stop)

def followsWord (i : Nat) : Bool := decide (0 < i) && (s.peek (i - 1)).any Text.isWordChar

/-- A whole character that no rule accepts. -/
def readUnknown (start : Nat) : Option (TokenKind × Nat) :=
  (Text.splitAt? start s.chars).map fun cut =>
    (.unknown, start + (cut.2.head?.map Char.utf8Size).getD 1)

/-- Strings and comments that begin with a sign: their kind and end. -/
def scanQuoted? (d : Dialect) (start : Nat) (c : Char) : Option (Option (TokenKind × Nat)) :=
  let i := start + 1
  if c = '$' && d.doubleDollarQuotedStrings && s.hasAt i '$' then
    some ((s.readThrough ['$', '$'] (i + 1)).map (.string, ·))
  else if c = '\x27' then some (some (.string, s.readLiteral c d.backslashEscapes false i))
  else if c = '"' && d.doubleQuotedStrings then
    some (some (.string, s.readLiteral c d.backslashEscapes false i))
  else if c = '#' && d.hashComments then some (some (.lineComment, s.readLine i))
  else if c = '/' && d.slashComments && s.hasAt i '/' then some (some (.lineComment, s.readLine i))
  else if c = '-' && s.hasAt i '-' && (!d.spaceAfterDashes || s.hasAt (i + 1) ' ') then
    some (some (.lineComment, s.readLine i))
  else if c = '/' && s.hasAt i '*' then some ((s.readComment 1 (i + 1)).map (.blockComment, ·))
  else none

/-- Strings, bit strings and hexadecimal numbers that begin with a letter or an underscore. A `q`
before a quote without a delimiter is a word. -/
def scanMarked? (d : Dialect) (start : Nat) (c : Char) : Option (Option (TokenKind × Nat)) :=
  let i := start + 1
  if (c = 'e' || c = 'E') && s.hasAt i '\x27' then
    some (some (.string, s.readLiteral '\x27' true false (i + 1)))
  else if (c = 'n' || c = 'N') && d.charSetCasts && s.hasAt i '\x27' then
    some (some (.string, s.readLiteral '\x27' d.backslashEscapes false (i + 1)))
  else if c = '_' && d.charSetCasts && (s.charSetLength? i).isSome then
    let n := (s.charSetLength? i).getD 0
    some (some (.string, s.readLiteral '\x27' d.backslashEscapes false (i + n + 1)))
  else if (c = 'q' || c = 'Q') && d.plsqlQuotingMechanism && s.hasAt i '\x27' then
    match s.delimiter? (i + 1) with
    | some opener => some ((s.readThrough [closing opener, '\x27'] (i + 1 + opener.utf8Size)).map
        (.string, ·))
    | none => some (s.readWord d start)
  else if (c = 'b' || c = 'B') && (s.hasAt i '\x27' || s.hasAt i '"') then
    let quote := (s.peek i).getD '\x27'
    if d.treatBitsAsBytes then
      some (some (.bytes, s.readLiteral quote d.backslashEscapes false (i + 1)))
    else some (some (.bits, s.readDigits isBinaryDigit quote (i + 1)))
  else if (c = 'x' || c = 'X') && s.hasAt i '\x27' then
    some (some (.number, s.readDigits isHexDigit '\x27' (i + 1)))
  else none

/-- Numbers, unquoted bit strings and dots. A dot starts a number only if no word ends before it. -/
def scanNumber? (d : Dialect) (start : Nat) (c : Char) : Option (TokenKind × Nat) :=
  let i := start + 1
  if c = '0' && d.unquotedBitLiterals && s.hasAt i 'b' then
    some (.bits, s.eatWhile isBinaryDigit (i + 1))
  else if c = '0' && (s.hasAt i 'x' || s.hasAt i 'X') then
    some (.number, s.eatWhile isHexDigit (i + 1))
  else if c = '.' then
    if (s.peek i).any Char.isDigit && !s.followsWord start then some (.number, s.readNumber true i)
    else some (.dot, i)
  else if c.isDigit then some (.number, s.readNumber false i)
  else none

/-- Kind and end of the token whose first byte is `c`. The character sets of the dialect count only
where no literal and no word begins. -/
def scan (d : Dialect) (start : Nat) (c : Char) : Option (TokenKind × Nat) :=
  let i := start + 1
  if isSpace c then some (.whitespace, s.eatWhile isSpace i)
  else if let some found := s.scanQuoted? d start c then found
  else if let some found := s.scanMarked? d start c then found
  else if let some found := s.scanNumber? d start c then some found
  else if isAscii c && d.isIdentifierQuote c then
    some (.quotedIdentifier, s.readLiteral c false false i)
  else if Text.isWordChar c then s.readWord d start
  else if isAscii c && d.isOperatorChar c then
    some (.operator, s.eatWhile (fun c => isAscii c && d.isOperatorChar c) i)
  else if isAscii c && d.isSpecialVarChar c then
    some (.specialVar, s.readVariable (if s.hasAt i c then i + 1 else i))
  else
    match signKind? c with
    | some kind => some (kind, i)
    | none => s.readUnknown start

def tokensFrom (d : Dialect) (start : Nat) : Option (List Token) :=
  if h : start < s.bytes.size then
    (s.scan d start (Char.ofUInt8 s.bytes[start])).bind fun found =>
      if _h : start < found.2 then
        (tokensFrom d found.2).map (⟨found.1, start, found.2⟩ :: ·)
      else none
  else some []
termination_by s.bytes.size - start

end Source

/-- The tokens of a text; none if the scan fails. -/
def tokenize (d : Dialect) (text : String) : List Token :=
  ((Source.of text).tokensFrom d 0).getD []

end SchemaAssist

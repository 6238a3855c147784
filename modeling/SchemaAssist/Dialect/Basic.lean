import SchemaAssist.Text.Ascii
import SchemaAssist.Text.Blank
import SchemaAssist.Dialect.Spec
import SchemaAssist.Dialect.Word

/-! # Dialects

What a tokenizer has to know of a dialect: the class of its words, without regard to case, the
switches of its literals and comments, and the characters with a role of their own.
-/
namespace SchemaAssist

structure Dialect where
  name : String
  words : WordTable
  backslashEscapes : Bool
  hashComments : Bool
  slashComments : Bool
  spaceAfterDashes : Bool
  doubleQuotedStrings : Bool
  doubleDollarQuotedStrings : Bool
  unquotedBitLiterals : Bool
  treatBitsAsBytes : Bool
  charSetCasts : Bool
  plsqlQuotingMechanism : Bool
  operatorChars : String
  specialVarChars : String
  identifierQuoteChars : String
  deriving DecidableEq

namespace Dialect

def commonKeywords : String := "set unique pk auto asc desc"

def commonTypes : String :=
  "array binary bit boolean char character clob date decimal double float int integer " ++
  "interval large national nchar nclob numeric object precision real smallint time timestamp " ++
  "varchar varying"

/-- Words whose class is the same everywhere, unless a list claims them. -/
def fixedWords : List (String × WordClass) :=
  [("true", .bool), ("false", .bool), ("null", .null), ("unknown", .null), ("not", .not),
   ("default", .default)]

def classifyAll (cls : WordClass) (list : String) (t : WordTable) : WordTable :=
  (Text.words list).foldl (fun t word => t.insert (Text.lowerAscii word) cls) t

/-- The fixed words, then builtin names, keywords and types, each list over the ones before. -/
def wordTable (keywords types builtin : String) : WordTable :=
  let fixed := fixedWords.foldl (fun t w => t.insert w.1 w.2) .empty
  classifyAll .type types (classifyAll .keyword keywords (classifyAll .builtin builtin fixed))

/-- The dialect of a descriptor, standard where the descriptor is silent. -/
def define (s : Spec) : Dialect where
  name := s.name
  words := wordTable (s.keywords.getD commonKeywords) (s.types.getD commonTypes) (s.builtin.getD "")
  backslashEscapes := s.backslashEscapes.getD false
  hashComments := s.hashComments.getD false
  slashComments := s.slashComments.getD false
  spaceAfterDashes := s.spaceAfterDashes.getD false
  doubleQuotedStrings := s.doubleQuotedStrings.getD false
  doubleDollarQuotedStrings := s.doubleDollarQuotedStrings.getD false
  unquotedBitLiterals := s.unquotedBitLiterals.getD false
  treatBitsAsBytes := s.treatBitsAsBytes.getD false
  charSetCasts := s.charSetCasts.getD false
  plsqlQuotingMechanism := s.plsqlQuotingMechanism.getD false
  operatorChars := s.operatorChars.getD "*+-%<>!=&|~^/"
  specialVarChars := s.specialVar.getD "?"
  identifierQuoteChars := s.identifierQuotes.getD "\""

/-- The class of a word in any case. -/
def classify (d : Dialect) (word : String) : Option WordClass :=
  d.words.lookup (Text.lowerAscii word)

def wordsOf (d : Dialect) (cls : WordClass) : List String :=
  (d.words.entries.filter fun e => e.2 = cls).map (·.1)

def isOperatorChar (d : Dialect) (c : Char) : Bool := d.operatorChars.toList.contains c

def isSpecialVarChar (d : Dialect) (c : Char) : Bool := d.specialVarChars.toList.contains c

def isIdentifierQuote (d : Dialect) (c : Char) : Bool := d.identifierQuoteChars.toList.contains c

end Dialect
end SchemaAssist

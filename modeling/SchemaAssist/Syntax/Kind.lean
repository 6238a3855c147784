/-! # Node kinds

The kinds of nodes a parser of table schemas gives:

    SourceFile
      TableBlock
        Table TableName TableOptions? BraceOpen
        Column*
          ColumnName DataType (with Precision?) Nullable? Options? ColumnComment?
        IndexBlock?
          Indexes BraceOpen
          Index*
            IndexColumnBlock (with IndexColumnName*) IndexType?
          BraceClose
        BraceClose

Any node may have an `Error` among its children, where the text did not fit. It may be empty.
-/
namespace SchemaAssist.Syntax

inductive Kind where
  | sourceFile
  | tableBlock
  | table
  | tableName
  | tableOptions
  | column
  | columnName
  | dataType
  | precision
  | nullable
  | options
  | columnComment
  | indexBlock
  | indexes
  | index
  | indexColumnBlock
  | indexColumnName
  | indexType
  | identifier
  | quotedIdentifier
  | keyword
  | type
  | number
  | string
  | lineComment
  | blockComment
  | parenOpen
  | parenClose
  | braceOpen
  | braceClose
  | bracketOpen
  | bracketClose
  | punctuation
  | error
  deriving Repr, DecidableEq

namespace Kind

def all : List Kind :=
  [.sourceFile, .tableBlock, .table, .tableName, .tableOptions, .column, .columnName, .dataType,
   .precision, .nullable, .options, .columnComment, .indexBlock, .indexes, .index,
   .indexColumnBlock, .indexColumnName, .indexType, .identifier, .quotedIdentifier, .keyword,
   .type, .number, .string, .lineComment, .blockComment, .parenOpen, .parenClose, .braceOpen,
   .braceClose, .bracketOpen, .bracketClose, .punctuation, .error]

/-- The name a kind is written by in records. -/
def label : Kind → String
  | .sourceFile => "SourceFile"
  | .tableBlock => "TableBlock"
  | .table => "Table"
  | .tableName => "TableName"
  | .tableOptions => "TableOptions"
  | .column => "Column"
  | .columnName => "ColumnName"
  | .dataType => "DataType"
  | .precision => "Precision"
  | .nullable => "Nullable"
  | .options => "Options"
  | .columnComment => "ColumnComment"
  | .indexBlock => "IndexBlock"
  | .indexes => "Indexes"
  | .index => "Index"
  | .indexColumnBlock => "IndexColumnBlock"
  | .indexColumnName => "IndexColumnName"
  | .indexType => "IndexType"
  | .identifier => "Identifier"
  | .quotedIdentifier => "QuotedIdentifier"
  | .keyword => "Keyword"
  | .type => "Type"
  | .number => "Number"
  | .string => "String"
  | .lineComment => "LineComment"
  | .blockComment => "BlockComment"
  | .parenOpen => "ParenOpen"
  | .parenClose => "ParenClose"
  | .braceOpen => "BraceOpen"
  | .braceClose => "BraceClose"
  | .bracketOpen => "BracketOpen"
  | .bracketClose => "BracketClose"
  | .punctuation => "Punctuation"
  | .error => "Error"

/-- The name of a kind in the grammar: brackets go by their sign, errors by a warning sign. -/
def name : Kind → String
  | .parenOpen => "("
  | .parenClose => ")"
  | .braceOpen => "\x7b"
  | .braceClose => "\x7d"
  | .bracketOpen => "["
  | .bracketClose => "]"
  | .error => "⚠"
  | k => k.label

/-- Kinds in which nothing is ever suggested. -/
def isLiteralOrComment : Kind → Bool
  | .string | .lineComment | .blockComment | .columnComment => true
  | _ => false

end Kind
end SchemaAssist.Syntax

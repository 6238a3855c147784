import SchemaAssist.Completion.Context
import SchemaAssist.Completion.Vocabulary

/-! # Resolving suggestions

What each context suggests, and the text it replaces: the error node, the word before the cursor,
or the column name that ends at it.
-/
namespace SchemaAssist.Completion
open Syntax

/-- Start of the word that ends at an offset; the offset itself where no word ends. -/
def wordStart (text : String) (offset : Nat) : Nat :=
  let offset := min offset (Text.size text)
  match Text.splitAt? offset text.toList with
  | none => offset
  | some (before, _) => offset - (before.reverse.takeWhile Text.isWordChar).length

/-- Names of the columns declared directly in a table, empty ones left out. -/
def tableColumns (text : String) (t : Tree) (table : Nat) : WordSet :=
  .ofList ((((t.childrenOf table .column).filterMap fun c => t.child? c .columnName).map
    (t.text text)).filter (!·.isEmpty))

def indexColumns (text : String) (t : Tree) (block : Nat) : List String :=
  (t.childrenOf block .indexColumnName).map (t.text text)

/-- Start of the last listed name that ends at the offset, or the offset. -/
def indexNameStart (t : Tree) (block offset : Nat) : Nat :=
  (t.childrenOf block .indexColumnName).foldl
    (fun pos i => if t.stop i = offset then t.start i else pos) offset

/-- The priority of the first column; later ones count down to 0. -/
def columnPriority : Nat := 99

/-- Adds a column at a priority. The next one has the priority below if this one is new. -/
def pushColumn (s : Result × Nat) (name : String) : Result × Nat :=
  let it := Item.keyword name s.2
  (s.1.push it, if s.1.admits it then s.2 - 1 else s.2)

/-- Columns of the table that the index does not list yet. -/
def columnResult (text : String) (t : Tree) (block table offset : Nat) : Result :=
  let names := (tableColumns text t table).exclude (indexColumns text t block)
  (names.words.foldl pushColumn (.new (indexNameStart t block offset), columnPriority)).1

/-- Data types, after the snippets for them. -/
def dataTypeResult (d : Dialect) (upperCase : Bool) (replaceFrom : Nat) : Result :=
  ((Result.new replaceFrom).extend (snippetItems dataTypeSnippets)).extend
    (wordItems upperCase (dataTypeSet d))

def indexTypeResult (upperCase : Bool) (replaceFrom : Nat) (hasUnique hasMethod : Bool) :
    Option Result :=
  if hasUnique && hasMethod then none
  else
    let written := (if hasUnique then [uniqueWord] else []) ++ if hasMethod then indexMethods else []
    some ((Result.new replaceFrom).extend (wordItems upperCase (indexTypeSet.exclude written)))

/-- What a context suggests at an offset within the text. -/
def suggest (d : Dialect) (upperCase : Bool) (text : String) (t : Tree) (offset : Nat) :
    Context → Option Result
  | .topLevel e => some ((Result.new (t.start e)).extend (snippetItems scriptSnippets))
  | .dataType e => some (dataTypeResult d upperCase (t.start e))
  | .options e => some ((Result.new (t.start e)).extend (wordItems upperCase optionSet))
  | .indexType _ replaceFrom hasUnique hasMethod =>
    indexTypeResult upperCase replaceFrom hasUnique hasMethod
  | .indexColumns block table => some (columnResult text t block table offset)
  | .column _ =>
    some ((dataTypeResult d upperCase (wordStart text offset)).extend
      (wordItems upperCase (dialectSet d)))
  | .tableBody _ =>
    some ((Result.new (wordStart text offset)).extend (snippetItems tableSnippets))
  | .script => some ((Result.new (wordStart text offset)).extend (snippetItems scriptSnippets))

/-- The suggestions at an offset; past the end, those at the end. -/
def resolve (d : Dialect) (upperCase : Bool) (text : String) (t : Tree) (offset : Nat) :
    Option Result :=
  let offset := min offset (Text.size text)
  (detect text t offset).bind (suggest d upperCase text t offset)

end SchemaAssist.Completion

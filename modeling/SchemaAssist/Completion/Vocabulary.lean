import SchemaAssist.Dialect.Basic
import SchemaAssist.Completion.Item

/-! # Vocabularies

The words suggested in each place: fixed lists, and what a dialect adds to them. Words rank after
all snippets.
-/
namespace SchemaAssist.Completion

/-- Words in order, each once. -/
structure WordSet where
  words : List String
  nodup : words.Nodup
  deriving DecidableEq

namespace WordSet

def empty : WordSet := ⟨[], List.nodup_nil⟩

/-- Appends a word that is not present. -/
def add (s : WordSet) (word : String) : WordSet :=
  if h : word ∈ s.words then s
  else ⟨s.words ++ [word], by
    rw [List.nodup_append]
    refine ⟨s.nodup, by simp, ?_⟩
    intro a ha b hb hab
    rw [List.mem_singleton] at hb
    exact h (hb ▸ hab ▸ ha)⟩

def extend (s : WordSet) (words : List String) : WordSet := words.foldl add s

def ofList (words : List String) : WordSet := empty.extend words

def exclude (s : WordSet) (words : List String) : WordSet :=
  ⟨s.words.filter fun w => !words.contains w, s.nodup.filter _⟩

def size (s : WordSet) : Nat := s.words.length

theorem mem_add {s : WordSet} {word w : String} : w ∈ (s.add word).words ↔ w ∈ s.words ∨ w = word := by
  unfold add
  split
  · next h => exact ⟨Or.inl, fun h' => h'.elim id fun e => e ▸ h⟩
  · simp

theorem mem_extend {s : WordSet} {words : List String} {w : String} :
    w ∈ (s.extend words).words ↔ w ∈ s.words ∨ w ∈ words := by
  induction words generalizing s with
  | nil => simp [extend]
  | cons x rest ih =>
    have := ih (s := s.add x)
    simp only [extend, List.foldl_cons, List.mem_cons] at this ⊢
    rw [this, mem_add, or_assoc]

theorem mem_ofList {words : List String} {w : String} : w ∈ (ofList words).words ↔ w ∈ words :=
  mem_extend.trans (or_iff_right List.not_mem_nil)

theorem mem_exclude {s : WordSet} {words : List String} {w : String} :
    w ∈ (s.exclude words).words ↔ w ∈ s.words ∧ w ∉ words := by
  simp [exclude]

end WordSet

/-- Data types of every dialect. -/
def dataTypes : List String :=
  ["integer", "tinyint", "smallint", "mediumint", "bigint", "numeric", "float", "double", "real",
   "bit", "char", "text", "tinytext", "mediumtext", "longtext", "date", "datetime", "timestamp",
   "time", "year", "enum", "set", "binary", "varbinary", "blob", "tinyblob", "mediumblob",
   "longblob", "json", "bool", "boolean", "unsigned", "zerofill"]

def optionWords : List String :=
  ["pk", "auto", "not", "null", "unique", "default", "asc", "desc", "true", "false"]

def indexMethods : List String := ["btree", "hash"]

def uniqueWord : String := "unique"

def optionSet : WordSet := .ofList optionWords

def indexTypeSet : WordSet := (WordSet.ofList indexMethods).extend [uniqueWord]

/-- The data types of every dialect, then those of this one. -/
def dataTypeSet (d : Dialect) : WordSet := (WordSet.ofList dataTypes).extend (d.wordsOf .type)

/-- All words a dialect classifies. -/
def dialectSet (d : Dialect) : WordSet := .ofList (d.words.entries.map (·.1))

/-- The priority of the first word of a set. -/
def wordPriority : Nat := 100

def wordItems (upperCase : Bool) (s : WordSet) : List Item :=
  s.words.zipIdx.map fun w =>
    .keyword (if upperCase then Text.upperAscii w.1 else w.1) (wordPriority + w.2)

end SchemaAssist.Completion

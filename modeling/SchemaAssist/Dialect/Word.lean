/-! # Classified words

A table from words to the class each one has in a dialect, kept in the order of the words. Giving a
word a class replaces the class it had.
-/
namespace SchemaAssist

inductive WordClass where
  | keyword
  | type
  | builtin
  | bool
  | null
  | not
  | default
  deriving Repr, DecidableEq

namespace WordClass

def all : List WordClass := [.keyword, .type, .builtin, .bool, .null, .not, .default]

def label : WordClass → String
  | .keyword => "Keyword"
  | .type => "Type"
  | .builtin => "Builtin"
  | .bool => "Bool"
  | .null => "Null"
  | .not => "Not"
  | .default => "Default"

end WordClass

structure WordTable where
  entries : List (String × WordClass)
  sorted : entries.Pairwise fun a b => a.1 < b.1
  deriving DecidableEq

namespace WordTable

def empty : WordTable := ⟨[], .nil⟩

/-- Puts a word in its place, over the entry it may have. -/
def insertEntry (word : String) (cls : WordClass) :
    List (String × WordClass) → List (String × WordClass)
  | [] => [(word, cls)]
  | e :: rest =>
    if word < e.1 then (word, cls) :: e :: rest
    else if word = e.1 then (word, cls) :: rest
    else e :: insertEntry word cls rest

theorem mem_insertEntry {word : String} {cls : WordClass} {es : List (String × WordClass)}
    {x : String × WordClass} (h : x ∈ insertEntry word cls es) : x = (word, cls) ∨ x ∈ es := by
  induction es with
  | nil => simpa [insertEntry] using h
  | cons e rest ih =>
    simp only [insertEntry] at h
    split at h
    · simpa using h
    · split at h
      · rcases List.mem_cons.1 h with h | h
        · exact Or.inl h
        · exact Or.inr (List.mem_cons_of_mem _ h)
      · rcases List.mem_cons.1 h with h | h
        · exact Or.inr (h ▸ List.mem_cons_self)
        · exact (ih h).imp_right (List.mem_cons_of_mem _)

theorem sorted_insertEntry {es : List (String × WordClass)} (word : String) (cls : WordClass)
    (h : es.Pairwise fun a b => a.1 < b.1) :
    (insertEntry word cls es).Pairwise fun a b => a.1 < b.1 := by
  induction es with
  | nil => simp [insertEntry]
  | cons e rest ih =>
    obtain ⟨hhead, htail⟩ := List.pairwise_cons.1 h
    simp only [insertEntry]
    split
    · next hlt =>
      refine List.pairwise_cons.2 ⟨fun x hx => ?_, h⟩
      rcases List.mem_cons.1 hx with rfl | hx
      · exact hlt
      · exact String.lt_trans hlt (hhead x hx)
    · next hlt =>
      split
      · next heq => exact List.pairwise_cons.2 ⟨fun x hx => heq ▸ hhead x hx, htail⟩
      · next hne =>
        refine List.pairwise_cons.2 ⟨fun x hx => ?_, ih htail⟩
        rcases mem_insertEntry hx with rfl | hx
        · have := String.not_lt.1 hlt
          grind
        · exact hhead x hx

def insert (t : WordTable) (word : String) (cls : WordClass) : WordTable :=
  ⟨insertEntry word cls t.entries, sorted_insertEntry word cls t.sorted⟩

def lookup (t : WordTable) (word : String) : Option WordClass := t.entries.lookup word

theorem lookup_insertEntry (word other : String) (cls : WordClass)
    (es : List (String × WordClass)) :
    (insertEntry word cls es).lookup other = if other = word then some cls else es.lookup other := by
  induction es with
  | nil => grind [insertEntry]
  | cons e rest ih => grind [insertEntry]

/-- The class given last is the class of the word. -/
theorem lookup_insert (t : WordTable) (word other : String) (cls : WordClass) :
    (t.insert word cls).lookup other = if other = word then some cls else t.lookup other :=
  lookup_insertEntry word other cls t.entries

end WordTable
end SchemaAssist

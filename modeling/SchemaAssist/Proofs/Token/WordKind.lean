import SchemaAssist.Proofs.Token.Pattern
import SchemaAssist.Proofs.Token.Start

/-! # Kinds of words

A word reaches as far as letters, digits and underscores do. Beside a dot it names a part of
something, and elsewhere its kind depends on nothing but its letters, in any case. A descriptor may
list a word more than once and may list words with a class of their own: types go before keywords,
keywords before builtin names, and all lists before the fixed words.
-/
namespace SchemaAssist
open Text Token Computability

namespace Dialect

/-- A word is in a list of words parted by blanks, in any case. -/
def Lists (list word : String) : Prop := ∃ x ∈ Text.words list, sameWord x word = true

instance (list word : String) : Decidable (Lists list word) :=
  inferInstanceAs (Decidable (∃ x ∈ Text.words list, sameWord x word = true))

/-- The class a descriptor gives a word in any case. -/
def Spec.classOf (s : Spec) (word : String) : Option WordClass :=
  if Lists (s.types.getD commonTypes) word then some .type
  else if Lists (s.keywords.getD commonKeywords) word then some .keyword
  else if Lists (s.builtin.getD "") word then some .builtin
  else if lowerAscii word = "true" ∨ lowerAscii word = "false" then some .bool
  else if lowerAscii word = "null" ∨ lowerAscii word = "unknown" then some .null
  else if lowerAscii word = "not" then some .not
  else if lowerAscii word = "default" then some .default
  else none

theorem lookup_foldl_insert (cls : WordClass) (xs : List String) (t : WordTable) (word : String) :
    (xs.foldl (fun t x => t.insert (lowerAscii x) cls) t).lookup (lowerAscii word) =
      if ∃ x ∈ xs, sameWord x word = true then some cls else t.lookup (lowerAscii word) := by
  induction xs generalizing t with
  | nil => simp
  | cons x xs ih =>
    rw [List.foldl_cons, ih, WordTable.lookup_insert]
    by_cases hx : lowerAscii word = lowerAscii x
    · simp [hx, sameWord]
    · have hne : sameWord x word = false := by simpa [sameWord, eq_comm] using hx
      simp [hx, hne]

theorem lookup_classifyAll (cls : WordClass) (list : String) (t : WordTable) (word : String) :
    (classifyAll cls list t).lookup (lowerAscii word) =
      if Lists list word then some cls else t.lookup (lowerAscii word) :=
  lookup_foldl_insert cls (Text.words list) t word

theorem lookup_fixedWords (word : String) :
    (fixedWords.foldl (fun t w => t.insert w.1 w.2) WordTable.empty).lookup word =
      if word = "true" ∨ word = "false" then some .bool
      else if word = "null" ∨ word = "unknown" then some .null
      else if word = "not" then some .not
      else if word = "default" then some .default
      else none := by
  have hempty : WordTable.empty.lookup word = none := rfl
  simp only [fixedWords, List.foldl_cons, List.foldl_nil, WordTable.lookup_insert, hempty]
  grind

theorem classify_define (s : Spec) (word : String) : (define s).classify word = s.classOf word := by
  simp only [classify, define, wordTable, lookup_classifyAll, lookup_fixedWords, Spec.classOf]

end Dialect

namespace Token

/-- A letter or an underscore, then letters, digits and underscores. -/
def plainWords : Language Char := letter (fun c => c = '_' || c.isAlpha) * (letter isWordChar)∗

variable {d : Dialect} {before : Option Char} {c : Char} {rest : List Char} {found : TokenKind × ℕ}

theorem not_isDigit_of_scanNumber? (h : scanNumber? d before c rest = none) :
    c.isDigit = false := by
  unfold scanNumber? at h
  split_ifs at h with _ _ _ _ hdigit
  exact Bool.eq_false_iff.mpr hdigit

theorem mem_plainWords (hc : (c = '_' || c.isAlpha) = true) (rest : List Char) :
    c :: rest.take (wordLength rest) ∈ plainWords := by
  refine cons_mem_letter_mul.mpr ⟨hc, mem_star_letter.mpr fun x hx => ?_⟩
  rw [wordLength, take_runLength] at hx
  exact List.mem_takeWhile_imp hx

theorem any_drop_wordLength (rest : List Char) :
    (rest.drop (wordLength rest)).head?.any isWordChar = false := by
  have hstop := List.head?_dropWhile_not isWordChar rest
  rw [wordLength, drop_runLength]
  cases hrest : (rest.dropWhile isWordChar).head? with
  | none => rfl
  | some x => simpa [hrest] using hstop

theorem FromRule.of_isWord (h : FromRule d before c rest found) (hkind : found.1.isWord = true) :
    (c = '_' || c.isAlpha) = true ∧ found = scanWord d before c rest := by
  cases h with
  | word hmarked hnumber hquote hword =>
    have hdigit := not_isDigit_of_scanNumber? hnumber
    refine ⟨?_, rfl⟩
    simpa [isWordChar, Char.isAlphanum, hdigit] using hword
  | marked hquoted hmarked =>
    cases fromMark_of_scanMarked? hmarked with
    | word hc =>
      refine ⟨?_, rfl⟩
      rcases hc with rfl | rfl <;> rfl
    | _ => cases hkind
  | quoted hspace hquoted =>
    rcases kind_of_scanQuoted? hquoted with h | h | h <;> rw [h] at hkind <;> cases hkind
  | number hquoted hmarked hnumber =>
    rcases kind_of_scanNumber? hnumber with h | h | h <;> rw [h] at hkind <;> cases hkind
  | blank => cases hkind
  | identifier => cases hkind
  | operator => cases hkind
  | specialVar => cases hkind
  | sign =>
    unfold signKind? at hkind
    split_ifs at hkind <;> cases hkind

end Token

/-- A word ends where no more of a word follows. It is an identifier beside a dot, and elsewhere what
the descriptor of the dialect says of it. -/
theorem word_extent (s : Dialect.Spec) (text : String) {t : Token}
    (ht : t ∈ tokenize (.define s) text) (hkind : t.kind.isWord = true) :
    ∃ before word after, text.toList = before ++ word ++ after ∧ byteLength before = t.start ∧
      byteLength (before ++ word) = t.stop ∧ word ∈ plainWords ∧
      after.head?.any isWordChar = false ∧
      t.kind = if before.getLast? = some '.' ∨ after.head? = some '.' then .identifier
        else ((s.classOf (String.ofList word)).map TokenKind.ofClass).getD .identifier := by
  obtain ⟨before, c, rest, n, hscan, htext, hbefore, hstop⟩ := exists_cut_of_mem_tokenize ht
  have hrule := fromRule_scan (.define s) before.getLast? c rest
  rw [hscan] at hrule
  obtain ⟨hc, hfound⟩ := hrule.of_isWord hkind
  obtain ⟨hword, rfl⟩ := Prod.mk.inj hfound
  refine ⟨before, c :: rest.take (wordLength rest), rest.drop (wordLength rest), htext, hbefore,
    hstop, mem_plainWords hc rest, any_drop_wordLength rest, ?_⟩
  rw [hword, ← Dialect.classify_define]
  simp only [wordKind, Bool.or_eq_true, decide_eq_true_eq, or_comm]

/-- A listed word is what its first list says but for the one beside a dot, and a `q` before a quote
is a word where no delimiter follows. -/
theorem word_extent_mixed :
    let s : Dialect.Spec :=
      { Dialect.Spec.named "mixed" with
        types := some "Foo", keywords := some "foo NOT", plsqlQuotingMechanism := some true }
    let text := "a.Foo FOO not Null q' "
    let found (kind : TokenKind) (start stop : ℕ) :=
      ⟨kind, start, stop⟩ ∈ tokenize (.define s) text ∧
        ∃ before word after, text.toList = before ++ word ++ after ∧ byteLength before = start ∧
          byteLength (before ++ word) = stop ∧ word ∈ plainWords ∧
          after.head?.any isWordChar = false ∧
          kind = if before.getLast? = some '.' ∨ after.head? = some '.' then .identifier
            else ((s.classOf (String.ofList word)).map TokenKind.ofClass).getD .identifier
    found .identifier 2 5 ∧ found .type 6 9 ∧ found .keyword 10 13 ∧ found .null 14 18 ∧
      found .identifier 19 20 := by
  intro s text found
  have hqualified : ⟨.identifier, 2, 5⟩ ∈ tokenize (.define s) text := by decide +kernel
  have htype : ⟨.type, 6, 9⟩ ∈ tokenize (.define s) text := by decide +kernel
  have hkeyword : ⟨.keyword, 10, 13⟩ ∈ tokenize (.define s) text := by decide +kernel
  have hnull : ⟨.null, 14, 18⟩ ∈ tokenize (.define s) text := by decide +kernel
  have hquote : ⟨.identifier, 19, 20⟩ ∈ tokenize (.define s) text := by decide +kernel
  exact ⟨⟨hqualified, word_extent s text hqualified rfl⟩, ⟨htype, word_extent s text htype rfl⟩,
    ⟨hkeyword, word_extent s text hkeyword rfl⟩, ⟨hnull, word_extent s text hnull rfl⟩,
    hquote, word_extent s text hquote rfl⟩

end SchemaAssist

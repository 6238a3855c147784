import SchemaAssist.Proofs.Token.Rules

/-! # Words and signs

Text made of words, blanks and five signs is scanned alike in all dialects that give none of these
characters a role of its own. A word is one token where neither a quote nor more of a word follows,
and so is every sign.
-/
namespace SchemaAssist
open Text Token

/-- The comma, parentheses and braces. -/
def Token.isSign (c : Char) : Bool :=
  c = ',' || c = '(' || c = ')' || c = '\x7b' || c = '\x7d'

def Token.isPlain (c : Char) : Bool := isWordChar c || isSign c

/-- Whether no list of characters in a dialect has one of words or signs. -/
def Dialect.sparesPlain (d : Dialect) : Bool :=
  (d.operatorChars.toList ++ d.specialVarChars.toList ++ d.identifierQuoteChars.toList).all fun c =>
    !isPlain c

/-- Whether a word may end before a text: neither a quote nor more of a word comes first. -/
def Token.endsWord (cs : List Char) : Bool :=
  cs.head?.all fun c => !isWordChar c && !(c = '\x27' || c = '"')

/-- The tokens of a text that follows the given character, but for blanks. -/
def Token.solid (d : Dialect) (before : Option Char) (pos : ℕ) (cs : List Char) : List Token :=
  (Lexeme.spans pos (Lexeme.all d before cs)).filter fun t => t.kind ≠ .whitespace

namespace Token

section
variable {d : Dialect} {before : Option Char} {c : Char} {rest w after : List Char}

theorem isWordChar_of_isAlpha (hc : c.isAlpha = true) : isWordChar c = true := by
  simp [isWordChar, Char.isAlphanum, hc]

theorem isDigit_of_isAlpha (hc : c.isAlpha = true) : c.isDigit = false := by
  cases hdigit : c.isDigit with
  | false => rfl
  | true =>
    have hnine : c.toNat ≤ '9'.toNat := of_decide_eq_true (Bool.and_eq_true_iff.mp hdigit).2
    have hletter : 'A'.toNat ≤ c.toNat := by
      rcases Bool.or_eq_true_iff.mp hc with hupper | hlower
      · exact (of_decide_eq_true hupper).1
      · have hle : 'a'.toNat ≤ c.toNat := of_decide_eq_true (Bool.and_eq_true_iff.mp hlower).1
        exact le_trans (by decide) hle
    exact absurd (hletter.trans hnine) (by decide)

theorem ne_of_isWordChar {x : Char} (hc : isWordChar c = true) (hx : isWordChar x = false) :
    c ≠ x := by
  rintro rfl
  simp [hx] at hc

theorem scanQuoted?_of_isWordChar (hc : isWordChar c = true) : scanQuoted? d c rest = none := by
  simp (disch := decide) [scanQuoted?, ne_of_isWordChar hc]

theorem of_sparesPlain (hd : d.sparesPlain = true) (hc : isPlain c = true) :
    d.isOperatorChar c = false ∧ d.isSpecialVarChar c = false ∧ d.isIdentifierQuote c = false := by
  have hnone : ∀ chars : List Char, (chars.all fun x => !isPlain x) = true →
      chars.contains c = false := by
    intro chars hchars
    by_contra hmem
    have hplain := List.all_eq_true.mp hchars c (by simpa using hmem)
    simp [hc] at hplain
  simp only [Dialect.sparesPlain, List.all_append, Bool.and_eq_true] at hd
  exact ⟨hnone _ hd.1.1, hnone _ hd.1.2, hnone _ hd.2⟩

theorem isSpace_of_isWordChar (hc : isWordChar c = true) : isSpace c = false := by
  simp (disch := decide) [isSpace, ne_of_isWordChar hc]

theorem head?_ne_quote (hw : ∀ x ∈ w, isWordChar x = true) (hafter : endsWord after = true) :
    (w ++ after).head? ≠ some '\x27' ∧ (w ++ after).head? ≠ some '"' := by
  cases w with
  | nil =>
    cases after with
    | nil => simp
    | cons x rest => simp_all [endsWord]
  | cons x w =>
    have hx := hw x List.mem_cons_self
    simp (disch := decide) [ne_of_isWordChar hx]

theorem charSetLength?_eq_none (hw : ∀ x ∈ w, isWordChar x = true)
    (hafter : endsWord after = true) : charSetLength? (w ++ after) = none := by
  have hquote : ((w ++ after).drop (runLength Char.isAlphanum (w ++ after))).head? ≠
      some '\x27' := by
    induction w with
    | nil =>
      cases after with
      | nil => simp
      | cons x rest =>
        have hx : x.isAlphanum = false := by
          simp_all [endsWord, isWordChar]
        simpa [runLength, hx] using (head?_ne_quote hw hafter).1
    | cons x w ih =>
      have hrest := ih fun y hy => hw y (List.mem_cons_of_mem x hy)
      cases hx : x.isAlphanum with
      | true => simpa [runLength, hx] using hrest
      | false => simpa [runLength, hx] using (head?_ne_quote hw hafter).1
  simp only [charSetLength?, hquote, decide_false, Bool.and_false, Bool.false_eq_true, if_false]

theorem scanMarked?_eq_none (hw : ∀ x ∈ w, isWordChar x = true) (hafter : endsWord after = true) :
    scanMarked? d before c (w ++ after) = none := by
  have hset := charSetLength?_eq_none hw hafter
  have hquote := head?_ne_quote hw hafter
  cases hrest : w ++ after with
  | nil => rfl
  | cons q body =>
    rw [hrest] at hset hquote
    simp only [List.head?_cons, ne_eq, Option.some.injEq] at hquote
    simp [scanMarked?, hset, hquote]

theorem scan_word (hd : d.sparesPlain = true) (hc : (c = '_' || c.isAlpha) = true)
    (hw : ∀ x ∈ w, isWordChar x = true) (hafter : endsWord after = true) :
    Token.scan d before c (w ++ after) = (wordKind d before (c :: w) after, w.length) := by
  obtain ⟨hword, hdigit⟩ : isWordChar c = true ∧ c.isDigit = false := by
    simp only [Bool.or_eq_true, decide_eq_true_eq] at hc
    rcases hc with rfl | hc
    · exact ⟨rfl, rfl⟩
    · exact ⟨isWordChar_of_isAlpha hc, isDigit_of_isAlpha hc⟩
  have hnumber : scanNumber? d before c (w ++ after) = none := by
    have hzero : c ≠ '0' := by
      rintro rfl
      cases hdigit
    simp (disch := decide) [scanNumber?, hzero, hdigit, ne_of_isWordChar hword]
  have hquote := (of_sparesPlain hd (by rw [isPlain, hword, Bool.true_or])).2.2
  have hlength : wordLength (w ++ after) = w.length := by
    have hstop : runLength isWordChar after = 0 := by
      cases after with
      | nil => rfl
      | cons x rest => simp_all [endsWord, runLength]
    rw [wordLength, runLength_append hw, hstop, Nat.add_zero]
  simp only [Token.scan, isSpace_of_isWordChar hword, scanQuoted?_of_isWordChar hword,
    scanMarked?_eq_none hw hafter, hnumber, hquote, hword, scanWord, hlength, List.take_left,
    List.drop_left, Bool.and_false, Bool.false_eq_true, if_false, if_true]

theorem scan_sign (hd : d.sparesPlain = true) (hc : isSign c = true) :
    Token.scan d before c rest = ((signKind? c).getD .unknown, 0) := by
  obtain ⟨hoperator, hvariable, hquote⟩ :=
    of_sparesPlain hd (by rw [isPlain, hc, Bool.or_true])
  have hne : ∀ x, isSign x = false → c ≠ x := by
    rintro x hx rfl
    simp [hx] at hc
  have hword : isWordChar c = false := by
    simp only [isSign, Bool.or_eq_true, decide_eq_true_eq] at hc
    rcases hc with (((rfl | rfl) | rfl) | rfl) | rfl <;> decide
  have hdigit : c.isDigit = false := by
    simp only [isWordChar, Char.isAlphanum, Bool.or_eq_false_iff] at hword
    exact hword.2.2
  have hspace : isSpace c = false := by
    simp (disch := decide) [isSpace, hne]
  have hquoted : scanQuoted? d c rest = none := by
    simp (disch := decide) [scanQuoted?, hne]
  have hmarked : scanMarked? d before c rest = none := by
    cases rest with
    | nil => rfl
    | cons q body => simp (disch := decide) [scanMarked?, hne]
  have hnumber : scanNumber? d before c rest = none := by
    simp (disch := decide) [scanNumber?, hne, hdigit]
  simp only [Token.scan, hspace, hquoted, hmarked, hnumber, hquote, hword, hoperator, hvariable,
    Bool.and_false, Bool.false_eq_true, if_false]

theorem utf8Size_of_isSign (hc : isSign c = true) : c.utf8Size = 1 := by
  simp only [isSign, Bool.or_eq_true, decide_eq_true_eq] at hc
  rcases hc with (((rfl | rfl) | rfl) | rfl) | rfl <;> rfl

theorem endsWord_cons (hc : (isSpace c || isSign c) = true) : endsWord (c :: rest) = true := by
  simp only [isSpace, isSign, Bool.or_eq_true, decide_eq_true_eq] at hc
  rcases hc with (((rfl | rfl) | rfl) | rfl) | (((rfl | rfl) | rfl) | rfl) | rfl <;> rfl

/-! ## Tokens that are no blanks -/

variable {pos : ℕ}

theorem isWord_wordKind (d : Dialect) (before : Option Char) (word after : List Char) :
    (wordKind d before word after).isWord = true := by
  unfold wordKind
  split_ifs
  · rfl
  · cases d.classify (String.ofList word) with
    | none => rfl
    | some cls => cases cls <;> rfl

theorem solid_cons {kind : TokenKind} {n : ℕ}
    (hscan : Token.scan d before c rest = (kind, n)) (hkind : kind ≠ .whitespace) :
    solid d before pos (c :: rest) =
      ⟨kind, pos, pos + byteLength (c :: rest.take n)⟩ ::
        solid d (c :: rest.take n).getLast? (pos + byteLength (c :: rest.take n))
          (rest.drop n) := by
  rw [solid, Lexeme.all, hscan, Lexeme.spans, List.filter_cons_of_pos (by simpa using hkind)]
  rfl

theorem solid_run (hc : isSpace c = true) :
    solid d before pos (c :: rest) =
      solid d (c :: rest.take (runLength isSpace rest)).getLast?
        (pos + byteLength (c :: rest.take (runLength isSpace rest)))
        (rest.drop (runLength isSpace rest)) := by
  have hscan : Token.scan d before c rest = (.whitespace, runLength isSpace rest) := by
    rw [Token.scan, if_pos hc]
  rw [solid, Lexeme.all, hscan, Lexeme.spans, List.filter_cons_of_neg (by simp)]
  rfl

theorem solid_space (hc : isSpace c = true) :
    solid d before pos (c :: rest) = solid d (some c) (pos + 1) rest := by
  have hsize := utf8Size_of_isAscii (withinAscii_isSpace c hc)
  cases rest with
  | nil =>
    rw [solid_run hc]
    simp [runLength, hsize]
  | cons x rest =>
    cases hx : isSpace x with
    | false =>
      rw [solid_run hc]
      simp [runLength, hx, hsize]
    | true =>
      -- the run that begins with the second blank ends where this one does
      rw [solid_run hc, solid_run hx]
      simp [runLength, hx, hsize, Nat.add_assoc, List.getLast?_cons]

theorem solid_word (hd : d.sparesPlain = true) (hc : (c = '_' || c.isAlpha) = true)
    (hw : ∀ x ∈ w, isWordChar x = true) (hafter : endsWord after = true) :
    solid d before pos (c :: (w ++ after)) =
      ⟨wordKind d before (c :: w) after, pos, pos + byteLength (c :: w)⟩ ::
        solid d (c :: w).getLast? (pos + byteLength (c :: w)) after := by
  have hkind := isWord_wordKind d before (c :: w) after
  rw [solid_cons (scan_word hd hc hw hafter), List.take_left, List.drop_left]
  intro hblank
  rw [hblank] at hkind
  cases hkind

theorem solid_sign (hd : d.sparesPlain = true) (hc : isSign c = true) :
    solid d before pos (c :: rest) =
      ⟨(signKind? c).getD .unknown, pos, pos + 1⟩ :: solid d (some c) (pos + 1) rest := by
  have hkind : (signKind? c).getD .unknown ≠ .whitespace := by
    simp only [isSign, Bool.or_eq_true, decide_eq_true_eq] at hc
    rcases hc with (((rfl | rfl) | rfl) | rfl) | rfl <;> decide
  rw [solid_cons (scan_sign hd hc) hkind]
  simp [utf8Size_of_isSign hc]

end
end Token
end SchemaAssist

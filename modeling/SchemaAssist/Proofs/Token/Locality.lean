import SchemaAssist.Dialect.Builtin
import SchemaAssist.Proofs.Token.Partition

/-! # Tokens from a boundary on

What stands before a token has no part in it, but for the last character: a dot makes an identifier
of the word behind it, and a word does not let a dot start a number. From the end of a token on, a
text therefore has the tokens of any other text that goes on alike and agrees in these two points.
-/
namespace SchemaAssist
open Text Token

/-- The start of a text and the ends of its tokens, at each of which the next token starts. -/
def IsTokenBoundary (d : Dialect) (text : String) (offset : ℕ) : Prop :=
  offset = 0 ∨ ∃ t ∈ tokenize d text, t.stop = offset

instance (d : Dialect) (text : String) (offset : ℕ) : Decidable (IsTokenBoundary d text offset) :=
  inferInstanceAs (Decidable (offset = 0 ∨ ∃ t ∈ tokenize d text, t.stop = offset))

/-- The last byte of a text, read as the character with its number. -/
def lastByte? (text : String) : Option Char := (utf8 text.toList).getLast?.map Char.ofUInt8

/-- The token in a text without its first bytes. -/
def Token.back (n : ℕ) (t : Token) : Token := { t with start := t.start - n, stop := t.stop - n }

/-- The tokens from an offset on, with their places told from there. -/
def tokensPast (d : Dialect) (text : String) (offset : ℕ) : List Token :=
  ((tokenize d text).filter fun t => offset ≤ t.start).map (Token.back offset)

/-- Two characters before a token, or none, that make no difference to it. -/
structure SameBehind (a b : Option Char) : Prop where
  dot : a.any (· = '.') = b.any (· = '.')
  word : a.any isWordChar = b.any isWordChar

section
variable {d : Dialect} {a b before : Option Char} {c : Char} {cs rest : List Char}
  {xs ys : List Lexeme} {start : ℕ}

namespace SameBehind

theorem eq_dot (h : SameBehind a b) : (a = some '.') = (b = some '.') := by
  have hany : ∀ x : Option Char, x.any (· = '.') = true ↔ x = some '.' := by
    intro x
    cases x <;> simp
  rw [← hany, ← hany, h.dot]

theorem wordKind_eq (h : SameBehind a b) (word after : List Char) :
    wordKind d a word after = wordKind d b word after := by
  simp only [wordKind, h.eq_dot]

theorem scanWord_eq (h : SameBehind a b) : scanWord d a c rest = scanWord d b c rest := by
  simp only [scanWord, h.wordKind_eq]

theorem scanMarked?_eq (h : SameBehind a b) :
    scanMarked? d a c rest = scanMarked? d b c rest := by
  simp only [scanMarked?, h.scanWord_eq]

theorem scanNumber?_eq (h : SameBehind a b) :
    scanNumber? d a c rest = scanNumber? d b c rest := by
  simp only [scanNumber?, h.word]

theorem scan_eq (h : SameBehind a b) : Token.scan d a c rest = Token.scan d b c rest := by
  simp only [Token.scan, h.scanMarked?_eq, h.scanNumber?_eq, h.scanWord_eq]

/-- The first lexeme is the same, and the others have it before them. -/
theorem all_eq (h : SameBehind a b) : Lexeme.all d a cs = Lexeme.all d b cs := by
  cases cs with
  | nil => simp only [Lexeme.all]
  | cons c rest => simp only [Lexeme.all, h.scan_eq]

end SameBehind

namespace Lexeme

theorem all_of_append (h : all d before cs = xs ++ ys) :
    ys = all d ((xs.flatMap (·.chars)).getLast?.or before) (ys.flatMap (·.chars)) := by
  induction xs generalizing before cs with
  | nil =>
    have hcs := flatMap_chars_all d before cs
    rw [h, List.nil_append] at hcs
    rw [hcs, ← h.trans (List.nil_append ys)]
    rfl
  | cons x xs ih =>
    cases cs with
    | nil => simp [all] at h
    | cons c rest =>
      rw [all, List.cons_append] at h
      obtain ⟨rfl, hrest⟩ := List.cons_eq_cons.mp h
      refine (ih hrest).trans ?_
      simp [List.getLast?_append, List.getLast?_cons]

theorem exists_append_of_mem_spans {t : Token} (h : t ∈ spans start xs) :
    ∃ ys zs, xs = ys ++ zs ∧ t.stop = start + byteLength (ys.flatMap (·.chars)) := by
  induction xs generalizing start with
  | nil => simp [spans] at h
  | cons x rest ih =>
    rcases List.mem_cons.mp h with rfl | h
    · exact ⟨[x], rest, rfl, by simp⟩
    · obtain ⟨ys, zs, rfl, hstop⟩ := ih h
      refine ⟨x :: ys, zs, rfl, ?_⟩
      rw [hstop, List.flatMap_cons, byteLength_append, Nat.add_assoc]

theorem spans_append (start : ℕ) (xs ys : List Lexeme) :
    spans start (xs ++ ys) =
      spans start xs ++ spans (start + byteLength (xs.flatMap (·.chars))) ys := by
  induction xs generalizing start with
  | nil => simp [spans]
  | cons x rest ih => simp [spans, ih, Nat.add_assoc]

theorem le_start_of_mem_spans {t : Token} (h : t ∈ spans start xs) : start ≤ t.start := by
  induction xs generalizing start with
  | nil => simp [spans] at h
  | cons x rest ih =>
    rcases List.mem_cons.mp h with rfl | h
    · exact le_rfl
    · exact (Nat.le_add_right _ _).trans (ih h)

theorem stop_le_of_mem_spans {t : Token} (h : t ∈ spans start xs) :
    t.stop ≤ start + byteLength (xs.flatMap (·.chars)) := by
  obtain ⟨ys, zs, rfl, hstop⟩ := exists_append_of_mem_spans h
  rw [hstop, List.flatMap_append, byteLength_append]
  omega

theorem map_back_spans (n start : ℕ) (xs : List Lexeme) :
    (spans (n + start) xs).map (Token.back n) = spans start xs := by
  induction xs generalizing start with
  | nil => rfl
  | cons x rest ih =>
    rw [spans, spans, List.map_cons, Nat.add_assoc, ih, Token.back, Nat.add_sub_cancel_left,
      Nat.add_sub_cancel_left]

end Lexeme

theorem any_lastByte? {p : Char → Bool} (hp : WithinAscii p) (text : String) :
    (lastByte? text).any p = text.toList.getLast?.any p := by
  rw [lastByte?, ← List.getLast?_map, map_ofUInt8_utf8]
  obtain hnil | ⟨front, c, hconcat⟩ := List.eq_nil_or_concat text.toList
  · rw [hnil]
    rfl
  · obtain ⟨us, u, hus⟩ := (List.eq_nil_or_concat (units c)).resolve_left (units_ne_nil c)
    have hu : p u = p c := hp.units_eq c u (by rw [hus, List.concat_eq_append]; simp)
    rw [hconcat]
    simp [hus, hu]

theorem exists_append_of_isTokenBoundary {u v : String}
    (h : IsTokenBoundary d (u ++ v) (size u)) :
    ∃ xs, xs.flatMap (·.chars) = u.toList ∧
      Lexeme.all d none (u ++ v).toList = xs ++ Lexeme.all d u.toList.getLast? v.toList := by
  obtain ⟨xs, ys, hall, hsize⟩ : ∃ xs ys, Lexeme.all d none (u ++ v).toList = xs ++ ys ∧
      size u = byteLength (xs.flatMap (·.chars)) := by
    rcases h with h | ⟨t, ht, hstop⟩
    · exact ⟨[], _, rfl, h⟩
    · rw [tokenize_eq_spans] at ht
      obtain ⟨xs, ys, hall, hend⟩ := Lexeme.exists_append_of_mem_spans ht
      exact ⟨xs, ys, hall, by rw [← hstop, hend, Nat.zero_add]⟩
  have htext := Lexeme.flatMap_chars_all d none (u ++ v).toList
  rw [hall, List.flatMap_append, String.toList_append] at htext
  -- both parts are cuts of the text at the same offset
  have hcut := splitAt?_byteLength (xs.flatMap (·.chars)) (ys.flatMap (·.chars))
  rw [htext, ← hsize, size, splitAt?_byteLength] at hcut
  obtain ⟨hfront, hback⟩ := Prod.mk.inj (Option.some.inj hcut)
  have hys := Lexeme.all_of_append hall
  rw [← hfront, ← hback, Option.or_none] at hys
  exact ⟨xs, hfront.symm, by rw [hall, ← hys]⟩

/-- From a boundary on, the tokens are those of what is left, behind the last character. -/
theorem tokensPast_eq {u v : String} (h : IsTokenBoundary d (u ++ v) (size u)) :
    tokensPast d (u ++ v) (size u) =
      Lexeme.spans 0 (Lexeme.all d u.toList.getLast? v.toList) := by
  obtain ⟨xs, hxs, hall⟩ := exists_append_of_isTokenBoundary h
  have hne : ∀ x ∈ xs, x.chars ≠ [] := by
    intro x hx
    exact Lexeme.chars_ne_nil_of_mem_all (hall ▸ List.mem_append_left _ hx)
  have hbefore : (Lexeme.spans 0 xs).filter (fun t => size u ≤ t.start) = [] := by
    refine List.filter_eq_nil_iff.mpr fun t ht => ?_
    have hlt := Lexeme.lt_of_mem_spans hne ht
    have hle := Lexeme.stop_le_of_mem_spans ht
    rw [hxs, Nat.zero_add, ← size] at hle
    simp only [decide_eq_true_eq]
    omega
  have hbehind : ∀ ys, (Lexeme.spans (size u) ys).filter (fun t => size u ≤ t.start) =
      Lexeme.spans (size u) ys := by
    intro ys
    exact List.filter_eq_self.mpr fun t ht =>
      decide_eq_true (Lexeme.le_start_of_mem_spans ht)
  rw [tokensPast, tokenize_eq_spans, hall, Lexeme.spans_append, hxs, Nat.zero_add, ← size,
    List.filter_append, hbefore, hbehind, List.nil_append]
  exact Lexeme.map_back_spans (size u) 0 _

end

/-- The tokens from a boundary on depend on what follows it, and on what stands before it only in
whether a dot or a word ends there. -/
theorem tokensPast_append (d : Dialect) {u w v : String}
    (hu : IsTokenBoundary d (u ++ v) (size u)) (hw : IsTokenBoundary d (w ++ v) (size w))
    (hdot : (lastByte? u).any (· = '.') = (lastByte? w).any (· = '.'))
    (hword : (lastByte? u).any isWordChar = (lastByte? w).any isWordChar) :
    tokensPast d (u ++ v) (size u) = tokensPast d (w ++ v) (size w) := by
  have hascii : WithinAscii (· = '.') := withinAscii_of_eq (by decide)
  rw [any_lastByte? hascii, any_lastByte? hascii] at hdot
  rw [any_lastByte? withinAscii_isWordChar, any_lastByte? withinAscii_isWordChar] at hword
  rw [tokensPast_eq hu, tokensPast_eq hw, SameBehind.all_eq ⟨hdot, hword⟩]

/-- Behind a dot a keyword is an identifier, whatever the dot ends. -/
theorem tokensPast_append_behind_dot :
    let d := Dialect.standard
    IsTokenBoundary d ("é." ++ "set .5") (size "é.") ∧
      IsTokenBoundary d ("b'1' x." ++ "set .5") (size "b'1' x.") ∧
      (lastByte? "é.").any (· = '.') = (lastByte? "b'1' x.").any (· = '.') ∧
      (lastByte? "é.").any isWordChar = (lastByte? "b'1' x.").any isWordChar ∧
      tokensPast d ("é." ++ "set .5") (size "é.") =
        tokensPast d ("b'1' x." ++ "set .5") (size "b'1' x.") ∧
      tokensPast d ("é." ++ "set .5") (size "é.") =
        [⟨.identifier, 0, 3⟩, ⟨.whitespace, 3, 4⟩, ⟨.number, 4, 6⟩] := by
  intro d
  have hu : IsTokenBoundary d ("é." ++ "set .5") (size "é.") := by
    decide +kernel
  have hw : IsTokenBoundary d ("b'1' x." ++ "set .5") (size "b'1' x.") := by
    decide +kernel
  have hdot : (lastByte? "é.").any (· = '.') = (lastByte? "b'1' x.").any (· = '.') := by
    decide +kernel
  have hword : (lastByte? "é.").any isWordChar = (lastByte? "b'1' x.").any isWordChar := by
    decide +kernel
  exact ⟨hu, hw, hdot, hword, tokensPast_append d hu hw hdot hword, by decide +kernel⟩

end SchemaAssist

import SchemaAssist.Proofs.Token.Partition
import SchemaAssist.Proofs.Token.Words

/-! # Tokens at their starts

A token is what the scan gives at the place where it starts: its kind and end depend on the
character before that place and on the text from there on. Which rule gave a token tells that no rule
tried before it applies there.
-/
namespace SchemaAssist
open Text

namespace Token

/-- The rules of the scan in the order in which they are tried, each with what the rules before it
refused. -/
inductive FromRule (d : Dialect) (before : Option Char) (c : Char) (rest : List Char) :
    TokenKind × ℕ → Prop
  | blank (hspace : isSpace c = true) :
      FromRule d before c rest (.whitespace, runLength isSpace rest)
  | quoted {found : TokenKind × ℕ} (hspace : isSpace c = false)
      (hquoted : scanQuoted? d c rest = some found) : FromRule d before c rest found
  | marked {found : TokenKind × ℕ} (hquoted : scanQuoted? d c rest = none)
      (hmarked : scanMarked? d before c rest = some found) : FromRule d before c rest found
  | number {found : TokenKind × ℕ} (hquoted : scanQuoted? d c rest = none)
      (hmarked : scanMarked? d before c rest = none)
      (hnumber : scanNumber? d before c rest = some found) : FromRule d before c rest found
  | identifier (hquoted : scanQuoted? d c rest = none)
      (hquote : (isAscii c && d.isIdentifierQuote c) = true) :
      FromRule d before c rest (.quotedIdentifier, literalLength c false false rest)
  | word (hmarked : scanMarked? d before c rest = none)
      (hnumber : scanNumber? d before c rest = none)
      (hquote : (isAscii c && d.isIdentifierQuote c) = false) (hword : isWordChar c = true) :
      FromRule d before c rest (scanWord d before c rest)
  | operator (hquoted : scanQuoted? d c rest = none)
      (hquote : (isAscii c && d.isIdentifierQuote c) = false) (hword : isWordChar c = false)
      (hoperator : (isAscii c && d.isOperatorChar c) = true) :
      FromRule d before c rest
        (.operator, runLength (fun c => isAscii c && d.isOperatorChar c) rest)
  | specialVar {n : ℕ} (hvariable : (isAscii c && d.isSpecialVarChar c) = true) :
      FromRule d before c rest (.specialVar, n)
  | sign : FromRule d before c rest ((signKind? c).getD .unknown, 0)

section
variable {d : Dialect} {before : Option Char} {c : Char} {rest : List Char}
  {found : TokenKind × ℕ}

theorem fromRule_scan (d : Dialect) (before : Option Char) (c : Char) (rest : List Char) :
    FromRule d before c rest (Token.scan d before c rest) := by
  unfold Token.scan
  split
  next hspace => exact .blank hspace
  next hspace =>
  have hspace := Bool.eq_false_iff.mpr hspace
  split
  next hquoted => exact .quoted hspace hquoted
  next hquoted =>
  have hquoted := Option.eq_none_iff_forall_ne_some.mpr hquoted
  split
  next hmarked => exact .marked hquoted hmarked
  next hmarked =>
  have hmarked := Option.eq_none_iff_forall_ne_some.mpr hmarked
  split
  next hnumber => exact .number hquoted hmarked hnumber
  next hnumber =>
  have hnumber := Option.eq_none_iff_forall_ne_some.mpr hnumber
  split
  next hquote => exact .identifier hquoted hquote
  next hquote =>
  have hquote := Bool.eq_false_iff.mpr hquote
  split
  next hword => exact .word hmarked hnumber hquote hword
  next hword =>
  split
  next hoperator => exact .operator hquoted hquote (Bool.eq_false_iff.mpr hword) hoperator
  next =>
  split
  next hvariable =>
    split
    · exact .specialVar hvariable
    · exact .specialVar hvariable
  next => exact .sign

theorem kind_of_scanQuoted? (h : scanQuoted? d c rest = some found) :
    found.1 = .string ∨ found.1 = .lineComment ∨ found.1 = .blockComment := by
  unfold scanQuoted? at h
  split_ifs at h <;> cases h <;> simp

theorem isWord_scanWord (d : Dialect) (before : Option Char) (c : Char) (rest : List Char) :
    (scanWord d before c rest).1.isWord = true :=
  isWord_wordKind ..

/-- What the rules for marked literals give. -/
inductive FromMark (d : Dialect) (before : Option Char) (c : Char) (rest : List Char) :
    TokenKind × ℕ → Prop
  | string {n : ℕ} : FromMark d before c rest (.string, n)
  | bytes {n : ℕ} : FromMark d before c rest (.bytes, n)
  /-- No delimiter follows the quote. -/
  | word (hc : c = 'q' ∨ c = 'Q') : FromMark d before c rest (scanWord d before c rest)
  | bits {q : Char} {body : List Char} (hc : c = 'b' ∨ c = 'B') (hq : q = '\x27' ∨ q = '"')
      (hrest : rest = q :: body) :
      FromMark d before c rest (.bits, 1 + digitsLength isBinaryDigit q body)
  | hex {body : List Char} (hc : c = 'x' ∨ c = 'X') (hrest : rest = '\x27' :: body) :
      FromMark d before c rest (.number, 1 + digitsLength isHexDigit '\x27' body)

theorem fromMark_of_scanMarked? (h : scanMarked? d before c rest = some found) :
    FromMark d before c rest found := by
  unfold scanMarked? at h
  split at h
  next => cases h
  next q body =>
    split_ifs at h with hescaped hnational hset hdelimited hbits htreat hhex
    · cases h
      exact .string
    · cases h
      exact .string
    · obtain ⟨n, -, rfl⟩ := Option.map_eq_some_iff.mp h
      exact .string
    · simp only [Bool.and_eq_true, Bool.or_eq_true, decide_eq_true_eq] at hdelimited
      split at h
      next =>
        cases h
        exact .word hdelimited.1.1
      next =>
        split_ifs at h
        · cases h
          exact .word hdelimited.1.1
        · cases h
          exact .string
    · cases h
      exact .bytes
    · simp only [Bool.and_eq_true, Bool.or_eq_true, decide_eq_true_eq] at hbits
      cases h
      exact .bits hbits.1 hbits.2 rfl
    · simp only [Bool.and_eq_true, Bool.or_eq_true, decide_eq_true_eq] at hhex
      cases h
      exact .hex hhex.1 (by rw [hhex.2])

theorem kind_of_scanMarked? (h : scanMarked? d before c rest = some found) :
    found.1 = .string ∨ found.1 = .bytes ∨ found.1 = .bits ∨ found.1 = .number ∨
      found.1.isWord = true := by
  cases fromMark_of_scanMarked? h with
  | word => simp [isWord_scanWord]
  | _ => simp

theorem kind_of_scanNumber? (h : scanNumber? d before c rest = some found) :
    found.1 = .bits ∨ found.1 = .number ∨ found.1 = .dot := by
  unfold scanNumber? at h
  split_ifs at h <;> cases h <;> simp

theorem FromRule.of_kind (h : FromRule d before c rest found)
    (hkind : found.1 = .quotedIdentifier ∨ found.1 = .operator) :
    scanQuoted? d c rest = none ∧
      (found = (.quotedIdentifier, literalLength c false false rest) ∧
          (isAscii c && d.isIdentifierQuote c) = true ∨
        found = (.operator, runLength (fun c => isAscii c && d.isOperatorChar c) rest) ∧
          (isAscii c && d.isIdentifierQuote c) = false ∧
          (isAscii c && d.isOperatorChar c) = true) := by
  have hnoword : found.1.isWord = false := by
    rcases hkind with hkind | hkind <;> rw [hkind] <;> rfl
  cases h with
  | identifier hquoted hquote => exact ⟨hquoted, .inl ⟨rfl, hquote⟩⟩
  | operator hquoted hquote hword hoperator => exact ⟨hquoted, .inr ⟨rfl, hquote, hoperator⟩⟩
  | blank => simp at hkind
  | quoted hspace hquoted =>
    rcases kind_of_scanQuoted? hquoted with h | h | h <;> simp [h] at hkind
  | marked hquoted hmarked =>
    rcases kind_of_scanMarked? hmarked with h | h | h | h | h
    case inr.inr.inr.inr => simp [h] at hnoword
    all_goals simp [h] at hkind
  | number hquoted hmarked hnumber =>
    rcases kind_of_scanNumber? hnumber with h | h | h <;> simp [h] at hkind
  | word => simp [isWord_scanWord] at hnoword
  | specialVar => simp at hkind
  | sign =>
    unfold signKind? at hkind
    split_ifs at hkind <;> simp at hkind

theorem scan_of_operator (hkind : (Token.scan d before c rest).1 = .operator) :
    Token.scan d before c rest =
        (.operator, runLength (fun c => isAscii c && d.isOperatorChar c) rest) ∧
      scanQuoted? d c rest = none ∧ (isAscii c && d.isIdentifierQuote c) = false ∧
      (isAscii c && d.isOperatorChar c) = true := by
  obtain ⟨hquoted, ⟨hscan, -⟩ | ⟨hscan, hrest⟩⟩ :=
    (fromRule_scan d before c rest).of_kind (.inr hkind)
  · simp [hscan] at hkind
  · exact ⟨hscan, hquoted, hrest⟩

end
end Token

variable {d : Dialect} {text : String} {t : Token} {pre rest : List Char} {c : Char}

theorem Lexeme.exists_scan_of_mem_spans {before : Option Char} {cs : List Char} {start : ℕ}
    (h : t ∈ spans start (all d before cs)) : ∃ pre c rest, cs = pre ++ c :: rest ∧
      start + byteLength pre = t.start ∧ (t.kind, t.stop) =
        Source.reach t.start c rest (Token.scan d (pre.getLast?.or before) c rest) := by
  fun_induction all d before cs generalizing start with
  | case1 => simp [spans] at h
  | case2 before c rest found chars =>
    rename_i ih
    rcases List.mem_cons.mp h with rfl | h
    · exact ⟨[], c, rest, rfl, rfl, rfl⟩
    · obtain ⟨pre, x, post, hcut, hstart, hscan⟩ := ih h
      refine ⟨chars ++ pre, x, post, ?_, ?_, ?_⟩
      · rw [List.append_assoc, ← hcut, List.cons_append, List.take_append_drop]
      · rw [byteLength_append, ← hstart, Nat.add_assoc]
      · have hlast : ((chars ++ pre).getLast?).or before = pre.getLast?.or chars.getLast? := by
          simp [chars, List.getLast?_append, List.getLast?_cons]
        rw [hscan, hlast]

theorem exists_scan_of_mem_tokenize (h : t ∈ tokenize d text) : ∃ pre c rest,
    text.toList = pre ++ c :: rest ∧ byteLength pre = t.start ∧
      (t.kind, t.stop) = Source.reach t.start c rest (Token.scan d pre.getLast? c rest) := by
  rw [tokenize_eq_spans] at h
  simpa using Lexeme.exists_scan_of_mem_spans h

theorem exists_cut_of_mem_tokenize (h : t ∈ tokenize d text) : ∃ pre c rest n,
    Token.scan d pre.getLast? c rest = (t.kind, n) ∧
      text.toList = pre ++ c :: rest.take n ++ rest.drop n ∧ byteLength pre = t.start ∧
      byteLength (pre ++ c :: rest.take n) = t.stop := by
  obtain ⟨pre, c, rest, htext, hpre, hreach⟩ := exists_scan_of_mem_tokenize h
  obtain ⟨hkind, hstop⟩ := Prod.mk.inj hreach
  refine ⟨pre, c, rest, _, Prod.ext hkind.symm rfl, ?_, hpre, ?_⟩
  · rw [htext, List.append_assoc, List.cons_append, List.take_append_drop]
  · rw [byteLength_append, hpre, hstop]

end SchemaAssist

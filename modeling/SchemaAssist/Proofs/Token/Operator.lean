import SchemaAssist.Dialect.Builtin
import SchemaAssist.Proofs.Token.Comment
import SchemaAssist.Proofs.Token.Start

/-! # What operators hide

Comments and quoted identifiers outrank operators, but only where a token starts. An operator takes
all the operator characters that follow, so it hides what begins with one of them.
-/
namespace SchemaAssist
open Text Token

theorem Token.lt_runLength_iff {p : Char → Bool} {cs : List Char} {n : ℕ} :
    n < runLength p cs ↔ ∀ m ≤ n, cs[m]?.any p = true := by
  induction cs generalizing n with
  | nil => simpa [runLength] using ⟨0, Nat.zero_le n⟩
  | cons c cs ih =>
    cases hc : p c with
    | false =>
      have hrun : runLength p (c :: cs) = 0 := by simp [runLength, hc]
      simpa [hrun] using ⟨0, Nat.zero_le n, by simp [hc]⟩
    | true =>
      have hrun : runLength p (c :: cs) = runLength p cs + 1 := by simp [runLength, hc]
      rw [hrun]
      cases n with
      | zero => simp [hc]
      | succ n =>
        rw [Nat.succ_lt_succ_iff, ih]
        refine ⟨fun h m hm => ?_, fun h m hm => h (m + 1) (by omega)⟩
        cases m with
        | zero => simp [hc]
        | succ m => exact h m (by omega)

namespace Source

/-- A comment of the dialect or a quoted identifier begins at an offset, if a token starts there. -/
inductive OutranksAt (s : Source) (d : Dialect) (i : ℕ) : Prop
  | dashes (hsign : s.hasAt i '-' = true) (hagain : s.hasAt (i + 1) '-' = true)
      (hspace : d.spaceAfterDashes = true → s.hasAt (i + 2) ' ' = true)
  | comment (hopen : s.OpensAt i)
  | slashes (h : d.slashComments = true) (hsign : s.hasAt i '/' = true)
      (hagain : s.hasAt (i + 1) '/' = true)
  | hash (h : d.hashComments = true) (hsign : s.hasAt i '#' = true)
  | quote (h : (s.peek i).any (fun c => isAscii c && d.isIdentifierQuote c) = true)

def OperatorAt (s : Source) (d : Dialect) (i : ℕ) : Prop :=
  (s.peek i).any (fun c => isAscii c && d.isOperatorChar c) = true

variable {s : Source} {d : Dialect} {i : ℕ} {pre post rest : List Char} {c : Char}

theorem At.eq_cons (h : At s i pre post) {x : Char} (hx : isAscii x = true)
    (hhas : s.hasAt i x = true) : ∃ rest, post = x :: rest ∧ At s (i + 1) (pre ++ [x]) rest := by
  obtain ⟨rest, rfl⟩ := List.head?_eq_some_iff.mp ((h.hasAt_iff hx).mp hhas)
  exact ⟨rest, rfl, h.next hx⟩

theorem At.not_outranksAt (h : At s i pre (c :: rest)) (hquoted : Token.scanQuoted? d c rest = none)
    (hquote : (isAscii c && d.isIdentifierQuote c) = false) : ¬ s.OutranksAt d i := by
  intro houtranks
  cases houtranks with
  | dashes hsign hagain hspace =>
    obtain ⟨_, ⟨rfl, rfl⟩, hnext⟩ := h.eq_cons (by decide) hsign
    obtain ⟨more, rfl, hmore⟩ := hnext.eq_cons (by decide) hagain
    have hnospace : d.spaceAfterDashes = true ∧ ¬ more.head? = some ' ' := by
      simpa [Token.scanQuoted?] using hquoted
    exact hnospace.2 ((hmore.hasAt_iff (by decide)).mp (hspace hnospace.1))
  | comment hopen =>
    obtain ⟨_, ⟨rfl, rfl⟩, hnext⟩ := h.eq_cons (by decide) hopen.1
    obtain ⟨more, rfl, -⟩ := hnext.eq_cons (by decide) hopen.2
    simp [Token.scanQuoted?] at hquoted
  | slashes hd hsign hagain =>
    obtain ⟨_, ⟨rfl, rfl⟩, hnext⟩ := h.eq_cons (by decide) hsign
    obtain ⟨more, rfl, -⟩ := hnext.eq_cons (by decide) hagain
    simp [Token.scanQuoted?, hd] at hquoted
  | hash hd hsign =>
    obtain ⟨_, ⟨rfl, rfl⟩, -⟩ := h.eq_cons (by decide) hsign
    simp [Token.scanQuoted?, hd] at hquoted
  | quote hpeek =>
    rw [h.any_peek withinAscii_and_left] at hpeek
    simp [hquote] at hpeek

theorem At.lt_run_iff (h : At s i pre (c :: rest)) {p : Char → Bool} (hp : WithinAscii p)
    (hc : p c = true) {k : ℕ} (hk : i ≤ k) :
    k < i + byteLength (c :: rest.take (runLength p rest)) ↔
      ∀ j, i ≤ j → j ≤ k → (s.peek j).any p = true := by
  have hrun : runLength p (s.units.drop i) = byteLength (c :: rest.take (runLength p rest)) := by
    rw [h.drop_units, runLength_units hp.units_eq]
    simp [runLength, hc]
  have hpeek : ∀ m, (s.units.drop i)[m]? = s.peek (i + m) := by
    intro m
    rw [List.getElem?_drop, peek_eq, List.head?_drop]
  rw [← hrun, ← Nat.sub_lt_iff_lt_add' hk, lt_runLength_iff]
  refine ⟨fun hall j hij hjk => ?_, fun hall m hm => ?_⟩
  · obtain ⟨m, rfl⟩ := Nat.exists_eq_add_of_le hij
    rw [← hpeek]
    exact hall m (by omega)
  · rw [hpeek]
    exact hall (i + m) (Nat.le_add_right i m) (by omega)

end Source

variable {d : Dialect} {text : String} {t : Token}

/-- An operator starts where nothing outranks it and goes on while there are operator characters.
So it hides what outranks it behind its start just if no other character stands in between. -/
theorem operator_extent (ht : t ∈ tokenize d text) (hkind : t.kind = .operator) :
    ¬ (Source.of text).OutranksAt d t.start ∧
      ∀ i, t.start ≤ i →
        (i < t.stop ↔ ∀ j, t.start ≤ j → j ≤ i → (Source.of text).OperatorAt d j) := by
  obtain ⟨pre, c, rest, htext, hpre, hscan⟩ := exists_scan_of_mem_tokenize ht
  have hat : (Source.of text).At t.start pre (c :: rest) := ⟨htext, hpre.symm⟩
  obtain ⟨hfound, hstop⟩ := Prod.mk.inj hscan
  obtain ⟨hrun, hquoted, hquote, hoperator⟩ := scan_of_operator (hfound.symm.trans hkind)
  refine ⟨hat.not_outranksAt hquoted hquote, fun i hi => ?_⟩
  rw [hstop, hrun]
  exact hat.lt_run_iff withinAscii_and_left hoperator hi

/-- Both signs of the comment are operator characters and belong to the token. -/
theorem operator_extent_sign :
    let text := "1=/*2*/3"
    ⟨.operator, 1, 4⟩ ∈ tokenize .standard text ∧
      ¬ (Source.of text).OutranksAt .standard 1 ∧
      (3 < 4 ↔ ∀ j, 1 ≤ j → j ≤ 3 → (Source.of text).OperatorAt .standard j) := by
  intro text
  have hmem : ⟨.operator, 1, 4⟩ ∈ tokenize .standard text := by
    decide +kernel
  obtain ⟨hstart, hextent⟩ := operator_extent hmem rfl
  exact ⟨hmem, hstart, hextent 3 (by decide)⟩

/-- A comment behind an equals sign is hidden, and so is a quoted identifier where its quotes are
operator characters. -/
theorem operator_hides :
    let text := "1=/*2*/3"
    let quoted := "1 <>\x602\x60"
    let d := Dialect.define { Dialect.Spec.named "Backtick operators" with
      operatorChars := some "+-*/<>=~!@#%^&|\x60?"
      identifierQuotes := some "\x60" }
    (⟨.operator, 1, 4⟩ ∈ tokenize .standard text ∧ (Source.of text).OutranksAt .standard 2) ∧
      ⟨.operator, 2, 5⟩ ∈ tokenize d quoted ∧ (Source.of quoted).OutranksAt d 4 := by
  intro text quoted d
  refine ⟨⟨?_, ?_⟩, ?_, ?_⟩
  · decide +kernel
  · exact .comment (by decide +kernel)
  · decide +kernel
  · exact .quote (by decide +kernel)

end SchemaAssist

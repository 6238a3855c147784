import Mathlib.Computability.Language
import SchemaAssist.Proofs.Token.Units

/-! # Longest words of a pattern

Patterns are languages made of single characters by union, concatenation and repetition. Where it is
settled at every character whether a pattern ends, repeats or goes on, taking all one can take gives
the longest word in front of a text.
-/
namespace SchemaAssist.Token
open Computability

/-- The words of one character of a class. -/
def letter (p : Char → Bool) : Language Char := {w | ∃ c, p c = true ∧ w = [c]}

/-- A word of a language at the front of a text, and none of its words there is longer. -/
structure Longest (L : Language Char) (cs w : List Char) : Prop where
  mem : w ∈ L
  front : w <+: cs
  le : ∀ v ∈ L, v <+: cs → v.length ≤ w.length

/-- All words of a language begin with a character of a class. -/
def Begins (p : Char → Bool) (L : Language Char) : Prop := ∀ w ∈ L, w.head?.any p = true

/-- No word of a language begins with a character of a class. -/
def Avoids (p : Char → Bool) (L : Language Char) : Prop := ∀ w ∈ L, w.head?.any p = false

/-- A character that is at most so many times in a word of a language. -/
def AtMost (x : Char) (n : ℕ) (L : Language Char) : Prop := ∀ w ∈ L, w.count x ≤ n

variable {p q : Char → Bool} {L M : Language Char} {c x : Char} {cs rest u v w : List Char} {n m : ℕ}

/-! ## Words by their first character -/

theorem mem_letter_mul : w ∈ letter p * L ↔ ∃ c v, p c = true ∧ v ∈ L ∧ w = c :: v := by
  rw [Language.mem_mul]
  constructor
  · rintro ⟨_, ⟨c, hc, rfl⟩, v, hv, rfl⟩
    exact ⟨c, v, hc, hv, rfl⟩
  · rintro ⟨c, v, hc, hv, rfl⟩
    exact ⟨[c], ⟨c, hc, rfl⟩, v, hv, rfl⟩

theorem cons_mem_letter_mul : c :: w ∈ letter p * L ↔ p c = true ∧ w ∈ L := by
  rw [mem_letter_mul]
  constructor
  · rintro ⟨_, _, hc, hw, heq⟩
    obtain ⟨rfl, rfl⟩ := List.cons_eq_cons.mp heq
    exact ⟨hc, hw⟩
  · rintro ⟨hc, hw⟩
    exact ⟨c, w, hc, hw, rfl⟩

theorem star_mul (p : Char → Bool) (L : Language Char) :
    (letter p)∗ * L = L + letter p * ((letter p)∗ * L) := by
  rw [← mul_assoc, ← Language.one_add_self_mul_kstar_eq_kstar, add_mul, one_mul,
    Language.one_add_self_mul_kstar_eq_kstar]

theorem mem_star_letter : w ∈ (letter p)∗ ↔ ∀ c ∈ w, p c = true := by
  induction w with
  | nil => simp [Language.nil_mem_kstar]
  | cons c w ih =>
    rw [← mul_one (letter p)∗, star_mul, mul_one, Language.mem_add, cons_mem_letter_mul, ih]
    simp

/-! ## First characters of a language -/

theorem begins_letter : Begins p (letter p) := by
  rintro w ⟨c, hc, rfl⟩
  exact hc

theorem Begins.mul (h : Begins p L) : Begins p (L * M) := by
  intro w hw
  obtain ⟨u, hu, v, -, rfl⟩ := Language.mem_mul.mp hw
  have hfirst := h u hu
  cases u with
  | nil => cases hfirst
  | cons c u => exact hfirst

theorem Begins.not_isPrefix (h : Begins p L) (hcs : cs.head?.any p = false) (hv : v ∈ L) :
    ¬ v <+: cs := by
  rintro ⟨rest, rfl⟩
  have hfirst := h v hv
  cases v with
  | nil => cases hfirst
  | cons c v => exact Bool.eq_false_iff.mp hcs hfirst

theorem Begins.avoids (h : Begins q L) (hpq : ∀ c, q c = true → p c = false) : Avoids p L := by
  intro w hw
  have hfirst := h w hw
  cases w with
  | nil => cases hfirst
  | cons c w => exact hpq c hfirst

theorem avoids_one : Avoids p 1 := by
  intro w hw
  rw [(Language.mem_one w).mp hw]
  rfl

theorem Avoids.add (hL : Avoids p L) (hM : Avoids p M) : Avoids p (L + M) := by
  rintro w (hw | hw)
  · exact hL w hw
  · exact hM w hw

theorem Avoids.star_mul (hL : Avoids p L) (hpq : ∀ c, q c = true → p c = false) :
    Avoids p ((letter q)∗ * L) := by
  rw [Token.star_mul]
  exact hL.add (begins_letter.mul.avoids hpq)

theorem Avoids.eq_nil (hL : Avoids p L) (hc : p c = true) (hv : v ∈ L) (hfront : v <+: c :: rest) :
    v = [] := by
  cases v with
  | nil => rfl
  | cons x v =>
    obtain ⟨rfl, -⟩ := List.cons_prefix_cons.mp hfront
    have hx : p x = false := hL _ hv
    simp [hc] at hx

/-! ## Longest words -/

namespace Longest

theorem add_left (h : Longest L cs w) (hM : ∀ v ∈ M, v <+: cs → v.length ≤ w.length) :
    Longest (L + M) cs w where
  mem := .inl h.mem
  front := h.front
  le := by
    rintro v (hv | hv)
    · exact h.le v hv
    · exact hM v hv

theorem add_right (h : Longest M cs w) (hL : ∀ v ∈ L, v <+: cs → v.length ≤ w.length) :
    Longest (L + M) cs w := by
  rw [add_comm]
  exact h.add_left hL

theorem add_of_begins (h : Longest L cs w) (hM : Begins p M) (hcs : cs.head?.any p = false) :
    Longest (L + M) cs w :=
  h.add_left fun _ hv hfront => absurd hfront (hM.not_isPrefix hcs hv)

theorem begins_add (h : Longest M cs w) (hL : Begins p L) (hcs : cs.head?.any p = false) :
    Longest (L + M) cs w :=
  h.add_right fun _ hv hfront => absurd hfront (hL.not_isPrefix hcs hv)

theorem letter_mul (hc : p c = true) (h : Longest L rest w) :
    Longest (letter p * L) (c :: rest) (c :: w) where
  mem := cons_mem_letter_mul.mpr ⟨hc, h.mem⟩
  front := List.cons_prefix_cons.mpr ⟨rfl, h.front⟩
  le := by
    intro v hv hfront
    obtain ⟨x, u, -, hu, rfl⟩ := mem_letter_mul.mp hv
    have hrest := (List.cons_prefix_cons.mp hfront).2
    exact Nat.succ_le_succ (h.le u hu hrest)

theorem add_letter_mul (hc : p c = true) (hL : Avoids p L) (h : Longest M rest w) :
    Longest (L + letter p * M) (c :: rest) (c :: w) := by
  refine (h.letter_mul hc).add_right fun v hv hfront => ?_
  rw [hL.eq_nil hc hv hfront]
  exact Nat.zero_le _

theorem add_of_head? (hcs : cs.head?.any p = false) (h : Longest L cs w) :
    Longest (L + letter p * M) cs w :=
  h.add_of_begins begins_letter.mul hcs

theorem star_mul (hL : Avoids p L) (h : Longest L (cs.dropWhile p) w) :
    Longest ((letter p)∗ * L) cs (cs.takeWhile p ++ w) := by
  induction cs with
  | nil =>
    rw [Token.star_mul]
    exact h.add_of_head? rfl
  | cons c rest ih =>
    rw [Token.star_mul]
    cases hc : p c with
    | true =>
      rw [List.dropWhile_cons_of_pos hc] at h
      rw [List.takeWhile_cons_of_pos hc]
      exact (ih h).add_letter_mul hc hL
    | false =>
      have hc' : ¬ p c = true := by simp [hc]
      rw [List.dropWhile_cons_of_neg hc'] at h
      rw [List.takeWhile_cons_of_neg hc']
      exact h.add_of_head? hc

end Longest

theorem longest_one (cs : List Char) : Longest 1 cs [] where
  mem := Language.nil_mem_one
  front := List.nil_prefix
  le := by
    intro v hv _
    rw [(Language.mem_one v).mp hv]

theorem longest_run (p : Char → Bool) (cs : List Char) :
    Longest (letter p)∗ cs (cs.take (runLength p cs)) := by
  rw [take_runLength, ← mul_one (letter p)∗, ← List.append_nil (cs.takeWhile p)]
  exact (longest_one _).star_mul avoids_one

/-! ## Characters counted -/

theorem AtMost.mono (h : AtMost x n L) (hnm : n ≤ m) : AtMost x m L :=
  fun w hw => (h w hw).trans hnm

theorem atMost_one : AtMost x 0 1 := by
  intro w hw
  rw [(Language.mem_one w).mp hw]
  exact le_rfl

theorem atMost_letter : AtMost x 1 (letter p) := by
  rintro w ⟨c, -, rfl⟩
  exact List.count_le_length

theorem atMost_star (hx : p x = false) : AtMost x 0 (letter p)∗ := by
  intro w hw
  refine (List.count_eq_zero.mpr fun hmem => ?_).le
  simp [mem_star_letter.mp hw x hmem] at hx

theorem atMost_letter_of_not (hx : p x = false) : AtMost x 0 (letter p) := by
  rintro w ⟨c, hc, rfl⟩
  refine (List.count_eq_zero.mpr fun hmem => ?_).le
  obtain rfl := List.mem_singleton.mp hmem
  simp [hc] at hx

theorem AtMost.add (hL : AtMost x n L) (hM : AtMost x n M) : AtMost x n (L + M) := by
  rintro w (hw | hw)
  · exact hL w hw
  · exact hM w hw

theorem AtMost.mul (hL : AtMost x n L) (hM : AtMost x m M) : AtMost x (n + m) (L * M) := by
  intro w hw
  obtain ⟨u, hu, v, hv, rfl⟩ := Language.mem_mul.mp hw
  rw [List.count_append]
  exact Nat.add_le_add (hL u hu) (hM v hv)

end SchemaAssist.Token

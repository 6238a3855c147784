/-! # Letter case and words of ASCII text

The language's words are letters, digits and underscores of ASCII, and case is folded for ASCII
letters only. Other characters are left as they are.
-/
namespace SchemaAssist.Text

/-- A letter, a digit or an underscore. -/
def isWordChar (c : Char) : Bool := c = '_' || c.isAlphanum

def lowerAscii (text : String) : String := String.ofList (text.toList.map Char.toLower)

def upperAscii (text : String) : String := String.ofList (text.toList.map Char.toUpper)

/-- Equality up to the case of ASCII letters. -/
def sameWord (a b : String) : Bool := lowerAscii a = lowerAscii b

/-! ## Letters -/

theorem exists_eq_ofNat_add {c : Char} {first : Nat} (hfirst : first ≤ c.toNat)
    (hlast : c.toNat ≤ first + 25) : ∃ i < 26, c = .ofNat (first + i) := by
  refine ⟨c.toNat - first, by omega, ?_⟩
  rw [Nat.add_sub_cancel' hfirst, Char.ofNat_toNat]

/-- Only capital letters change. -/
theorem toLower_cases (c : Char) : c.toLower = c ∨
    ∃ i < 26, c = .ofNat (65 + i) ∧ c.toLower = .ofNat (97 + i) := by
  have hletter : ∀ i < 26, (Char.ofNat (65 + i)).toLower = .ofNat (97 + i) := by decide
  by_cases hc : 65 ≤ c.toNat ∧ c.toNat ≤ 90
  · obtain ⟨i, hi, heq⟩ := exists_eq_ofNat_add hc.1 hc.2
    exact .inr ⟨i, hi, heq, heq ▸ hletter i hi⟩
  · exact .inl (dif_neg hc)

/-- Only small letters change. -/
theorem toUpper_cases (c : Char) : c.toUpper = c ∨
    ∃ i < 26, c = .ofNat (97 + i) ∧ c.toUpper = .ofNat (65 + i) := by
  have hletter : ∀ i < 26, (Char.ofNat (97 + i)).toUpper = .ofNat (65 + i) := by decide
  by_cases hc : 97 ≤ c.toNat ∧ c.toNat ≤ 122
  · obtain ⟨i, hi, heq⟩ := exists_eq_ofNat_add hc.1 hc.2
    exact .inr ⟨i, hi, heq, heq ▸ hletter i hi⟩
  · exact .inl (dif_neg hc)

theorem lowerAscii_lowerAscii (a : String) : lowerAscii (lowerAscii a) = lowerAscii a := by
  have hletter : ∀ i < 26, (Char.ofNat (97 + i)).toLower = .ofNat (97 + i) := by decide
  have h (c : Char) : c.toLower.toLower = c.toLower := by
    obtain hc | ⟨i, hi, -, hc⟩ := toLower_cases c
    · rw [hc, hc]
    · rw [hc, hletter i hi]
  simp [lowerAscii, Function.comp_def, h]

theorem lowerAscii_upperAscii (a : String) : lowerAscii (upperAscii a) = lowerAscii a := by
  have hletter : ∀ i < 26, (Char.ofNat (65 + i)).toLower = (Char.ofNat (97 + i)).toLower := by
    decide
  have h (c : Char) : c.toUpper.toLower = c.toLower := by
    obtain hc | ⟨i, hi, heq, hc⟩ := toUpper_cases c
    · rw [hc]
    · rw [hc, hletter i hi, ← heq]
  simp [lowerAscii, upperAscii, Function.comp_def, h]

theorem upperAscii_upperAscii (a : String) : upperAscii (upperAscii a) = upperAscii a := by
  have hletter : ∀ i < 26, (Char.ofNat (65 + i)).toUpper = .ofNat (65 + i) := by decide
  have h (c : Char) : c.toUpper.toUpper = c.toUpper := by
    obtain hc | ⟨i, hi, -, hc⟩ := toUpper_cases c
    · rw [hc, hc]
    · rw [hc, hletter i hi]
  simp [upperAscii, Function.comp_def, h]

end SchemaAssist.Text

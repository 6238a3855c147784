import SchemaAssist.Proofs.Token.LetterCase
import SchemaAssist.Text.Lowercase

/-! # Lower case and the case of ASCII letters

The lower case of any script forgets at least what the lower case of ASCII forgets. Texts that are
equal up to the case of ASCII letters have one lower case, a final sigma among them or not.
-/
namespace SchemaAssist.Text
open Token (CaseBlind toLower_eq_iff)

theorem caseBlind_lowerChar : CaseBlind lowerChar := .of_forall (by decide +kernel)

theorem caseBlind_isCased : CaseBlind fun c => inRanges casedRanges c.toNat :=
  .of_forall (by decide +kernel)

theorem caseBlind_isCaseIgnorable : CaseBlind fun c => inRanges caseIgnorableRanges c.toNat :=
  .of_forall (by decide +kernel)

theorem startsCased_map_toLower (cs : List Char) :
    startsCased (cs.map Char.toLower) = startsCased cs := by
  induction cs with
  | nil => rfl
  | cons c rest ih =>
    have hignored := caseBlind_isCaseIgnorable c
    have hcased := caseBlind_isCased c
    simp only [startsCased, List.map_cons, List.dropWhile_cons] at ih hignored hcased ⊢
    rw [hignored]
    split_ifs
    · exact ih
    · exact hcased

theorem lowerFrom_map_toLower (before cs : List Char) :
    lowerFrom (before.map Char.toLower) (cs.map Char.toLower) = lowerFrom before cs := by
  induction cs generalizing before with
  | nil => rfl
  | cons c rest ih =>
    have hsigma : ('Σ' : Char).isAlpha = false := by decide
    have hrest := ih (c :: before)
    rw [List.map_cons] at hrest
    simp only [List.map_cons, lowerFrom, toLower_eq_iff hsigma, startsCased_map_toLower,
      caseBlind_lowerChar c, hrest]

theorem lowercase_lowerAscii (text : String) : lowercase (lowerAscii text) = lowercase text := by
  rw [lowercase, lowerAscii, String.toList_ofList]
  exact congrArg String.ofList (lowerFrom_map_toLower [] text.toList)

theorem lowercase_eq_of_sameWord {a b : String} (h : sameWord a b = true) :
    lowercase a = lowercase b := by
  have heq : lowerAscii a = lowerAscii b := of_decide_eq_true h
  rw [← lowercase_lowerAscii a, heq, lowercase_lowerAscii]

end SchemaAssist.Text

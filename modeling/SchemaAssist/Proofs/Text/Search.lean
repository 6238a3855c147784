import Mathlib.Data.List.Induction
import Mathlib.Data.List.Infix
import SchemaAssist.Text.Blank
import SchemaAssist.Text.Search

/-! # Searches among words

A search finds a text just where it stands as a run of characters. The words of a text have no
blanks, and what has none either is found in words joined by blanks only if it is in one of them.
-/
namespace SchemaAssist.Text

variable {needle begun cs w a c : List Char} {b : Char} {text word : String}

theorem isSome_findChars?_iff : (findChars? needle cs).isSome = true ↔ needle <:+: cs := by
  induction cs with
  | nil => simp [findChars?, List.infix_nil]
  | cons c rest ih =>
    rw [findChars?, List.infix_cons_iff, ← List.isPrefixOf_iff_prefix]
    split_ifs with h
    · simp [h]
    · simp [h, ih]

theorem contains_iff {needle : String} :
    contains text needle = true ↔ needle.toList <:+: text.toList :=
  isSome_findChars?_iff

theorem infix_append_cons_iff (hb : b ∉ needle) :
    needle <:+: a ++ b :: c ↔ needle <:+: a ∨ needle <:+: c := by
  have hnil : ∀ run, run <+: b :: c → b ∉ run → run = [] := by
    intro run hrun hmem
    rcases List.prefix_cons_iff.mp hrun with rfl | ⟨rest, rfl, -⟩
    · rfl
    · exact absurd List.mem_cons_self hmem
  constructor
  · intro h
    rcases List.infix_append_iff.mp h with h | h | ⟨front, rest, rfl, hfront, hrest⟩
    · exact .inl h
    · rcases List.infix_cons_iff.mp h with h | h
      · rw [hnil needle h hb]
        exact .inl List.nil_infix
      · exact .inr h
    · obtain rfl := hnil rest hrest fun hmem => hb (List.mem_append_right _ hmem)
      rw [List.append_nil]
      exact .inl hfront.isInfix
  · rintro (h | h)
    · exact h.trans (List.infix_append' [] a (b :: c))
    · exact h.trans ⟨a ++ [b], [], by simp⟩

theorem isBlank_of_mem_wordsFrom (hbegun : ∀ x ∈ begun, isBlank x = false)
    (hw : w ∈ wordsFrom begun cs) : ∀ x ∈ w, isBlank x = false := by
  induction cs generalizing begun with
  | nil =>
    rw [wordsFrom] at hw
    split_ifs at hw with hempty
    · exact absurd hw List.not_mem_nil
    · rwa [List.mem_singleton.mp hw]
  | cons c rest ih =>
    rw [wordsFrom] at hw
    split_ifs at hw with hblank hempty
    · exact ih (List.forall_mem_nil _) hw
    · rcases List.mem_cons.mp hw with rfl | hw
      · exact hbegun
      · exact ih (List.forall_mem_nil _) hw
    · refine ih (fun x hx => ?_) hw
      rcases List.mem_append.mp hx with hx | hx
      · exact hbegun x hx
      · rw [List.mem_singleton.mp hx]
        exact Bool.eq_false_iff.mpr hblank

theorem isBlank_of_mem_words (h : word ∈ words text) : ∀ x ∈ word.toList, isBlank x = false := by
  obtain ⟨w, hw, rfl⟩ := List.mem_map.mp h
  rw [String.toList_ofList]
  exact isBlank_of_mem_wordsFrom (List.forall_mem_nil _) hw

theorem contains_intercalate {needle : String} (hspace : ' ' ∉ needle.toList) (hne : needle ≠ "")
    (ws : List String) :
    contains (" ".intercalate ws) needle = true ↔ ∃ word ∈ ws, contains word needle = true := by
  induction ws using List.twoStepInduction with
  | nil => simp [contains_iff, List.infix_nil, hne]
  | singleton word => simp
  | cons_cons word next rest _ ih =>
    rw [List.exists_mem_cons_iff, ← ih next, String.intercalate_cons_cons, contains_iff,
      contains_iff, contains_iff, String.toList_append, String.toList_append, List.append_assoc]
    exact infix_append_cons_iff hspace

end SchemaAssist.Text

import Mathlib.Data.List.DropRight
import SchemaAssist.Proofs.Completion.Detection
import SchemaAssist.Proofs.Completion.Offer
import SchemaAssist.Proofs.Syntax.WellLinked
import SchemaAssist.Proofs.Token.Units

/-! # What a suggestion replaces

The text that a suggestion replaces ends at the cursor, so it must start at or before it, whatever
the spans of the tree are. Where no node says what to replace, it is the word before the cursor: as
many bytes as are letters, digits or underscores.
-/
namespace SchemaAssist.Completion
open Syntax Text Token

variable {text : String} {t : Tree} {a b c : List Char} {i : ℕ}

/-! ## The word before the cursor -/

/-- Whether a byte of the text is a letter, a digit or an underscore. -/
def isWordByte (text : String) (i : ℕ) : Bool :=
  (utf8 text.toList)[i]?.any fun byte => isWordChar (Char.ofUInt8 byte)

/-- The bytes between two offsets are a word that no byte before it belongs to. -/
structure WordRun (text : String) (first last : ℕ) : Prop where
  le : first ≤ last
  word : ∀ i, first ≤ i → i < last → isWordByte text i = true
  longest : ∀ i, i + 1 = first → isWordByte text i = false

theorem isWordByte_eq {v : Bool} (htext : text.toList = a ++ b ++ c)
    (hb : ∀ x ∈ b, isWordChar x = v) (hfirst : byteLength a ≤ i)
    (hlast : i < byteLength a + byteLength b) : isWordByte text i = v :=
  withinAscii_isWordChar.any_utf8_eq htext hb hfirst hlast

theorem wordRun_boundary {pre post : List Char} (htext : text.toList = pre ++ post) :
    WordRun text (byteLength pre - (pre.rtakeWhile isWordChar).length) (byteLength pre) := by
  have hpre : pre.rdropWhile isWordChar ++ pre.rtakeWhile isWordChar = pre :=
    List.rdropWhile_append_rtakeWhile
  generalize hfront : pre.rdropWhile isWordChar = front at hpre
  generalize hword : pre.rtakeWhile isWordChar = word at hpre
  have hall : ∀ x ∈ word, isWordChar x = true := fun x hx => List.mem_rtakeWhile_imp (hword ▸ hx)
  have hlen : byteLength word = word.length :=
    byteLength_of_forall_isAscii fun x hx => withinAscii_isWordChar x (hall x hx)
  have hstart : byteLength pre - word.length = byteLength front := by
    rw [← hpre, byteLength_append, hlen, Nat.add_sub_cancel]
  rw [hstart]
  refine ⟨by rw [← hstart]; exact Nat.sub_le _ _, fun i hfirst hlast => ?_, fun i hi => ?_⟩
  · rw [← hpre, byteLength_append] at hlast
    exact isWordByte_eq (htext.trans (by rw [hpre])) hall hfirst hlast
  · -- the last byte of a character before the word
    obtain rfl | ⟨rest, x, rfl⟩ := front.eq_nil_or_concat
    · cases hi
    have hx : isWordChar x = false := by
      have hne : pre.rdropWhile isWordChar ≠ [] := by simp [hfront]
      have hlast := List.rdropWhile_last_not isWordChar pre hne
      simpa [hfront] using hlast
    have hsplit : text.toList = rest ++ [x] ++ (word ++ post) := by
      rw [htext, ← hpre, List.concat_eq_append, List.append_assoc]
    rw [List.concat_eq_append] at hi
    exact withinAscii_isWordChar.any_utf8_pred hsplit hx hi

theorem wordRun_inside {pre post : List Char} {x : Char} {offset : ℕ}
    (htext : text.toList = pre ++ x :: post) (hlow : byteLength pre < offset)
    (hhigh : offset < byteLength pre + x.utf8Size) : WordRun text offset offset := by
  have hx : isWordChar x = false := by
    refine withinAscii_isWordChar.eq_false (Bool.eq_false_iff.mpr fun hascii => ?_)
    rw [utf8Size_of_isAscii hascii] at hhigh
    omega
  have hsplit : text.toList = pre ++ [x] ++ post := by
    rw [htext, List.append_assoc, List.singleton_append]
  refine ⟨le_rfl, fun i hfirst hlast => absurd hfirst (Nat.not_le_of_lt hlast), fun i hi => ?_⟩
  exact isWordByte_eq hsplit (List.forall_mem_singleton.mpr hx) (by omega)
    (by rw [byteLength_cons, byteLength_nil]; omega)

theorem wordRun_wordStart {offset : ℕ} (h : offset ≤ size text) :
    WordRun text (wordStart text offset) offset := by
  rw [wordStart, Nat.min_eq_left h]
  cases hcut : splitAt? offset text.toList with
  | none =>
    obtain ⟨pre, x, post, htext, hlow, hhigh⟩ := exists_around_of_splitAt? h hcut
    simpa only [hcut] using wordRun_inside htext hlow hhigh
  | some cut =>
    obtain ⟨pre, post⟩ := cut
    obtain ⟨htext, hlen⟩ := append_of_splitAt? hcut
    have hrun := wordRun_boundary htext.symm
    rw [hlen, List.rtakeWhile, List.length_reverse] at hrun
    simpa only [hcut] using hrun

/-! ## The start of what is replaced -/

theorem indexNameStart_le {block offset : ℕ} (h : ∀ i < t.size, t.start i ≤ t.stop i)
    (hlinked : Linked t.nodes) (hblock : block < t.size) :
    indexNameStart t block offset ≤ offset := by
  have hordered : ∀ i ∈ t.childrenOf block .indexColumnName, t.start i ≤ t.stop i := by
    intro i hi
    exact h i (hlinked.lt_size_of_mem_children hblock (List.mem_filter.mp hi).1)
  rw [indexNameStart]
  generalize t.childrenOf block .indexColumnName = names at hordered ⊢
  induction names using List.reverseRecOn with
  | nil => exact le_rfl
  | append_singleton names i ih =>
    rw [List.foldl_append, List.foldl_cons, List.foldl_nil]
    split
    · next hstop =>
      rw [← hstop]
      exact hordered i (List.mem_append_right _ (List.mem_singleton_self i))
    · exact ih fun j hj => hordered j (List.mem_append_left _ hj)

theorem replaceFrom_le {d : Dialect} {offset : ℕ} {o : Offer} {c : Context}
    (h : ∀ i < t.size, t.start i ≤ t.stop i) (hlinked : Linked t.nodes)
    (hcontext : detect text t offset = some c)
    (hoffer : offer d text t (min offset (size text)) c = some o) :
    o.replaceFrom ≤ min offset (size text) := by
  have hindex {i : ℕ} (hc : indexTypeContext text t i (min offset (size text)) = some c) :
      o.replaceFrom ≤ min offset (size text) := by
    obtain ⟨_, hle, _, _, rfl⟩ := eq_of_indexTypeContext hc
    rw [offer] at hoffer
    split at hoffer
    · cases hoffer
    · cases hoffer
      exact hle
  have hword : wordStart text (min offset (size text)) ≤ min offset (size text) :=
    (wordRun_wordStart (Nat.min_le_right _ _)).le
  rcases cases_detect hcontext with ⟨e, he, hc⟩ | ⟨i, hi, hc⟩
  · have hstart := (Tree.of_errorAt he).1.start_le
    rcases hc with rfl | rfl | rfl <;> (cases hoffer; exact hstart)
  · cases hc with
    | index hk hc => exact hindex hc
    | indexColumns hk htable =>
      cases hoffer
      exact indexNameStart_le h hlinked (hlinked.lt_size_of_mem_resolve hi)
    | indexBlock hk hlast hc => exact hindex hc
    | column hk herror =>
      cases hoffer
      exact hword
    | tableBody hk =>
      cases hoffer
      exact hword
    | script hk =>
      cases hoffer
      exact hword

theorem exists_of_resolve {d : Dialect} {upperCase : Bool} {offset : ℕ} {r : Result}
    (h : resolve d upperCase text t offset = some r) : ∃ c o, detect text t offset = some c ∧
      offer d text t (min offset (size text)) c = some o ∧ r = o.result upperCase := by
  rw [resolve_eq, Option.map_eq_some_iff] at h
  obtain ⟨o, ho, rfl⟩ := h
  obtain ⟨c, hc, ho⟩ := Option.bind_eq_some_iff.mp ho
  exact ⟨c, o, hc, ho, rfl⟩

theorem replaceFrom_le_of_resolve {events : List Event} {d : Dialect} {upperCase : Bool}
    {offset : ℕ} {r : Result} (h : resolve d upperCase text (.ofEvents events) offset = some r) :
    r.replaceFrom ≤ min offset (size text) := by
  obtain ⟨c, o, hcontext, hoffer, rfl⟩ := exists_of_resolve h
  rw [replaceFrom_result]
  exact replaceFrom_le (ordered_ofEvents events) (linked_ofEvents events) hcontext hoffer

theorem wordRun_of_resolve {d : Dialect} {upperCase : Bool} {offset : ℕ} {r : Result} {c : Context}
    (h : resolve d upperCase text t offset = some r) (hcontext : detect text t offset = some c)
    (hc : c = .script ∨ ∃ i, c = .column i ∨ c = .tableBody i) :
    WordRun text r.replaceFrom (min offset (size text)) := by
  obtain ⟨c', o, hcontext', hoffer, rfl⟩ := exists_of_resolve h
  obtain rfl : c = c' := Option.some.inj (hcontext.symm.trans hcontext')
  have hrun : WordRun text (wordStart text (min offset (size text))) (min offset (size text)) :=
    wordRun_wordStart (Nat.min_le_right _ _)
  rw [replaceFrom_result]
  rcases hc with rfl | ⟨i, rfl | rfl⟩ <;> (cases hoffer; exact hrun)

end SchemaAssist.Completion

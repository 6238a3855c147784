import Mathlib.Data.List.DropRight
import SchemaAssist.Proofs.Completion.Detection
import SchemaAssist.Proofs.Syntax.Laminar
import SchemaAssist.Proofs.Token.Units

/-! # What the type of an index replaces

Behind the last part of an index, what is replaced begins behind the last blank since the start of
that part. If no blank stands behind a list of columns, the last blank may be one inside the list.
-/
namespace SchemaAssist.Completion
open Syntax Text Token

variable {text : String} {t : Tree} {offset index replaceFrom i : ℕ} {hasUnique hasMethod : Bool}
  {events : List Event}

/-! ## The cut behind a blank -/

/-- Whether a byte of the text is a space or a tab. -/
def isBlankByte (text : String) (i : ℕ) : Bool :=
  (utf8 text.toList)[i]?.any fun byte => isSpaceOrTab (Char.ofUInt8 byte)

/-- An offset between two others that follows the last blank between them, or is the first of them
if there is none. -/
structure BehindBlank (text : String) (first cut last : ℕ) : Prop where
  first_le : first ≤ cut
  le_last : cut ≤ last
  blank : ∀ i, first ≤ i → i + 1 = cut → isBlankByte text i = true
  latest : ∀ i, cut ≤ i → i < last → isBlankByte text i = false

theorem withinAscii_isSpaceOrTab : WithinAscii isSpaceOrTab := by
  intro c hc
  rcases Bool.or_eq_true_iff.mp hc with h | h
  · exact withinAscii_of_eq (by decide) c h
  · exact withinAscii_of_eq (by decide) c h

theorem behindBlank_append {front kept word back : List Char}
    (htext : text.toList = front ++ (kept ++ word) ++ back)
    (hkept : ∀ x, kept.getLast? = some x → isSpaceOrTab x = true)
    (hword : ∀ x ∈ word, isSpaceOrTab x = false) :
    BehindBlank text (byteLength front) (byteLength (front ++ kept))
      (byteLength (front ++ (kept ++ word))) where
  first_le := by
    rw [byteLength_append]
    exact Nat.le_add_right _ _
  le_last := by
    rw [← List.append_assoc, byteLength_append _ word]
    exact Nat.le_add_right _ _
  blank := by
    intro i hfirst hi
    obtain rfl | ⟨rest, x, rfl⟩ := kept.eq_nil_or_concat
    · rw [List.append_nil] at hi
      omega
    · rw [List.concat_eq_append] at hkept hi htext
      rw [← List.append_assoc] at hi
      have hsplit : text.toList = (front ++ rest) ++ [x] ++ (word ++ back) := by
        simpa using htext
      exact withinAscii_isSpaceOrTab.any_utf8_pred hsplit (hkept x List.getLast?_concat) hi
  latest := by
    intro i hcut hi
    have hsplit : text.toList = (front ++ kept) ++ word ++ back := by
      simpa using htext
    rw [← List.append_assoc, byteLength_append _ word] at hi
    exact withinAscii_isSpaceOrTab.any_utf8_eq hsplit hword hcut hi

theorem behindBlank_lastWord {front typed back : List Char}
    (htext : text.toList = front ++ typed ++ back) :
    BehindBlank text (byteLength front)
      (byteLength (front ++ typed) - byteLength (lastWord typed))
      (byteLength (front ++ typed)) := by
  have htyped : typed.rdropWhile (fun c => !isSpaceOrTab c) ++ lastWord typed = typed :=
    List.rdropWhile_append_rtakeWhile
  have hkept := List.rdropWhile_last_not (fun c => !isSpaceOrTab c) typed
  have hword : ∀ x ∈ lastWord typed, isSpaceOrTab x = false := by
    intro x hx
    simpa using List.mem_rtakeWhile_imp hx
  generalize typed.rdropWhile (fun c => !isSpaceOrTab c) = kept at htyped hkept
  generalize lastWord typed = word at htyped hword ⊢
  subst htyped
  have hlast : ∀ x, kept.getLast? = some x → isSpaceOrTab x = true := by
    intro x hx
    obtain ⟨rest, rfl⟩ := List.getLast?_eq_some_iff.mp hx
    simpa using hkept
  have hcut : byteLength (front ++ (kept ++ word)) - byteLength word =
      byteLength (front ++ kept) := by
    rw [← List.append_assoc, byteLength_append _ word, Nat.add_sub_cancel]
  rw [hcut]
  exact behindBlank_append htext hlast hword

/-! ## The rule for indexes -/

theorem behindBlank_of_indexTypeContext (h : indexTypeContext text t i offset =
      some (.indexType index replaceFrom hasUnique hasMethod)) :
    i = index ∧ ∃ last, (t.node index).lastChild = some last ∧ t.stop last ≤ offset ∧
      BehindBlank text (t.start last) replaceFrom offset := by
  unfold indexTypeContext at h
  split at h
  · cases h
  next last hlast =>
  split_ifs at h with hlt
  split at h
  · cases h
  next typed htyped =>
  obtain ⟨front, back, htext, hfront, hstop⟩ := append_of_slice? htyped
  cases h
  have hcut := behindBlank_lastWord htext
  rw [byteLength_append, hfront, hstop] at hcut
  exact ⟨rfl, last, hlast, Nat.le_of_not_lt hlt, hcut⟩

theorem mem_of_indexOnLine {block : ℕ} (h : indexOnLine text t block offset = some i) :
    i ∈ t.children block := by
  unfold indexOnLine at h
  split at h
  · cases h
  next j hj =>
  have hmem := List.mem_of_getLast? hj
  split at h
  · split_ifs at h
    cases h
    exact (List.mem_filter.mp (List.mem_filter.mp hmem).1).1
  · cases h

theorem indexTypeContext_of_detect (hlinked : Linked t.nodes)
    (h : detect text t offset = some (.indexType index replaceFrom hasUnique hasMethod)) :
    index < t.size ∧ indexTypeContext text t index (min offset (size text)) =
      some (.indexType index replaceFrom hasUnique hasMethod) := by
  rcases cases_detect h with ⟨e, -, hc | hc | hc⟩ | ⟨i, hi, hc⟩
  · cases hc
  · cases hc
  · cases hc
  · have his := hlinked.lt_size_of_mem_resolve hi
    cases hc with
    | index hk hc =>
      obtain ⟨rfl, -⟩ := behindBlank_of_indexTypeContext hc
      exact ⟨his, hc⟩
    | indexBlock hk hindex hc =>
      obtain ⟨rfl, -⟩ := behindBlank_of_indexTypeContext hc
      exact ⟨hlinked.lt_size_of_mem_children his (mem_of_indexOnLine hindex), hc⟩

/-! ## Lists of columns -/

theorem stop_le_start_last (hasc : Ascending events) {p c last : ℕ}
    (hp : p < (Tree.ofEvents events).size) (hc : c ∈ (Tree.ofEvents events).children p)
    (hlast : ((Tree.ofEvents events).node p).lastChild = some last) (hne : c ≠ last) :
    (Tree.ofEvents events).stop c ≤ (Tree.ofEvents events).start last := by
  have hlinked := linked_ofEvents events
  rw [hlinked.lastChild_eq hp, ← hlinked.children_eq hp] at hlast
  have hmem := List.mem_of_getLast? hlast
  rw [hlinked.children_eq hp, getLast?_eq_iff (pairwise_kids _ _),
    ← hlinked.children_eq hp] at hlast
  exact (enclosing_ofEvents hasc).apart c last p ((hlinked.mem_children hp).mp hc)
    ((hlinked.mem_children hp).mp hmem) (lt_of_le_of_ne (hlast.2 c hc) hne)

/-- A span that starts where the search for blanks does is spared just if it is empty or a blank
stands at its last byte or behind it. -/
theorem BehindBlank.le_iff {first cut last stop : ℕ} (h : BehindBlank text first cut last) :
    stop ≤ cut ↔
      (first < stop → ∃ k, stop ≤ k + 1 ∧ k < last ∧ isBlankByte text k = true) := by
  constructor
  · intro hle hlt
    refine ⟨cut - 1, by omega, ?_, h.blank _ (by omega) (by omega)⟩
    have := h.le_last
    omega
  · intro hblank
    rcases Nat.lt_or_ge first stop with hlt | hge
    · obtain ⟨k, hstop, hk, hkblank⟩ := hblank hlt
      by_contra hcut
      have hnone := h.latest k (by omega) hk
      simp [hkblank] at hnone
    · exact hge.trans h.first_le

/-- The type of an index is expected behind the index's last part, and what it replaces begins
behind the last blank since the start of that part. So a list of columns that is not the last part is
spared. One that is the last part is spared just if it is empty or a blank stands at its last byte or
behind it. -/
theorem indexType_replaces (hasc : Ascending events)
    (h : detect text (.ofEvents events) offset =
      some (.indexType index replaceFrom hasUnique hasMethod)) :
    ∃ last, ((Tree.ofEvents events).node index).lastChild = some last ∧
      (Tree.ofEvents events).stop last ≤ min offset (size text) ∧
      BehindBlank text ((Tree.ofEvents events).start last) replaceFrom (min offset (size text)) ∧
      ∀ c ∈ (Tree.ofEvents events).childrenOf index .indexColumnBlock,
        ((Tree.ofEvents events).stop c ≤ replaceFrom ↔
          (c = last → (Tree.ofEvents events).start c < (Tree.ofEvents events).stop c →
            ∃ k, (Tree.ofEvents events).stop c ≤ k + 1 ∧ k < min offset (size text) ∧
              isBlankByte text k = true)) := by
  obtain ⟨hindex, hcontext⟩ := indexTypeContext_of_detect (linked_ofEvents events) h
  obtain ⟨-, last, hlast, hstop, hcut⟩ := behindBlank_of_indexTypeContext hcontext
  refine ⟨last, hlast, hstop, hcut, fun c hc => ?_⟩
  by_cases hcl : c = last
  · subst hcl
    rw [hcut.le_iff]
    exact ⟨fun hblank _ => hblank, fun hblank => hblank rfl⟩
  · have hle := stop_le_start_last hasc hindex (List.mem_filter.mp hc).1 hlast hcl
    exact iff_of_true (hle.trans hcut.first_le) fun heq => absurd heq hcl

/-- A blank behind the columns spares them. -/
theorem indexType_replaces_blank :
    let text := "(é, b) u"
    let events : List Event := [.start .sourceFile 0, .start .index 0,
      .leaf .indexColumnBlock 0 7, .finish 9, .finish 9]
    Ascending events ∧ detect text (.ofEvents events) 9 = some (.indexType 1 8 false false) ∧
      (Tree.ofEvents events).stop 2 ≤ 8 := by
  intro text events
  have hasc : Ascending events := by decide
  have hcontext : detect text (.ofEvents events) 9 = some (.indexType 1 8 false false) := by
    decide +kernel
  obtain ⟨last, hlast, -, -, hcolumns⟩ := indexType_replaces hasc hcontext
  have hmem : 2 ∈ (Tree.ofEvents events).childrenOf 1 .indexColumnBlock := by
    decide +kernel
  exact ⟨hasc, hcontext, (hcolumns 2 hmem).mpr fun _ _ => ⟨7, by decide +kernel⟩⟩

/-- Without it what is replaced begins behind the blank between the columns. -/
theorem indexType_replaces_columns :
    let text := "(a, b)u"
    let events : List Event := [.start .sourceFile 0, .start .index 0,
      .leaf .indexColumnBlock 0 6, .finish 7, .finish 7]
    Ascending events ∧ detect text (.ofEvents events) 7 = some (.indexType 1 4 false false) ∧
      2 ∈ (Tree.ofEvents events).childrenOf 1 .indexColumnBlock ∧
      ¬ (Tree.ofEvents events).stop 2 ≤ 4 := by
  intro text events
  refine ⟨?_, ?_, ?_, ?_⟩
  · decide
  · decide +kernel
  · decide +kernel
  · decide +kernel

end SchemaAssist.Completion

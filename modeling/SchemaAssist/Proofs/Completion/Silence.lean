import SchemaAssist.Proofs.Completion.Detection
import SchemaAssist.Proofs.Syntax.WellLinked

/-! # Where nothing is suggested

Nothing is suggested in a node that is a literal or a comment itself. Nodes of other kinds below a
comment are asked like any others, so a comment is silent throughout exactly where its nodes at the
cursor are literals and comments down to the innermost one.
-/
namespace SchemaAssist.Syntax
open Syntax.Tree

namespace Linked
variable {t : Tree} (h : Linked t.nodes) {i pos x : ℕ}
include h

/-- The way down from a node adds nodes that reach the position and keeps the path above. -/
theorem path_resolveFrom (pos : ℕ) (hi : i < t.size) :
    i :: t.ancestors i <:+ t.resolveFrom pos i :: t.ancestors (t.resolveFrom pos i) ∧
      ∀ x ∈ t.resolveFrom pos i :: t.ancestors (t.resolveFrom pos i),
        x ∈ i :: t.ancestors i ∨ t.reaches pos x := by
  induction hn : t.size - i using Nat.strong_induction_on generalizing i with
  | _ n ih =>
    rw [resolveFrom]
    cases hfind : (t.childrenBack i).find? (t.reaches pos) with
    | none => exact ⟨List.suffix_rfl, fun x hx => .inl hx⟩
    | some c =>
      have hrc : t.reaches pos c := List.find?_some hfind
      have hc := (h.mem_childrenBack hi).mp (List.mem_of_find?_eq_some hfind)
      obtain ⟨hic, hcs⟩ := h.parent_lt hc
      obtain ⟨hsuffix, hpath⟩ := ih (t.size - c) (by omega) hcs rfl
      simp only [hic, hcs, and_self, dif_pos]
      rw [h.ancestors_of_parent hc] at hsuffix hpath
      refine ⟨(List.suffix_cons c _).trans hsuffix, fun x hx => ?_⟩
      rcases hpath x hx with hx | hx
      · rcases List.mem_cons.mp hx with rfl | hx
        · exact .inr hrc
        · exact .inl hx
      · exact .inr hx

theorem ancestors_zero : t.ancestors 0 = [] := by
  rw [ancestors_eq_path, path_of_none h.parent_zero]

theorem zero_mem_resolve (pos : ℕ) : 0 ∈ t.resolve pos :: t.ancestors (t.resolve pos) :=
  (h.path_resolveFrom pos t.nonempty).1.subset List.mem_cons_self

theorem reaches_of_mem_resolve (hx : x ∈ t.resolve pos :: t.ancestors (t.resolve pos))
    (hpos : 0 < x) : t.reaches pos x := by
  refine ((h.path_resolveFrom pos t.nonempty).2 x hx).resolve_left fun hroot => ?_
  rw [h.ancestors_zero, List.mem_singleton] at hroot
  exact hpos.ne' hroot

/-- What passes from parents to the children at a position comes down to the innermost node. -/
theorem resolve_of_mem {P : ℕ → Prop}
    (hdown : ∀ a < t.size, P a → ∀ c ∈ t.children a, t.reaches pos c → P c)
    (hx : x ∈ t.resolve pos :: t.ancestors (t.resolve pos)) (hP : P x) : P (t.resolve pos) := by
  induction hn : t.resolve pos - x using Nat.strong_induction_on generalizing x with
  | _ n ih =>
    rcases List.mem_cons.mp hx with rfl | habove
    · exact hP
    · rw [ancestors_eq_path] at habove
      obtain ⟨c, hc, hparent, hlt⟩ := exists_child_of_mem_path habove
      rw [← ancestors_eq_path] at hc
      have hxs := h.lt_size_of_mem_resolve hx
      have hreach := h.reaches_of_mem_resolve hc (by omega)
      have hle := le_of_mem_cons_path (ancestors_eq_path t _ ▸ hc)
      exact ih _ (by omega) hc (hdown x hxs hP c ((h.mem_children hxs).mpr hparent) hreach) rfl

end Linked
end SchemaAssist.Syntax

namespace SchemaAssist.Completion
open Syntax Text

/-- At a position, literals and comments hold only literals and comments. -/
def SealedAt (t : Tree) (pos : ℕ) : Prop :=
  ∀ a < t.size, (t.kind a).isLiteralOrComment → ∀ c ∈ t.children a, t.reaches pos c →
    (t.kind c).isLiteralOrComment

instance (t : Tree) (pos : ℕ) : Decidable (SealedAt t pos) :=
  inferInstanceAs (Decidable (∀ a < t.size, _ → ∀ c ∈ t.children a, _ → _))

variable {text : String} {t : Tree} {offset : ℕ}

theorem isSome_contextOnPath (text : String) (offset : ℕ) (atError : Bool) {nodes : List ℕ}
    (hroot : ∃ i ∈ nodes, t.kind i = .sourceFile) (hblock : ∀ i ∈ nodes, t.kind i ≠ .indexBlock) :
    (contextOnPath text t offset atError nodes).isSome := by
  induction nodes with
  | nil => simp at hroot
  | cons i above ih =>
    obtain ⟨hne, hblock⟩ := List.forall_mem_cons.mp hblock
    have hrest (hk : t.kind i ≠ .sourceFile) :
        (contextOnPath text t offset atError above).isSome := by
      obtain ⟨j, hj, hroot⟩ := hroot
      refine ih ⟨j, List.mem_of_ne_of_mem ?_ hj, hroot⟩ hblock
      rintro rfl
      exact hk hroot
    rw [contextOnPath]
    split
    next hk =>
      split
      · rfl
      · exact hrest (by simp [hk])
    next hk =>
      split
      · rfl
      · exact hrest (by simp [hk])
    next hk => exact absurd hk hne
    next hk =>
      split_ifs
      · exact hrest (by simp [hk])
      · rfl
    next => rfl
    next => rfl
    next => exact hrest (by assumption)

theorem detect_of_literal
    (h : (t.kind (t.resolve (min offset (size text)))).isLiteralOrComment) :
    detect text t offset = none := by
  simp only [detect, h, if_true]

theorem detect_ne_none (hlinked : Linked t.nodes)
    (hnode : ¬(t.kind (t.resolve (min offset (size text)))).isLiteralOrComment)
    (hroot : t.kind 0 = .sourceFile)
    (hblock : ∀ a ∈ t.resolve (min offset (size text)) ::
      t.ancestors (t.resolve (min offset (size text))), t.kind a ≠ .indexBlock) :
    detect text t offset ≠ none := by
  have hpath (atError : Bool) := isSome_contextOnPath text (min offset (size text)) atError
    ⟨0, hlinked.zero_mem_resolve _, hroot⟩ hblock
  simp only [detect, hnode, Bool.false_eq_true, if_false]
  split
  · exact Option.some_ne_none _
  · exact Option.isSome_iff_ne_none.mp (hpath _)

/-- Nothing is suggested within literals and comments that are sealed at the cursor. Below a source
file and outside index blocks, nothing is suggested exactly where the innermost node is a literal or
a comment itself. -/
theorem silent_in_literals (events : List Event) (text : String) (offset : ℕ) :
    let t := Tree.ofEvents events
    let o := min offset (size text)
    let nodes := t.resolve o :: t.ancestors (t.resolve o)
    (SealedAt t o → (∃ a ∈ nodes, (t.kind a).isLiteralOrComment) → detect text t offset = none) ∧
      (t.kind 0 = .sourceFile → (∀ a ∈ nodes, t.kind a ≠ .indexBlock) →
        (detect text t offset = none ↔ (t.kind (t.resolve o)).isLiteralOrComment)) := by
  intro t o nodes
  have h := linked_ofEvents events
  refine ⟨fun hsealed ⟨a, ha, hliteral⟩ => ?_, fun hroot hblock => ⟨fun hnone => ?_, ?_⟩⟩
  · exact detect_of_literal (h.resolve_of_mem hsealed ha hliteral)
  · by_contra hnode
    exact detect_ne_none h hnode hroot hblock hnone
  · exact detect_of_literal

/-- In the string of a comment nothing is suggested, but at the keyword before it. -/
theorem silent_in_literals_string :
    let text := "Table t \x7b\n  id int comment 'n'\n\x7d"
    let events : List Event := [.start .sourceFile 0, .start .tableBlock 0, .leaf .table 0 5,
      .start .column 12, .leaf .columnName 12 14, .leaf .dataType 15 18, .start .columnComment 19,
      .leaf .keyword 19 26, .leaf .string 27 30, .finish 30, .finish 30, .leaf .braceClose 31 32]
    let t := Tree.ofEvents events
    SealedAt t 29 ∧ detect text t 29 = none ∧
      (∃ a ∈ t.resolve 24 :: t.ancestors (t.resolve 24), t.kind a = .columnComment) ∧
      detect text t 24 ≠ none := by
  intro text events t
  have hmin {n : ℕ} (hn : n ≤ 32) : min n (size text) = n :=
    Nat.min_eq_left (hn.trans (by decide))
  have hsealed : SealedAt t 29 := by decide +kernel
  obtain ⟨hstring, -⟩ := silent_in_literals events text 29
  obtain ⟨-, hkeyword⟩ := silent_in_literals events text 24
  rw [hmin (by decide)] at hstring hkeyword
  have hiff := hkeyword (by decide +kernel) (by decide +kernel)
  refine ⟨hsealed, hstring hsealed (by decide +kernel), by decide +kernel, fun hnone => ?_⟩
  exact absurd (hiff.mp hnone) (by decide +kernel)

/-- At a keyword of a comment the column answers, and at a word that does not fit there the table
does, as an error touches the cursor. -/
theorem suggests_in_comment :
    let text := "Table t \x7b\n  id int comment note\n\x7d"
    let t := Tree.ofEvents [.start .sourceFile 0, .start .tableBlock 0, .leaf .table 0 5,
      .start .tableName 6, .leaf .identifier 6 7, .finish 7, .leaf .braceOpen 8 9,
      .start .column 12, .start .columnName 12, .leaf .identifier 12 14, .finish 14,
      .start .dataType 15, .leaf .type 15 18, .finish 18, .start .columnComment 19,
      .leaf .keyword 19 26, .start .error 27, .leaf .identifier 27 31, .finish 31, .finish 31,
      .finish 31, .leaf .braceClose 32 33, .finish 33, .finish 33]
    (∃ a ∈ t.resolve 24 :: t.ancestors (t.resolve 24), (t.kind a).isLiteralOrComment) ∧
      detect text t 24 = some (.column 6) ∧
      (∃ a ∈ t.resolve 29 :: t.ancestors (t.resolve 29), (t.kind a).isLiteralOrComment) ∧
      detect text t 29 = some (.tableBody 1) := by
  decide +kernel

end SchemaAssist.Completion

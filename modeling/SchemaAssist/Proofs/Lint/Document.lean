import SchemaAssist.Lint.Document
import SchemaAssist.Syntax.Builder
import SchemaAssist.Proofs.Lint.Columns

/-! # The diagnostics of a document

The single pass reports what a look at the whole tree reports: the errors of known shape, and then
the names in indexes that the table around them does not declare.
-/
namespace SchemaAssist.Lint.Pass
open Syntax

variable {text : String} {t : Tree}

theorem visit_of_error {i : ℕ} (h : t.kind i = .error) (c : ColumnCheck) :
    c.visit text t i = c := by
  have hdeclaration : ColumnCheck.declaration? text t i = none := by
    simp [ColumnCheck.declaration?, h]
  have hreference : ColumnCheck.reference? text t i = none := by
    simp [ColumnCheck.reference?, h]
  simp [ColumnCheck.visit, hdeclaration, hreference]

theorem foldl_visit (nodes : List ℕ) (p : Pass) : nodes.foldl (visit text t) p =
    ⟨p.diagnostics ++ (nodes.filter (t.kind · = .error)).filterMap (errorDiagnostic text t),
      nodes.foldl (ColumnCheck.visit text t) p.columns⟩ := by
  induction nodes generalizing p with
  | nil => simp
  | cons i rest ih =>
    rw [List.foldl_cons, List.foldl_cons, ih, visit]
    by_cases h : t.kind i = .error
    · rw [if_pos h, visit_of_error h, List.filter_cons_of_pos (by simpa using h),
        List.filterMap_cons, List.append_assoc]
      cases errorDiagnostic text t i with
      | none => rfl
      | some d => rfl
    · rw [if_neg h, List.filter_cons_of_neg (by simpa using h)]

end SchemaAssist.Lint.Pass

namespace SchemaAssist
open Syntax Lint

theorem exists_error_of_mem_lint {text : String} {t : Tree} {d : Diagnostic} (hd : d ∈ lint text t)
    (hfix : d.fix.isSome = true) : ∃ e ∈ t.ids, d.start = t.start e ∧ d.stop = t.stop e := by
  rw [lint, Pass.foldl_visit] at hd
  split at hd
  · cases hd
  · rcases List.mem_append.mp hd with hd | hd
    · obtain ⟨e, he, hd⟩ := List.mem_filterMap.mp hd
      obtain ⟨shape, -, rfl⟩ := Option.map_eq_some_iff.mp hd
      refine ⟨e, (List.mem_filter.mp he).1, ?_⟩
      cases shape with
      | topLevel => exact ⟨rfl, rfl⟩
      | nullable => exact ⟨rfl, rfl⟩
      | _ => cases hfix
    · obtain ⟨r, -, rfl⟩ := List.mem_map.mp hd
      cases hfix

namespace Lint

/-- The diagnostic that an error node calls for by its shape. -/
def Reports (text : String) (t : Tree) (e : ℕ) (d : Diagnostic) : Prop :=
  ∃ shape, Shape.classify t e = some shape ∧ d = shape.diagnostic text t e

theorem forall₂_reports (text : String) (t : Tree) (nodes : List ℕ) :
    List.Forall₂ (Reports text t) (nodes.filter fun e => (Shape.classify t e).isSome)
      (nodes.filterMap (errorDiagnostic text t)) := by
  induction nodes with
  | nil => exact .nil
  | cons e rest ih =>
    cases hshape : Shape.classify t e with
    | none =>
      have hnone : errorDiagnostic text t e = none := by rw [errorDiagnostic, hshape, Option.map_none]
      rwa [List.filterMap_cons_none hnone, List.filter_cons_of_neg (by simp [hshape])]
    | some shape =>
      have hsome : errorDiagnostic text t e = some (shape.diagnostic text t e) := by
        rw [errorDiagnostic, hshape, Option.map_some]
      rw [List.filterMap_cons_some hsome, List.filter_cons_of_pos (by simp [hshape])]
      exact .cons ⟨shape, hshape, rfl⟩ ih

end Lint

/-- A document with text has one diagnostic for each error of known shape, that of its shape, and
then one for each dangling name. The order of the visits changes neither the declared columns nor the
reports. -/
theorem lint_eq_reports (text : String) (t : Tree) (htext : text ≠ "") :
    (∃ reports,
      List.Forall₂ (Reports text t)
        (t.ids.filter fun i => t.kind i = .error ∧ (Shape.classify t i).isSome) reports ∧
      lint text t = reports ++
        ((t.ids.filter (ColumnCheck.Dangling text t ·)).map fun i =>
          .error (t.start i) (t.stop i) "Column name not found")) ∧
      ∀ nodes nodes' : List ℕ, nodes.Perm nodes' →
        (∀ table, ((ColumnCheck.visitAll text t nodes).declaredIn table).Perm
          ((ColumnCheck.visitAll text t nodes').declaredIn table)) ∧
        (ColumnCheck.visitAll text t nodes).undeclared.Perm
          (ColumnCheck.visitAll text t nodes').undeclared := by
  constructor
  · refine ⟨t.errors.filterMap (errorDiagnostic text t), ?_, ?_⟩
    · have hknown : (t.ids.filter fun i => t.kind i = .error ∧ (Shape.classify t i).isSome) =
          t.errors.filter fun i => (Shape.classify t i).isSome := by
        simp [Tree.errors, List.filter_filter, Bool.and_comm]
      rw [hknown]
      exact forall₂_reports text t t.errors
    · have hempty : text.isEmpty = false := by
        simpa using htext
      rw [lint, hempty, ← ColumnCheck.undeclared_ids]
      simp only [Bool.false_eq_true, if_false, Pass.foldl_visit, List.nil_append]
      rfl
  · intro nodes nodes' h
    exact ⟨ColumnCheck.declaredIn_perm h, ColumnCheck.undeclared_perm h⟩

/-- An error outside any table, one after a `not`, and two of unknown shape. A column within one of
these is not declared, in whatever order the nodes are visited. -/
theorem lint_missing_column :
    let text := "a not b"
    let t : Tree := .ofEvents [.start .sourceFile 0, .error 0, .start .tableBlock 0,
      .leaf .indexColumnName 6 7, .leaf .indexColumnName 0 1, .start .column 0,
      .leaf .columnName 0 1, .start .nullable 2, .leaf .keyword 2 5, .error 6, .finish 6, .finish 6,
      .start .error 6, .leaf .columnName 6 7, .finish 7, .error 7]
    text ≠ "" ∧
      lint text t = [(Diagnostic.error 0 0 "Keyword 'Table' is required").withFix ⟨0, "Table "⟩,
        (Diagnostic.error 6 6 "NULL expected").withFix ⟨6, "null "⟩,
        .error 6 7 "Column name not found"] ∧
      (ColumnCheck.visitAll text t t.ids.reverse).undeclared =
        [.error 6 7 "Column name not found"] := by
  intro text t
  have htext : text ≠ "" := by
    decide
  obtain ⟨⟨reports, hreports, hlint⟩, horder⟩ := lint_eq_reports text t htext
  have hdangling : (ColumnCheck.visitAll text t t.ids).undeclared =
      [.error 6 7 "Column name not found"] := by
    decide +kernel
  have hundeclared := (horder _ _ t.ids.reverse_perm.symm).2
  rw [hdangling, List.singleton_perm] at hundeclared
  have hknown : (t.ids.filter fun i => t.kind i = .error ∧ (Shape.classify t i).isSome) = [1, 9] := by
    decide +kernel
  rw [hknown] at hreports
  obtain ⟨first, rest, ⟨shape, hshape, rfl⟩, hrest, rfl⟩ := List.forall₂_cons_left_iff.mp hreports
  obtain ⟨second, rest, ⟨shape', hshape', rfl⟩, hnil, rfl⟩ := List.forall₂_cons_left_iff.mp hrest
  obtain rfl := List.forall₂_nil_left_iff.mp hnil
  have htop : Shape.classify t 1 = some .topLevel := by decide +kernel
  have hnull : Shape.classify t 9 = some .nullable := by decide +kernel
  obtain rfl := Option.some.inj (htop.symm.trans hshape)
  obtain rfl := Option.some.inj (hnull.symm.trans hshape')
  exact ⟨htext, hlint.trans (by decide +kernel), hundeclared.symm⟩

end SchemaAssist

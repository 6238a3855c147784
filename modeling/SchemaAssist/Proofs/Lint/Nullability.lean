import SchemaAssist.Lint.Shape
import SchemaAssist.Proofs.Protocol.Edits
import SchemaAssist.Syntax.Builder

/-! # The fix of a missing null

Where `null` is missing the fix puts it in at the start of the error, with a space of its own unless
one stands there already. The space is looked for in the text from one byte before the error to the
end of the error, so it is only seen before errors that are empty.
-/
namespace SchemaAssist.Lint
open Syntax Text

/-- The character right before an offset is a space. -/
def FollowsSpace (text : String) (offset : ℕ) : Prop :=
  ∃ before after, text.toList = before ++ ' ' :: after ∧ byteLength before + 1 = offset

theorem slice?_eq_space_iff {text : String} {start stop : ℕ} :
    (0 < start ∧ slice? text (start - 1) stop = some " ") ↔
      start = stop ∧ FollowsSpace text start := by
  constructor
  · rintro ⟨hpos, hslice⟩
    obtain ⟨before, after, htext, hbefore, hstop⟩ := append_of_slice? hslice
    have hspace : byteLength " ".toList = 1 := rfl
    refine ⟨by omega, before, after, ?_, by omega⟩
    rw [htext, List.append_assoc]
    rfl
  · rintro ⟨rfl, before, after, htext, rfl⟩
    refine ⟨Nat.succ_pos _, ?_⟩
    have hsplit : text.toList = before ++ [' '] ++ after := by
      rw [htext, List.append_assoc, List.singleton_append]
    exact slice?_eq hsplit

/-- Where null is expected the fix inserts it at the start of the error. It adds no space before the
word just if the error is empty and follows a space. -/
theorem nullable_fix (text : String) (t : Tree) (e : ℕ) (h : Shape.classify t e = some .nullable) :
    ∃ f : Fix, errorDiagnostic text t e =
        some ((Diagnostic.error (t.start e) (t.stop e) "NULL expected").withFix f) ∧
      f.insertAt = t.start e ∧ (f.text = "null " ∨ f.text = " null ") ∧
      (f.text = "null " ↔ t.start e = t.stop e ∧ FollowsSpace text (t.start e)) ∧
      ∀ before after, text.toList = before ++ after → byteLength before = t.start e →
        f.apply text = String.ofList before ++ f.text ++ String.ofList after := by
  refine ⟨⟨t.start e, _⟩, by rw [errorDiagnostic, h]; rfl, rfl, ?_, ?_, ?_⟩
  · dsimp only
    split
    · exact .inl rfl
    · exact .inr rfl
  · rw [← slice?_eq_space_iff]
    dsimp only
    split
    next hspace => exact iff_of_true rfl (by simpa using hspace)
    next hspace => exact iff_of_false (by decide) (by simpa using hspace)
  · intro before after htext hbefore
    refine Protocol.insertAt_eq htext ?_
    rw [← hbefore, htext, floorBoundary_append]

/-- An empty error behind the space after `not`. -/
theorem nullable_fix_empty :
    let text := "id int not x"
    let t := Tree.ofEvents [.start .sourceFile 0, .start .column 0, .leaf .columnName 0 2,
      .start .nullable 7, .leaf .keyword 7 10, .error 11, .finish 11, .finish 11, .finish 12]
    Shape.classify t 5 = some .nullable ∧ FollowsSpace text (t.start 5) ∧
      ∃ f : Fix, (errorDiagnostic text t 5).bind (·.fix) = some f ∧ f.text = "null " ∧
        f.apply text = "id int not null x" := by
  intro text t
  have hshape : Shape.classify t 5 = some .nullable := by
    decide +kernel
  have hsplit : text.toList = "id int not".toList ++ ' ' :: "x".toList := by
    decide +kernel
  have hspace : FollowsSpace text (t.start 5) := ⟨_, _, hsplit, by decide +kernel⟩
  obtain ⟨f, hf, -, -, hword, happly⟩ := nullable_fix text t 5 hshape
  have hempty : t.start 5 = t.stop 5 := by
    decide +kernel
  have hword := hword.mpr ⟨hempty, hspace⟩
  refine ⟨hshape, hspace, f, by rw [hf]; rfl, hword, ?_⟩
  rw [happly "id int not ".toList "x".toList (by decide +kernel) (by decide +kernel), hword]
  decide +kernel

/-- An error around the `x` does not see the space, and the word is set behind a second one. -/
theorem nullable_fix_doubles_space :
    let text := "id int not x"
    let t := Tree.ofEvents [.start .sourceFile 0, .start .column 0, .leaf .columnName 0 2,
      .start .nullable 7, .leaf .keyword 7 10, .start .error 11, .leaf .identifier 11 12, .finish 12,
      .finish 12, .finish 12, .finish 12]
    (∀ i ∈ t.ids, IsBoundary text (t.start i) ∧ IsBoundary text (t.stop i)) ∧
      t.kind 5 = .error ∧ Shape.classify t 5 = some .nullable ∧ FollowsSpace text (t.start 5) ∧
      ∃ f : Fix, (errorDiagnostic text t 5).bind (·.fix) = some f ∧ f.text ≠ "null " ∧
        f.apply text = "id int not  null x" := by
  intro text t
  have hsplit : text.toList = "id int not".toList ++ ' ' :: "x".toList := by
    decide +kernel
  refine ⟨?_, by decide +kernel, by decide +kernel, ⟨_, _, hsplit, by decide +kernel⟩,
    ⟨11, " null "⟩, by decide +kernel, by decide, by decide +kernel⟩
  simp only [isBoundary_iff_splitAt?]
  decide +kernel

end SchemaAssist.Lint

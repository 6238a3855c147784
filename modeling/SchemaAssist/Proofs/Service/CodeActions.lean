import SchemaAssist.Proofs.Protocol.Lines
import SchemaAssist.Proofs.Service.Effects

/-! # Quick fixes of a range

A service picks the quick fixes for a range by offsets, and an editor sees positions. In a text whose
length fits 32 bits both pick the same, for errors start and stop at boundaries of the text, and
boundaries have the order of their positions.
-/
namespace SchemaAssist
open Protocol Syntax
open Text (size IsBoundary)

namespace Protocol

/-- Two ranges that have a position in common, their ends included. -/
def Range.Touches (a b : Range) : Prop := a.start ≤ b.stop ∧ b.start ≤ a.stop

instance (a b : Range) : Decidable (a.Touches b) := inferInstanceAs (Decidable (_ ∧ _))

/-- A position on a line of the text and not inside a character, with the one that it means: past the
end of its line it means that end. -/
structure Position.Means (text : String) (p q : Position) : Prop where
  onLine : ∃ before line after, IsLine text p.line before line after ∧
    q = ⟨p.line, min p.character (columns line)⟩
  whole : ∀ before u c v after, IsLine text p.line before (u ++ c :: v) after →
    ¬(columns u < p.character ∧ p.character < columns u + units c)

theorem Position.Means.exists_offsetAt? {text : String} {p q : Position} (h : p.Means text q)
    (hsize : size text < UInt32.size) :
    ∃ b, offsetAt? text p = some b ∧ IsBoundary text b ∧ positionAt text b = q := by
  obtain ⟨before, line, after, hline, rfl⟩ := h.onLine
  obtain ⟨u, v, rfl, hoffset, hcolumn⟩ := hline.column_cases
  refine ⟨_, hoffset, ⟨before ++ u, v ++ after, ?_, rfl⟩, ?_⟩
  · rw [hline.text_eq, List.append_assoc, List.append_assoc]
  rw [hline.positionAt hsize, Position.mk.injEq, columns_append]
  refine ⟨rfl, ?_⟩
  rcases hcolumn with heq | ⟨rfl, hlt⟩ | ⟨w, c, rfl, hinside⟩
  · omega
  · rw [columns_nil]
    omega
  · rw [List.append_assoc, List.singleton_append] at hline
    exact absurd hinside (h.whole before w c v after hline)

end Protocol

/-- The quick fixes of those diagnostics whose range an editor sees touching another. -/
def Protocol.actionsTouching (uri text : String) (range : Range) (found : List Lint.Diagnostic) :
    List CodeAction :=
  (found.filter fun d => decide ((diagnostic text d).range.Touches range)).filterMap
    (codeAction? uri text)

theorem Protocol.forall₂_actionsTouching (uri text : String) (range : Range)
    (found : List Lint.Diagnostic) :
    List.Forall₂ (fun d action => codeAction? uri text d = some action)
      (found.filter fun d => d.fix.isSome ∧ (diagnostic text d).range.Touches range)
      (actionsTouching uri text range found) := by
  induction found with
  | nil => exact .nil
  | cons d found ih =>
    rw [actionsTouching] at ih ⊢
    by_cases htouches : (diagnostic text d).range.Touches range
    · cases hfix : d.fix with
      | none =>
        have haction : codeAction? uri text d = none := by
          rw [codeAction?, hfix, Option.map_none]
        simpa [htouches, hfix, haction] using ih
      | some f =>
        obtain ⟨action, haction⟩ : ∃ action, codeAction? uri text d = some action := by
          rw [codeAction?, hfix, Option.map_some]
          exact ⟨_, rfl⟩
        simpa [htouches, hfix, haction] using ih
    · simpa [htouches] using ih

namespace Service
variable {m : Type → Type} [Monad m] [LawfulMonad m]

/-- An editor that asks for the quick fixes of a range is sent one for each diagnostic with a fix that
it sees touching the range, in the order of the diagnostics. -/
theorem code_actions_of_touching (s : Service m) (uri text : String) (r range : Range)
    (hsize : size text < UInt32.size) (hparse : SatisfiesM (·.Aligned text) (s.parse text))
    (hstart : r.start.Means text range.start) (hstop : r.stop.Means text range.stop) :
    s.codeActions uri text r = actionsTouching uri text range <$> s.problems text ∧
      ∀ found, List.Forall₂ (fun d action => codeAction? uri text d = some action)
        (found.filter fun d => d.fix.isSome ∧ (diagnostic text d).range.Touches range)
        (actionsTouching uri text range found) := by
  refine ⟨?_, forall₂_actionsTouching uri text range⟩
  obtain ⟨start, hstartAt, hstartBoundary, hstartEq⟩ := hstart.exists_offsetAt? hsize
  obtain ⟨stop, hstopAt, hstopBoundary, hstopEq⟩ := hstop.exists_offsetAt? hsize
  have hmono := strictMonoOn_positionAt hsize
  rw [codeActions, hstartAt, hstopAt, Option.getD_some, Option.getD_some, bind_pure_comp]
  refine map_eq_of_satisfiesM (problems_aligned hparse) fun found haligned => ?_
  rw [actionsTouching, List.filterMap_filter, List.filterMap_filter]
  refine List.filterMap_congr fun d hd => ?_
  cases hfix : d.fix with
  | none => simp [codeAction?, hfix]
  | some f =>
    obtain ⟨hdstart, hdstop⟩ := haligned d hd (by rw [hfix, Option.isSome_some])
    have htouches : (diagnostic text d).range.Touches range ↔ d.start ≤ stop ∧ start ≤ d.stop := by
      rw [Range.Touches, ← hstartEq, ← hstopEq]
      exact and_congr (hmono.le_iff_le hdstart hstopBoundary) (hmono.le_iff_le hstartBoundary hdstop)
    simp [htouches]

/-- A column past the end of the first line, where an error ends. The other error is on the next
line. -/
theorem code_actions_of_touching_lineEnd :
    let text := "𝄞 x\ny"
    let t := Tree.ofEvents [.start .sourceFile 0, .start .error 5, .leaf .identifier 5 6, .finish 6,
      .start .error 7, .leaf .identifier 7 8, .finish 8, .finish 8]
    let s : Service Id := ⟨.standard, .define (.named "d"), fun _ _ => pure t⟩
    let fix : Lint.Diagnostic :=
      (Lint.Diagnostic.error 5 6 "Keyword 'Table' is required").withFix ⟨5, "Table "⟩
    size text < UInt32.size ∧ t.Aligned text ∧
      (⟨0, 9⟩ : Position).Means text ⟨0, 4⟩ ∧ (s.problems text : List Lint.Diagnostic).length = 2 ∧
      ∃ action, s.codeActions "u" text ⟨⟨0, 9⟩, ⟨0, 9⟩⟩ = [action] ∧
        codeAction? "u" text fix = some action := by
  intro text t s fix
  have hsize : size text < UInt32.size := by
    decide +kernel
  have haligned : t.Aligned text := by
    simp only [Tree.Aligned, Text.isBoundary_iff_splitAt?]
    decide +kernel
  have hmeans : (⟨0, 9⟩ : Position).Means text ⟨0, 4⟩ := by
    refine ⟨⟨[], ['𝄞', ' ', 'x'], ['\n', 'y'], ?_, rfl⟩, fun before u c v after hline hinside => ?_⟩
    · exact ⟨by decide +kernel, rfl, .inl rfl, by decide, .inr ⟨['y'], rfl⟩⟩
    · -- no character of the text ends behind its 6 units
      have hcolumns : columns text.toList = 6 := by
        decide +kernel
      rw [hline.text_eq, columns_append, columns_append, columns_append, columns_cons] at hcolumns
      dsimp only at hinside
      omega
  have hlint : lint text t = [fix,
      (Lint.Diagnostic.error 7 8 "Keyword 'Table' is required").withFix ⟨7, "Table "⟩] := by
    decide +kernel
  have hproblems : s.problems text = lint text t := by
    rw [problems, if_neg (by decide)]
    rfl
  rw [hlint] at hproblems
  obtain ⟨hrun, hchosen⟩ := code_actions_of_touching s "u" text ⟨⟨0, 9⟩, ⟨0, 9⟩⟩ ⟨⟨0, 4⟩, ⟨0, 4⟩⟩ hsize
    (SatisfiesM_Id_eq.mpr haligned) hmeans hmeans
  have hchosen := hchosen (s.problems text)
  have hfilter : ((s.problems text : List Lint.Diagnostic).filter fun d =>
      d.fix.isSome ∧ (diagnostic text d).range.Touches ⟨⟨0, 4⟩, ⟨0, 4⟩⟩) = [fix] := by
    rw [hproblems]
    decide +kernel
  rw [hfilter] at hchosen
  obtain ⟨action, rest, haction, hrest, heq⟩ := List.forall₂_cons_left_iff.mp hchosen
  rw [List.forall₂_nil_left_iff] at hrest
  refine ⟨hsize, haligned, hmeans, by rw [hproblems]; rfl, action, hrun.trans ?_, haction⟩
  rw [hrest] at heq
  exact heq

end Service
end SchemaAssist

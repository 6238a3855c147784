import SchemaAssist.Proofs.Protocol.Position
import SchemaAssist.Proofs.Service.Effects

/-! # Suggestions of the service

What is suggested replaces text up to the cursor and nothing behind it. So the range of every edit
that an editor is sent ends at the cursor, in a text whose length fits 32 bits, and is in order.
-/
namespace SchemaAssist
open Protocol Completion Syntax
open Text (size)

variable {text : String}

theorem mem_completionList (h : size text < UInt32.size) {r : Result} {cursor : ℕ}
    (hle : r.replaceFrom ≤ cursor) {snippetSupport : Bool} {it : Protocol.CompletionItem}
    (hit : it ∈ completionList text r cursor snippetSupport) :
    it.textEdit.range.start ≤ it.textEdit.range.stop ∧
      it.textEdit.range.stop = positionAt text cursor := by
  obtain ⟨x, -, rfl⟩ := List.mem_map.mp hit
  exact ⟨positionAt_mono h hle, rfl⟩

/-- The text that a suggestion replaces ends at the cursor and starts at or before it; where no
error or index is at the cursor, it is the word before it. The ranges of edits are in order and end
at the cursor. -/
theorem suggestions_end_at_cursor :
    (∀ (events : List Event) (text : String) (d : Dialect) (upperCase : Bool) (offset : ℕ)
      (r : Result), resolve d upperCase text (.ofEvents events) offset = some r →
        r.replaceFrom ≤ min offset (size text) ∧
        ∀ c, detect text (.ofEvents events) offset = some c →
          (c = .script ∨ ∃ i, c = .column i ∨ c = .tableBody i) →
          WordRun text r.replaceFrom (min offset (size text))) ∧
    ∀ (m : Type → Type) [Monad m] [LawfulMonad m] (s : Service m) (text : String) (p : Position),
      size text < UInt32.size → s.parser.Builds →
      SatisfiesM
        (fun answer => ∀ items, answer = .ok (some items) →
          ∃ cursor, offsetAt? text p = some cursor ∧ ∀ it ∈ items,
            it.textEdit.range.start ≤ it.textEdit.range.stop ∧
            it.textEdit.range.stop = positionAt text cursor)
        (s.completion text p) := by
  constructor
  · intro events text d upperCase offset r hr
    exact ⟨replaceFrom_le_of_resolve hr, fun c hcontext hc => wordRun_of_resolve hr hcontext hc⟩
  · intro m _ _ s text p hsize hparser
    rw [Service.completion]
    cases hcursor : offsetAt? text p with
    | none =>
      refine .pure fun items hitems => ?_
      cases hitems
    | some cursor =>
      refine (Service.suggestions_within hparser text cursor).bind fun found hfound => ?_
      refine .pure fun items hitems => ⟨cursor, rfl, fun it hit => ?_⟩
      cases found with
      | none => cases hitems
      | some r =>
        cases hitems
        exact mem_completionList hsize ((hfound r rfl).trans (Nat.min_le_left _ _)) hit

/-- A service that finds an empty document. The word before the cursor stands behind a character of
two bytes and a blank. -/
theorem suggestions_end_at_cursor_word :
    let events : List Event := [.start .sourceFile 0, .finish 5]
    let s : Service Id := ⟨.standard, .define (.named "d"), fun _ _ => pure (.ofEvents events)⟩
    let r : Result := ⟨snippetItems scriptSnippets, 3⟩
    let items := completionList "é ta" r 5 true
    size "é ta" < UInt32.size ∧ s.parser.Builds ∧
      resolve s.dialect false "é ta" (.ofEvents events) 5 = some r ∧
      detect "é ta" (.ofEvents events) 5 = some .script ∧ WordRun "é ta" 3 5 ∧
      s.completion "é ta" ⟨0, 4⟩ = .ok (some items) ∧
      ∃ cursor, offsetAt? "é ta" ⟨0, 4⟩ = some cursor ∧ ∀ it ∈ items,
        it.textEdit.range.start ≤ it.textEdit.range.stop ∧
          it.textEdit.range.stop = positionAt "é ta" cursor := by
  intro events s r items
  have hsize : size "é ta" < UInt32.size := by
    decide +kernel
  have hbuilds : s.parser.Builds := fun _ _ => .pure ⟨events, rfl⟩
  have hresult : resolve s.dialect false "é ta" (.ofEvents events) 5 = some r := by
    decide +kernel
  have hcontext : detect "é ta" (.ofEvents events) 5 = some .script := by
    decide +kernel
  have hcursor : offsetAt? "é ta" ⟨0, 4⟩ = some 5 := by
    decide +kernel
  have hitems : s.completion "é ta" ⟨0, 4⟩ = .ok (some items) := by
    rw [Service.completion, hcursor]
    change Except.ok ((resolve s.dialect false "é ta" (.ofEvents events) 5).map _) = _
    rw [hresult]
    rfl
  have hranges := suggestions_end_at_cursor.2 Id s "é ta" ⟨0, 4⟩ hsize hbuilds
  exact ⟨hsize, hbuilds, hresult, hcontext,
    (suggestions_end_at_cursor.1 _ _ _ _ _ r hresult).2 _ hcontext (.inl rfl), hitems,
    SatisfiesM_Id_eq.mp hranges items hitems⟩

end SchemaAssist

import Mathlib
import SchemaAssist.Proofs.Completion.Replaced
import SchemaAssist.Proofs.Lint.Document
import SchemaAssist.Proofs.Text.Utf8
import SchemaAssist.Service.Basic

/-! # Parsers with effects

What holds of all trees that a parser gives passes to what a service makes of them, whatever effects
the parser has. `SatisfiesM` says of a program that all its results have a property; it comes with
Mathlib as a whole and with no single module of it.
-/
namespace SchemaAssist
open Completion Syntax
open Text (size IsBoundary)

variable {m : Type → Type} [Monad m] [LawfulMonad m]

/-- Where a program gives only results on which two functions agree, either may be applied. -/
theorem map_eq_of_satisfiesM {α β : Type} {p : α → Prop} {x : m α} {f g : α → β}
    (hx : SatisfiesM p x) (h : ∀ a, p a → f a = g a) : f <$> x = g <$> x := by
  obtain ⟨y, rfl⟩ := hx
  rw [← comp_map, ← comp_map]
  congr 1
  funext a
  exact h a.1 a.2

/-- A parser whose trees are all built from events. -/
def Parser.Builds (parser : Parser m) : Prop :=
  ∀ source tokens, SatisfiesM (fun t => ∃ events, t = Tree.ofEvents events) (parser source tokens)

/-- The spans of all nodes lie on boundaries of a text. -/
def Syntax.Tree.Aligned (t : Tree) (text : String) : Prop :=
  ∀ i ∈ t.ids, IsBoundary text (t.start i) ∧ IsBoundary text (t.stop i)

theorem Syntax.Tree.Aligned.of_mem_lint {t : Tree} {text : String} (h : t.Aligned text)
    {d : Lint.Diagnostic} (hd : d ∈ lint text t) (hfix : d.fix.isSome = true) :
    IsBoundary text d.start ∧ IsBoundary text d.stop := by
  obtain ⟨e, he, hstart, hstop⟩ := exists_error_of_mem_lint hd hfix
  rw [hstart, hstop]
  exact h e he

namespace Service
variable {s : Service m} {text : String}

theorem suggestions_within (hparser : s.parser.Builds) (text : String) (offset : ℕ) :
    SatisfiesM (fun found => ∀ r, found = some r → r.replaceFrom ≤ min offset (size text))
      (s.suggestions text offset) := by
  refine (hparser text (s.tokens text)).bind fun t ht => .pure fun r hr => ?_
  obtain ⟨events, rfl⟩ := ht
  exact replaceFrom_le_of_resolve hr

theorem problems_aligned (h : SatisfiesM (·.Aligned text) (s.parse text)) :
    SatisfiesM (fun found => ∀ d ∈ found, d.fix.isSome = true →
      IsBoundary text d.start ∧ IsBoundary text d.stop) (s.problems text) := by
  rw [problems]
  split
  · exact .pure (List.forall_mem_nil _)
  · exact h.bind fun t ht => .pure fun d hd hfix => ht.of_mem_lint hd hfix

end Service
end SchemaAssist

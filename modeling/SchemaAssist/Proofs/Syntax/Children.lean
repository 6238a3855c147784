import Mathlib.Data.List.Chain
import Mathlib.Data.List.ReduceOption
import SchemaAssist.Syntax.Children
import SchemaAssist.Proofs.Syntax.WellLinked

/-! # The two ends of the children

The first and the last child left stand for all children between them. Links lead from one end to
the other, and numbers rise along them, so the ends meet at one child exactly when it is the only
one left. Taking from the ends is therefore taking from a list.
-/
namespace SchemaAssist.Syntax

/-- Nodes that are each other's neighbours. -/
def Tree.Adjacent (t : Tree) (a b : ℕ) : Prop :=
  (t.node a).nextSibling = some b ∧ (t.node b).prevSibling = some a

namespace Linked
variable {t : Tree} (h : Linked t.nodes) {i j : ℕ}
include h

theorem isChain_cons_younger (hi : i < t.size) :
    (i :: younger t.nodes i).IsChain t.Adjacent := by
  induction hn : t.size - i using Nat.strong_induction_on generalizing i with
  | _ n ih =>
    cases hj : (younger t.nodes i).head? with
    | none =>
      rw [List.head?_eq_none_iff.mp hj]
      exact .singleton i
    | some j =>
      have hnext := (h.nextSibling_eq hi).trans hj
      obtain ⟨hij, hjs⟩ := h.nextSibling_lt hi hnext
      rw [younger_eq_cons hj]
      exact .cons_cons ⟨hnext, (h.nextSibling_iff hi hjs).mp hnext⟩
        (ih (t.size - j) (by omega) hjs rfl)

theorem isChain_kids (i : ℕ) : (kids t.nodes i).IsChain t.Adjacent := by
  cases hc : (kids t.nodes i).head? with
  | none =>
    rw [List.head?_eq_none_iff.mp hc]
    exact .nil
  | some c =>
    have hmem := ((head?_eq_iff (pairwise_kids t.nodes i)).mp hc).1
    rw [kids_eq_cons hc]
    exact h.isChain_cons_younger (mem_kids.mp hmem).1

end Linked

namespace Children

/-- The ends of the nodes left, which are neighbours in rising order. -/
structure Holds (t : Tree) (it : Children) (left : List ℕ) : Prop where
  front : it.front = left.head?
  back : it.back = left.getLast?
  rising : left.Pairwise (· < ·)
  adjacent : left.IsChain t.Adjacent

section
variable {t : Tree} {it : Children} {left : List ℕ} {i : ℕ}

theorem holds_of (h : Linked t.nodes) (hi : i < t.size) : Holds t (.of t i) (t.children i) := by
  rw [h.children_eq hi]
  exact ⟨h.firstChild_eq hi, h.lastChild_eq hi, pairwise_kids t.nodes i, h.isChain_kids i⟩

theorem holds_nil (t : Tree) : Holds t ⟨none, none⟩ [] := ⟨rfl, rfl, .nil, .nil⟩

/-! ## One step -/

theorem Holds.next (h : Holds t it left) :
    (it.next t).1 = left.head? ∧ Holds t (it.next t).2 left.tail := by
  obtain ⟨hfront, hback, hrising, hadj⟩ := h
  match left with
  | [] =>
    simp only [Children.next, hfront, List.head?_nil, true_and]
    exact ⟨hfront, hback, .nil, .nil⟩
  | [c] =>
    rw [List.getLast?_singleton] at hback
    simp only [Children.next, hfront, hback, List.head?_cons, if_true, true_and]
    exact holds_nil t
  | c :: d :: rest =>
    obtain ⟨hlt, hrest⟩ := List.pairwise_cons.mp hrising
    obtain ⟨hcd, hchain⟩ := List.isChain_cons_cons.mp hadj
    rw [List.getLast?_cons_cons] at hback
    -- the last child is behind the first one, so the ends do not meet yet
    have hne : it.back ≠ some c := by
      rw [hback]
      intro hlast
      exact absurd (hlt c (List.mem_of_getLast? hlast)) (lt_irrefl c)
    simp only [Children.next, hfront, List.head?_cons, if_neg hne, true_and]
    exact ⟨hcd.1, hback, hrest, hchain⟩

theorem Holds.nextBack (h : Holds t it left) :
    (it.nextBack t).1 = left.getLast? ∧ Holds t (it.nextBack t).2 left.dropLast := by
  obtain ⟨hfront, hback, hrising, hadj⟩ := h
  rcases left.eq_nil_or_concat' with rfl | ⟨init, c, rfl⟩
  · simp only [Children.nextBack, hback, List.getLast?_nil, true_and]
    exact ⟨hfront, hback, .nil, .nil⟩
  rw [List.getLast?_concat] at hback ⊢
  rw [List.dropLast_concat]
  rcases init.eq_nil_or_concat' with rfl | ⟨rest, d, rfl⟩
  · rw [List.nil_append, List.head?_cons] at hfront
    simp only [Children.nextBack, hfront, hback, if_true, true_and]
    exact holds_nil t
  · obtain ⟨hinit, -, hlt⟩ := List.pairwise_append.mp hrising
    have hinner := hadj.left_of_append
    rw [List.append_assoc] at hadj
    have hdc : t.Adjacent d c := (List.isChain_cons_cons.mp hadj.right_of_append).1
    rw [List.head?_append_of_ne_nil _ (by simp)] at hfront
    have hne : it.front ≠ some c := by
      rw [hfront]
      intro hfirst
      exact absurd (hlt c (List.mem_of_head? hfirst) c List.mem_cons_self) (lt_irrefl c)
    simp only [Children.nextBack, hback, if_neg hne, true_and]
    exact ⟨hfront, hdc.2.trans List.getLast?_concat.symm, hinit, hinner⟩

end

/-! ## Whole runs -/

/-- What a list gives when it is taken from the front where `calls` says so and else from the
back. -/
def takeEnds (left : List ℕ) : List Bool → List (Option ℕ)
  | [] => []
  | true :: calls => left.head? :: takeEnds left.tail calls
  | false :: calls => left.getLast? :: takeEnds left.dropLast calls

/-- What the calls from one side gave, in order. -/
def returned (side : Bool) (calls : List Bool) (results : List (Option ℕ)) : List ℕ :=
  (calls.zip results).filterMap fun call => if call.1 = side then call.2 else none

section
variable {t : Tree} {it : Children} {left : List ℕ} {i : ℕ}

theorem Holds.run_eq (h : Holds t it left) (calls : List Bool) :
    it.run t calls = takeEnds left calls := by
  induction calls generalizing it left with
  | nil => rfl
  | cons side calls ih =>
    cases side with
    | true =>
      obtain ⟨htaken, hrest⟩ := h.next
      simp only [run, takeEnds, if_true, htaken, ih hrest]
    | false =>
      obtain ⟨htaken, hrest⟩ := h.nextBack
      simp only [run, takeEnds, Bool.false_eq_true, if_false, htaken, ih hrest]

theorem length_takeEnds (left : List ℕ) (calls : List Bool) :
    (takeEnds left calls).length = calls.length := by
  induction calls generalizing left with
  | nil => rfl
  | cons side calls ih => cases side <;> simp [takeEnds, ih]

theorem isSome_takeEnds {calls : List Bool} {k : ℕ} {r : Option ℕ}
    (hr : (takeEnds left calls)[k]? = some r) : r.isSome ↔ k < left.length := by
  induction calls generalizing left k with
  | nil => simp [takeEnds] at hr
  | cons side calls ih =>
    cases k with
    | zero =>
      cases side <;> simp only [takeEnds, List.getElem?_cons_zero, Option.some_inj] at hr <;>
        subst hr <;> cases left <;> simp
    | succ k =>
      cases side <;> simp only [takeEnds, List.getElem?_cons_succ] at hr <;>
        rw [ih hr] <;> simp <;> omega

/-- What was taken from both sides and what is left between make up the list. -/
theorem exists_middle (left : List ℕ) (calls : List Bool) :
    ∃ middle, middle.length = left.length - calls.length ∧
      left = returned true calls (takeEnds left calls) ++ middle ++
        (returned false calls (takeEnds left calls)).reverse := by
  induction calls generalizing left with
  | nil => exact ⟨left, rfl, by simp [returned]⟩
  | cons side calls ih =>
    cases side with
    | true =>
      cases left with
      | nil =>
        obtain ⟨middle, hlength, heq⟩ := ih []
        exact ⟨middle, by simpa using hlength, by simpa [takeEnds, returned] using heq⟩
      | cons c rest =>
        obtain ⟨middle, hlength, heq⟩ := ih rest
        refine ⟨middle, by simpa using hlength, ?_⟩
        simpa [takeEnds, returned] using heq
    | false =>
      rcases left.eq_nil_or_concat' with rfl | ⟨init, c, rfl⟩
      · obtain ⟨middle, hlength, heq⟩ := ih []
        exact ⟨middle, by simpa using hlength, by simpa [takeEnds, returned] using heq⟩
      · obtain ⟨middle, hlength, heq⟩ := ih init
        refine ⟨middle, by simpa using hlength, ?_⟩
        rw [takeEnds, List.getLast?_concat, List.dropLast_concat]
        simpa [returned] using congrArg (· ++ [c]) heq

theorem perm_returned (calls : List Bool) (results : List (Option ℕ))
    (hlength : results.length = calls.length) :
    results.reduceOption.Perm (returned true calls results ++ returned false calls results) := by
  induction calls generalizing results with
  | nil =>
    obtain rfl := List.length_eq_zero_iff.mp hlength
    rfl
  | cons side calls ih =>
    obtain ⟨r, rest, rfl⟩ := List.exists_cons_of_length_eq_add_one hlength
    have hrest := ih rest (by simpa using hlength)
    cases r with
    | none => simpa [returned] using hrest
    | some c =>
      rw [List.reduceOption_cons_of_some]
      cases side with
      | true => simpa [returned] using hrest.cons c
      | false => simpa [returned] using (hrest.cons c).trans List.perm_middle.symm

/-! ## Searching from the back -/

theorem bound_lt_of_dropLast {it' : Children} {c : ℕ} (h : Holds t it left)
    (h' : Holds t it' left.dropLast) (hc : left.getLast? = some c) : it'.bound < it.bound := by
  obtain ⟨init, rfl⟩ := List.getLast?_eq_some_iff.mp hc
  rw [List.dropLast_concat] at h'
  rw [bound, bound, h.back, h'.back, hc, Option.elim_some]
  cases hd : init.getLast? with
  | none => exact Nat.succ_pos c
  | some d =>
    have hlt := (List.pairwise_append.mp h.rising).2.2 d (List.mem_of_getLast? hd) c
      List.mem_cons_self
    exact Nat.succ_lt_succ hlt

theorem Holds.nextBackWhere (h : Holds t it left) (p : ℕ → Bool) :
    (it.nextBackWhere t p).1 = (left.filter p).getLast? := by
  induction hn : left.length generalizing it left with
  | zero =>
    obtain rfl := List.length_eq_zero_iff.mp hn
    rw [Children.nextBackWhere]
    simp only [h.nextBack.1, List.getLast?_nil, List.filter_nil]
  | succ n ih =>
    obtain ⟨init, c, rfl⟩ := left.eq_nil_or_concat'.resolve_left (by rintro rfl; simp at hn)
    obtain ⟨htaken, hrest⟩ := h.nextBack
    have hbound := bound_lt_of_dropLast h hrest List.getLast?_concat
    rw [List.getLast?_concat] at htaken
    rw [List.dropLast_concat] at hrest
    rw [Children.nextBackWhere, List.filter_append]
    simp only [htaken, hbound, dif_pos]
    by_cases hp : p c
    · rw [if_pos hp, htaken, List.filter_cons_of_pos hp, List.filter_nil, List.getLast?_concat]
    · rw [if_neg hp, List.filter_cons_of_neg hp, List.filter_nil, List.append_nil]
      exact ih hrest (by simpa using hn)

end

/-- What calls on both ends of `cs` give: each child once, in order from either side, as long as
there are children left. -/
structure DoubleEnded (cs : List ℕ) (calls : List Bool) (results : List (Option ℕ)) : Prop where
  length_eq : results.length = calls.length
  succeeds : ∀ k r, results[k]? = some r → (r.isSome ↔ k < cs.length)
  fronts : returned true calls results <+: cs
  backs : returned false calls results <+: cs.reverse
  nodup : results.reduceOption.Nodup
  count : results.reduceOption.length = min calls.length cs.length

theorem doubleEnded_takeEnds {cs : List ℕ} (hcs : cs.Nodup) (calls : List Bool) :
    DoubleEnded cs calls (takeEnds cs calls) := by
  have hlength := length_takeEnds cs calls
  have hperm := perm_returned calls _ hlength
  obtain ⟨middle, hmiddle, heq⟩ := exists_middle cs calls
  refine ⟨hlength, fun k r hr => isSome_takeEnds hr, ?fronts, ?backs, ?nodup, ?count⟩
  case fronts => exact ⟨_, (List.append_assoc ..).symm.trans heq.symm⟩
  case backs =>
    have hrev := congrArg List.reverse heq
    rw [List.reverse_append, List.reverse_reverse] at hrev
    exact ⟨_, hrev.symm⟩
  case nodup =>
    rw [heq, List.append_assoc] at hcs
    have hsides := (List.sublist_append_right middle _).append_left _ |>.nodup hcs
    exact hperm.nodup_iff.mpr (((List.reverse_perm _).append_left _).nodup_iff.mp hsides)
  case count =>
    have hsum := congrArg List.length heq
    simp only [List.length_append, List.length_reverse] at hsum
    rw [hperm.length_eq, List.length_append]
    omega

end Children

/-- The children of a node are taken from both ends as from a list, and a search from the back gives
the last child of a kind. -/
theorem children_from_both_ends (events : List Event) {i : ℕ}
    (hi : i < (Tree.ofEvents events).size) (calls : List Bool) :
    let t := Tree.ofEvents events
    Children.DoubleEnded (t.children i) calls ((Children.of t i).run t calls) ∧
      ∀ k, ((Children.of t i).nextBackWhere t (t.kind · = k)).1 = (t.childrenOf i k).getLast? := by
  intro t
  have h := linked_ofEvents events
  have hstart := Children.holds_of h hi
  refine ⟨?_, fun k => hstart.nextBackWhere _⟩
  rw [hstart.run_eq]
  exact Children.doubleEnded_takeEnds (hstart.rising.imp ne_of_lt) calls

/-- The calls meet at the third child, and the two calls after it give nothing. -/
theorem children_from_both_ends_five :
    let t := Tree.ofEvents [.start .tableBlock 0, .leaf .table 0 5, .start .column 6,
      .leaf .columnName 6 8, .finish 8, .leaf .column 9 11, .leaf .column 12 12,
      .leaf .braceClose 13 14]
    let calls := [false, true, true, false, true, false, true]
    0 < t.size ∧
      (Children.of t 0).run t calls = [some 6, some 1, some 2, some 5, some 4, none, none] ∧
      Children.DoubleEnded [1, 2, 4, 5, 6] calls ((Children.of t 0).run t calls) ∧
      ((Children.of t 0).nextBackWhere t (t.kind · = .column)).1 = some 5 := by
  intro t calls
  have hsize : 0 < t.size := by decide
  obtain ⟨hends, hlast⟩ := children_from_both_ends _ hsize calls
  have hchildren : t.children 0 = [1, 2, 4, 5, 6] := by decide +kernel
  refine ⟨hsize, by decide +kernel, hchildren ▸ hends, (hlast .column).trans ?_⟩
  decide +kernel

end SchemaAssist.Syntax

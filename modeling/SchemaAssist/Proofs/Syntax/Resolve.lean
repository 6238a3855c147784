import Mathlib.Data.List.Induction
import SchemaAssist.Proofs.Syntax.Walks

/-! # Resolving positions

When spans lie within the spans of parents and siblings do not overlap, the nodes below the root that
reach a position lie on one path, and the position resolves to the last of them. The error of a
position is looked for among all nodes instead, however their spans lie.
-/
namespace SchemaAssist.Syntax
open Syntax.Tree

/-- A linked tree whose spans are nested as its nodes are. -/
structure Tree.Enclosing (t : Tree) : Prop where
  linked : Linked t.nodes
  within : ∀ i p, t.parent i = some p → t.start p ≤ t.start i ∧ t.stop i ≤ t.stop p
  apart : ∀ i j p, t.parent i = some p → t.parent j = some p → i < j → t.stop i ≤ t.start j

/-- Such a tree with a single root. -/
structure Tree.Nested (t : Tree) : Prop extends Enclosing t where
  rooted : ∀ i, 0 < i → i < t.size → ∃ p, t.parent i = some p

namespace Linked

variable {t : Tree} (h : Linked t.nodes) {i p x : ℕ}
include h

theorem parent_lt (hp : t.parent i = some p) : p < i ∧ i < t.size := by
  rw [h.parent_eq] at hp
  exact ⟨h.preorder.below i p hp, lt_size_of_up hp⟩

theorem parent_zero : t.parent 0 = none := by
  cases hp : t.parent 0 with
  | none => rfl
  | some p => exact absurd (h.parent_lt hp).1 (Nat.not_lt_zero p)

theorem mem_childrenBack (hi : i < t.size) : x ∈ t.childrenBack i ↔ t.parent x = some i := by
  rw [h.childrenBack_eq hi, List.mem_reverse, mem_kids_iff_up, h.parent_eq]

end Linked

namespace Tree.Enclosing

variable {t : Tree} (h : t.Enclosing) {i j p pos x : ℕ}
include h

theorem reaches_parent (hp : t.parent i = some p) (hi : t.reaches pos i) : t.reaches pos p := by
  simp only [reaches, Bool.and_eq_true, decide_eq_true_iff] at hi ⊢
  have := h.within i p hp
  omega

theorem reaches_of_mem_path (hx : x ∈ i :: path t.parent i) (hi : t.reaches pos i) :
    t.reaches pos x := by
  induction i using Nat.strong_induction_on with
  | _ i ih =>
    rcases List.mem_cons.mp hx with rfl | hx
    · exact hi
    · obtain ⟨p, hp, hlt, hx⟩ := mem_path.mp hx
      exact ih p hlt hx (h.reaches_parent hp hi)

theorem eq_of_reaches (hi : t.parent i = some p) (hj : t.parent j = some p)
    (hri : t.reaches pos i) (hrj : t.reaches pos j) : i = j := by
  simp only [reaches, Bool.and_eq_true, decide_eq_true_iff] at hri hrj
  rcases lt_trichotomy i j with hlt | heq | hlt
  · have := h.apart i j p hi hj hlt
    omega
  · exact heq
  · have := h.apart j i p hj hi hlt
    omega

/-- Going down keeps all nodes below the root that reach the position on the path or below its
end. -/
theorem mem_resolveFrom (hi : i < t.size) (hzero : 0 ∈ i :: path t.parent i)
    (hpath : ∀ a ∈ i :: path t.parent i, a = 0 ∨ t.reaches pos a)
    (hrest : ∀ x, 0 ∈ path t.parent x → t.reaches pos x →
      x ∈ i :: path t.parent i ∨ i ∈ path t.parent x) :
    x ∈ t.resolveFrom pos i :: path t.parent (t.resolveFrom pos i) ↔
      x = 0 ∨ 0 ∈ path t.parent x ∧ t.reaches pos x := by
  -- going on to a child keeps all conditions
  induction hn : t.size - i using Nat.strong_induction_on generalizing i with
  | _ n ih =>
    rw [resolveFrom]
    cases hfind : (t.childrenBack i).find? (t.reaches pos) with
    | none =>
      refine ⟨fun hx => ?_, ?_⟩
      · rcases Nat.eq_zero_or_pos x with rfl | hpos
        · exact .inl rfl
        · exact .inr ⟨mem_path_of_lt hzero hx hpos, (hpath x hx).resolve_left hpos.ne'⟩
      · rintro (rfl | ⟨hx, hr⟩)
        · exact hzero
        · refine (hrest x hx hr).resolve_right fun hix => ?_
          obtain ⟨c, hcx, hc, -⟩ := exists_child_of_mem_path hix
          have hno := List.find?_eq_none.mp hfind c ((h.linked.mem_childrenBack hi).mpr hc)
          exact hno (h.reaches_of_mem_path hcx hr)
    | some c =>
      have hrc : t.reaches pos c := List.find?_some hfind
      have hc := (h.linked.mem_childrenBack hi).mp (List.mem_of_find?_eq_some hfind)
      obtain ⟨hic, hcs⟩ := h.linked.parent_lt hc
      simp only [hic, hcs, and_self, dif_pos]
      have hpc := path_of_some hc hic
      refine ih (t.size - c) (by omega) hcs ?_ ?_ ?_ rfl
      · rw [hpc]
        exact List.mem_cons_of_mem _ hzero
      · intro a ha
        rw [hpc] at ha
        rcases List.mem_cons.mp ha with rfl | ha
        · exact .inr hrc
        · exact hpath a ha
      · intro x hx hr
        rw [hpc]
        rcases hrest x hx hr with hmem | hix
        · exact .inl (List.mem_cons_of_mem _ hmem)
        · obtain ⟨c', hcx, hc', -⟩ := exists_child_of_mem_path hix
          obtain rfl := h.eq_of_reaches hc hc' hrc (h.reaches_of_mem_path hcx hr)
          rcases List.mem_cons.mp hcx with rfl | hcx
          · exact .inl List.mem_cons_self
          · exact .inr hcx

/-- The path of the resolved node has the root and the nodes below it that reach the position. -/
theorem mem_resolve (pos x : ℕ) : x ∈ t.resolve pos :: t.ancestors (t.resolve pos) ↔
    x = 0 ∨ 0 ∈ t.ancestors x ∧ t.reaches pos x := by
  rw [ancestors_eq_path, ancestors_eq_path]
  refine h.mem_resolveFrom t.nonempty List.mem_cons_self ?_ fun x hx _ => .inr hx
  rw [path_of_none h.linked.parent_zero]
  intro a ha
  exact .inl (List.mem_singleton.mp ha)

end Tree.Enclosing

namespace Tree.Nested

variable {t : Tree} (h : t.Nested) {i p pos x : ℕ}
include h

theorem parent_lt (hp : t.parent i = some p) : p < i ∧ i < t.size := h.linked.parent_lt hp

theorem lt_size_of_mem_ancestors (hx : x ∈ t.ancestors i) : i < t.size := by
  rw [ancestors_eq_path] at hx
  obtain ⟨p, hp, -⟩ := mem_path.mp hx
  exact (h.parent_lt hp).2

theorem zero_mem (hi : i < t.size) : 0 ∈ i :: t.ancestors i := by
  rw [ancestors_eq_path]
  induction i using Nat.strong_induction_on with
  | _ i ih =>
    rcases Nat.eq_zero_or_pos i with rfl | hpos
    · exact List.mem_cons_self
    · obtain ⟨p, hp⟩ := h.rooted i hpos hi
      obtain ⟨hlt, -⟩ := h.parent_lt hp
      rw [path_of_some hp hlt]
      exact List.mem_cons_of_mem _ (ih p hlt (hlt.trans hi))

theorem mem_resolve (pos x : ℕ) : x ∈ t.resolve pos :: t.ancestors (t.resolve pos) ↔
    x = 0 ∨ x < t.size ∧ t.reaches pos x := by
  rw [h.toEnclosing.mem_resolve]
  refine or_congr_right' fun hne => and_congr_left' ⟨h.lt_size_of_mem_ancestors, fun hx => ?_⟩
  exact List.mem_of_ne_of_mem (Ne.symm hne) (h.zero_mem hx)

end Tree.Nested

/-! ## The error of a position -/

namespace Tree

variable {t : Tree} {nodes : List ℕ} {e i pos x : ℕ}

/-- An error whose span has the position, either end included. -/
structure ErrorAt (t : Tree) (pos i : ℕ) : Prop where
  lt_size : i < t.size
  kind : t.kind i = .error
  start_le : t.start i ≤ pos
  le_stop : pos ≤ t.stop i

theorem mem_filter_touches : i ∈ t.errors.filter (t.touches pos) ↔ t.ErrorAt pos i := by
  simp only [errors, ids, touches, List.mem_filter, List.mem_range, Bool.and_eq_true,
    decide_eq_true_iff]
  constructor
  · rintro ⟨⟨hi, hk⟩, hstart, hstop⟩
    exact ⟨hi, hk, hstart, hstop⟩
  · exact fun h => ⟨⟨h.lt_size, h.kind⟩, h.start_le, h.le_stop⟩

theorem deeper_ne_none (t : Tree) (best : Option ℕ) (i : ℕ) : t.deeper best i ≠ none := by
  cases best with
  | none => exact Option.some_ne_none i
  | some b =>
    simp only [deeper]
    split_ifs <;> exact Option.some_ne_none _

theorem foldl_deeper_eq_none : nodes.foldl t.deeper none = none ↔ nodes = [] := by
  induction nodes using List.reverseRecOn with
  | nil => exact iff_of_true rfl rfl
  | append_singleton nodes i _ =>
    rw [List.foldl_append]
    exact iff_of_false (t.deeper_ne_none _ i) (by simp)

/-- Nothing gone over is deeper than what is left, and nothing later is as deep. -/
theorem of_foldl_deeper (hnodes : nodes.Pairwise (· < ·))
    (h : nodes.foldl t.deeper none = some e) :
    e ∈ nodes ∧ ∀ x ∈ nodes, t.depth x ≤ t.depth e ∧ (t.depth x = t.depth e → x ≤ e) := by
  induction nodes using List.reverseRecOn generalizing e with
  | nil => cases h
  | append_singleton nodes i ih =>
    obtain ⟨hfront, -, hlast⟩ := List.pairwise_append.mp hnodes
    have hlt : ∀ x ∈ nodes, x < i := fun x hx => hlast x hx i List.mem_cons_self
    rw [List.foldl_append] at h
    cases hbest : nodes.foldl t.deeper none with
    | none =>
      rw [hbest] at h
      cases h
      rw [foldl_deeper_eq_none.mp hbest]
      simp
    | some b =>
      obtain ⟨hb, hmax⟩ := ih hfront hbest
      rw [hbest] at h
      simp only [List.foldl_cons, List.foldl_nil, deeper] at h
      split_ifs at h with hdepth
      · cases h
        refine ⟨List.mem_concat_self, fun x hx => ?_⟩
        rcases List.mem_append.mp hx with hx | hx
        · exact ⟨(hmax x hx).1.trans hdepth, fun _ => (hlt x hx).le⟩
        · rw [List.mem_singleton.mp hx]
          exact ⟨le_rfl, fun _ => le_rfl⟩
      · cases h
        refine ⟨List.mem_append_left _ hb, fun x hx => ?_⟩
        rcases List.mem_append.mp hx with hx | hx
        · exact hmax x hx
        · rw [List.mem_singleton.mp hx]
          omega

theorem errorAt_eq_none : t.errorAt pos = none ↔ ∀ e, ¬ t.ErrorAt pos e := by
  simp only [errorAt, foldl_deeper_eq_none, List.eq_nil_iff_forall_not_mem, mem_filter_touches]

theorem of_errorAt (h : t.errorAt pos = some e) :
    t.ErrorAt pos e ∧
      ∀ x, t.ErrorAt pos x → t.depth x ≤ t.depth e ∧ (t.depth x = t.depth e → x ≤ e) := by
  have hpairwise : (t.errors.filter (t.touches pos)).Pairwise (· < ·) :=
    (List.pairwise_lt_range.filter _).filter _
  obtain ⟨hmem, hmax⟩ := of_foldl_deeper hpairwise h
  exact ⟨mem_filter_touches.mp hmem, fun x hx => hmax x (mem_filter_touches.mpr hx)⟩

end Tree
end SchemaAssist.Syntax

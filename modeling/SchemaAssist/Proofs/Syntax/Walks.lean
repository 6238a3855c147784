import SchemaAssist.Proofs.Syntax.Links

/-! # Walks over linked trees

In a tree with sound links, a walk along siblings gives the siblings, and the walk down from a node
gives its number and the numbers of all nodes below it, which come right after it.
-/
namespace SchemaAssist.Syntax.Tree

variable {t : Tree} {i j : ℕ}

theorem getElem?_nodes (hi : i < t.size) : t.nodes[i]? = some (t.node i) := by
  rw [node, Array.getD_eq_getD_getElem?, Array.getElem?_eq_getElem hi, Option.getD_some]

theorem node_of_size_le (hi : t.size ≤ i) : t.node i = t.node 0 := by
  have hroot : t.nodes[0]? = some t.root := Array.getElem?_eq_getElem t.nonempty
  have hout : t.nodes[i]? = none := Array.getElem?_eq_none hi
  rw [node, node, Array.getD_eq_getD_getElem?, Array.getD_eq_getD_getElem?, hout, hroot]
  rfl

theorem parent_eq_up (h : Preorder (up t.nodes)) : t.parent = up t.nodes := by
  have hin : ∀ i < t.size, t.parent i = up t.nodes i := by
    intro i hi
    rw [up, getElem?_nodes hi, Option.bind_some, parent]
  funext i
  by_cases hi : i < t.size
  · exact hin i hi
  · have hroot : up t.nodes 0 = none := by
      cases hp : up t.nodes 0 with
      | none => rfl
      | some p => exact absurd (h.below 0 p hp) (Nat.not_lt_zero p)
    have hout : up t.nodes i = none := by
      rw [up, Array.getElem?_eq_none (Nat.le_of_not_lt hi), Option.bind_none]
    rw [parent, node_of_size_le (Nat.le_of_not_lt hi), hout, ← hroot]
    exact hin 0 t.nonempty

end SchemaAssist.Syntax.Tree

namespace SchemaAssist.Syntax.Linked
open Syntax.Tree

variable {t : Tree} (h : Linked t.nodes) {i j top : ℕ}
include h

theorem parent_eq : t.parent = up t.nodes := parent_eq_up h.preorder

theorem ancestors_eq (i : ℕ) : t.ancestors i = path (up t.nodes) i := by
  rw [ancestors_eq_path, h.parent_eq]

theorem ancestors_of_parent {p : ℕ} (hp : t.parent i = some p) :
    t.ancestors i = p :: t.ancestors p := by
  rw [h.parent_eq] at hp
  rw [h.ancestors_eq, h.ancestors_eq, h.preorder.path_eq hp]

theorem ids_filter_parent (i : ℕ) : t.ids.filter (t.parent · = some i) = kids t.nodes i := by
  rw [h.parent_eq]
  rfl

theorem firstChild_eq (hi : i < t.size) : (t.node i).firstChild = (kids t.nodes i).head? :=
  h.first i _ (getElem?_nodes hi)

theorem lastChild_eq (hi : i < t.size) : (t.node i).lastChild = (kids t.nodes i).getLast? :=
  h.last i _ (getElem?_nodes hi)

theorem nextSibling_eq (hi : i < t.size) : (t.node i).nextSibling = (younger t.nodes i).head? :=
  h.next i _ (getElem?_nodes hi)

theorem prevSibling_eq (hi : i < t.size) : (t.node i).prevSibling = (older t.nodes i).getLast? :=
  h.prev i _ (getElem?_nodes hi)

theorem nextSibling_lt (hi : i < t.size) (hj : (t.node i).nextSibling = some j) :
    i < j ∧ j < t.size := by
  rw [h.nextSibling_eq hi, head?_eq_iff (pairwise_younger _ _)] at hj
  obtain ⟨hij, p, -, hp⟩ := mem_younger.mp hj.1
  exact ⟨hij, lt_size_of_up hp⟩

theorem prevSibling_lt (hi : i < t.size) (hj : (t.node i).prevSibling = some j) : j < i := by
  rw [h.prevSibling_eq hi, getLast?_eq_iff (pairwise_older _ _)] at hj
  exact (mem_older.mp hj.1).1

theorem nextSibling_iff (hi : i < t.size) (hj : j < t.size) :
    (t.node i).nextSibling = some j ↔ (t.node j).prevSibling = some i := by
  rw [h.nextSibling_eq hi, h.prevSibling_eq hj]
  exact head?_younger_iff

/-! ## Siblings and children -/

theorem following_eq (hi : i < t.size) : t.following i = younger t.nodes i := by
  induction hn : t.size - i using Nat.strong_induction_on generalizing i with
  | _ n ih =>
    rw [following]
    cases hnext : (t.node i).nextSibling with
    | none =>
      rw [h.nextSibling_eq hi, List.head?_eq_none_iff] at hnext
      exact hnext.symm
    | some j =>
      have hlt := h.nextSibling_lt hi hnext
      rw [h.nextSibling_eq hi] at hnext
      rw [younger_eq_cons hnext, ← ih (t.size - j) (by omega) hlt.2 rfl]
      exact dif_pos hlt

theorem preceding_eq (hi : i < t.size) : t.preceding i = (older t.nodes i).reverse := by
  induction i using Nat.strong_induction_on with
  | _ i ih =>
    rw [preceding]
    cases hprev : (t.node i).prevSibling with
    | none =>
      rw [h.prevSibling_eq hi, List.getLast?_eq_none_iff] at hprev
      rw [hprev, List.reverse_nil]
    | some j =>
      have hlt := h.prevSibling_lt hi hprev
      rw [h.prevSibling_eq hi] at hprev
      rw [older_eq_append hprev, List.reverse_append, ← ih j hlt (hlt.trans hi)]
      exact dif_pos hlt

theorem children_eq (hi : i < t.size) : t.children i = kids t.nodes i := by
  rw [children]
  cases hfirst : (t.node i).firstChild with
  | none =>
    rw [h.firstChild_eq hi, List.head?_eq_none_iff] at hfirst
    exact hfirst.symm
  | some c =>
    rw [h.firstChild_eq hi] at hfirst
    have hc := mem_kids.mp ((head?_eq_iff (pairwise_kids _ _)).mp hfirst).1
    rw [kids_eq_cons hfirst, ← h.following_eq hc.1]

theorem childrenBack_eq (hi : i < t.size) : t.childrenBack i = (kids t.nodes i).reverse := by
  rw [childrenBack]
  cases hlast : (t.node i).lastChild with
  | none =>
    rw [h.lastChild_eq hi, List.getLast?_eq_none_iff] at hlast
    rw [hlast, List.reverse_nil]
  | some c =>
    rw [h.lastChild_eq hi] at hlast
    have hc := mem_kids.mp ((getLast?_eq_iff (pairwise_kids _ _)).mp hlast).1
    rw [kids_eq_append hlast, List.reverse_append, ← h.preceding_eq hc.1]
    rfl

/-! ## The walk down -/

/-- Leaving `i` upwards from `x` leads to the node after `i`, if that is still below the top. -/
theorem nextAbove_eq {x : ℕ} (hi : i < t.size) (hx : x ∈ i :: path (up t.nodes) i)
    (htop : top ∈ x :: path (up t.nodes) x)
    (hpast : ∀ j, i < j → x ∉ path (up t.nodes) j) :
    t.nextAbove top x = if top ∈ path (up t.nodes) (i + 1) then some (i + 1) else none := by
  have hpre := h.preorder
  have hxi := le_of_mem_cons_path hx
  induction x using Nat.strong_induction_on with
  | _ x ih =>
    rw [nextAbove]
    by_cases hxt : x = top
    · rw [if_pos hxt, if_neg (hxt ▸ hpast (i + 1) (Nat.lt_succ_self i))]
    · rw [if_neg hxt]
      have htopx := List.mem_of_ne_of_mem (Ne.symm hxt) htop
      obtain ⟨p, hp, hpx, htopp⟩ := mem_path.mp htopx
      have hnext : p ∈ path (up t.nodes) (i + 1) → up t.nodes (i + 1) = some p :=
        hpre.parent_past hx hp (hpast (i + 1) (Nat.lt_succ_self i))
      cases hsib : (t.node x).nextSibling with
      | some y =>
        rw [h.nextSibling_eq (hxi.trans_lt hi), head?_eq_iff (pairwise_younger _ _)] at hsib
        obtain ⟨hy, hmin⟩ := hsib
        obtain ⟨hxy, q, hq, hpy⟩ := mem_younger.mp hy
        obtain rfl : p = q := Option.some.inj (hp.symm.trans hq)
        have hpbelow := hpre.parent_mem_path hpy
        have hiy : i < y := hpre.lt_of_younger hx hp hpy hxy
        have hup := hnext (hpre.mem_path_of_between hpbelow (by omega) hiy)
        have hle := hmin (i + 1) (mem_younger.mpr ⟨by omega, p, hp, hup⟩)
        obtain rfl : y = i + 1 := by omega
        have htopi : top ∈ path (up t.nodes) (i + 1) := by rwa [hpre.path_eq hup]
        rw [if_pos htopi]
      | none =>
        rw [h.nextSibling_eq (hxi.trans_lt hi), List.head?_eq_none_iff] at hsib
        have hpx' : p ∈ i :: path (up t.nodes) i :=
          List.mem_cons_of_mem _ (hpre.mem_path_of_child hx hp)
        -- no sibling is left, so nothing after `i` is below the parent either
        have hpast' : ∀ j, i < j → p ∉ path (up t.nodes) j := by
          intro j hij hj
          have hup := hnext (hpre.mem_path_of_between hj (by omega) hij)
          have hmem : i + 1 ∈ younger t.nodes x := mem_younger.mpr ⟨by omega, p, hp, hup⟩
          rw [hsib] at hmem
          exact List.not_mem_nil hmem
        have hrec := ih p hpx hpx' htopp hpast' (le_of_mem_cons_path hpx')
        simp only [h.parent_eq, hp, hpx, dif_pos, hrec]

theorem nextBelow_eq (hi : i < t.size) (htop : top ∈ i :: path (up t.nodes) i) :
    t.nextBelow top i = if top ∈ path (up t.nodes) (i + 1) then some (i + 1) else none := by
  have hpre := h.preorder
  rw [nextBelow, h.firstChild_eq hi]
  cases hfirst : (kids t.nodes i).head? with
  | some c =>
    obtain ⟨hc, hmin⟩ := (head?_eq_iff (pairwise_kids _ _)).mp hfirst
    have hbelow := hpre.parent_mem_path (mem_kids_iff_up.mp hc)
    have hup := hpre.parent_succ hbelow
    have hle := hmin (i + 1) (mem_kids_iff_up.mpr hup)
    have hlt := lt_of_mem_path hbelow
    obtain rfl : c = i + 1 := by omega
    have htop' : top ∈ path (up t.nodes) (i + 1) := by rwa [hpre.path_eq hup]
    rw [if_pos htop', Option.some_or]
  | none =>
    have hempty := List.head?_eq_none_iff.mp hfirst
    have hleaf : ∀ j, i < j → i ∉ path (up t.nodes) j := by
      intro j _ hj
      have hkid := mem_kids_iff_up.mpr (hpre.parent_succ hj)
      rw [hempty] at hkid
      exact List.not_mem_nil hkid
    rw [Option.none_or]
    exact h.nextAbove_eq hi List.mem_cons_self htop hleaf

theorem walkFrom_eq (hi : i < t.size) (htop : top ∈ i :: path (up t.nodes) i) :
    ∃ k, t.walkFrom top i = List.range' i (k + 1) ∧
      ∀ j, i ≤ j → (j < i + (k + 1) ↔ j < t.size ∧ top ∈ j :: path (up t.nodes) j) := by
  induction hn : t.size - i using Nat.strong_induction_on generalizing i with
  | _ n ih =>
    have hti := le_of_mem_cons_path htop
    rw [walkFrom, h.nextBelow_eq hi htop]
    by_cases hgo : top ∈ path (up t.nodes) (i + 1)
    · obtain ⟨p, hp, -⟩ := mem_path.mp hgo
      have hlt : i + 1 < t.size := lt_size_of_up hp
      obtain ⟨k, hk, hiff⟩ := ih (t.size - (i + 1)) (by omega) hlt (List.mem_cons_of_mem _ hgo) rfl
      refine ⟨k + 1, ?_, ?_⟩
      · rw [if_pos hgo, List.range'_succ, ← hk]
        exact dif_pos ⟨Nat.lt_succ_self i, hlt⟩
      · intro j hij
        rcases hij.eq_or_lt with rfl | hij
        · exact ⟨fun _ => ⟨hi, htop⟩, fun _ => by omega⟩
        · rw [← hiff j hij]
          omega
    · refine ⟨0, ?_, ?_⟩
      · rw [if_neg hgo, List.range'_one]
      · intro j hij
        constructor
        · intro hj
          obtain rfl : j = i := by omega
          exact ⟨hi, htop⟩
        · rintro ⟨-, hj⟩
          by_contra hji
          have hjt := List.mem_of_ne_of_mem (by omega) hj
          exact hgo (h.preorder.mem_path_of_between hjt (by omega) (by omega))

theorem descendants_eq (hi : i < t.size) :
    ∃ k, t.descendants i = List.range' i (k + 1) ∧
      ∀ j, j ∈ t.descendants i ↔ j = i ∨ i ∈ t.ancestors j := by
  obtain ⟨k, hk, hiff⟩ := h.walkFrom_eq hi (List.mem_cons_self (l := path (up t.nodes) i))
  refine ⟨k, hk, fun j => ?_⟩
  rw [descendants, hk, List.mem_range'_1, h.ancestors_eq]
  constructor
  · rintro ⟨hij, hj⟩
    have hmem := ((hiff j hij).mp hj).2
    rwa [List.mem_cons, eq_comm] at hmem
  · rintro (rfl | hmem)
    · omega
    · obtain ⟨p, hp, -⟩ := mem_path.mp hmem
      have hij := (lt_of_mem_path hmem).le
      exact ⟨hij, (hiff j hij).mpr ⟨lt_size_of_up hp, List.mem_cons_of_mem _ hmem⟩⟩

/-! ## The way down to a position -/

theorem mem_children (hi : i < t.size) : j ∈ t.children i ↔ t.parent j = some i := by
  rw [h.children_eq hi, mem_kids_iff_up, h.parent_eq]

theorem lt_size_of_mem_children (hi : i < t.size) (hj : j ∈ t.children i) : j < t.size := by
  rw [h.children_eq hi] at hj
  exact (mem_kids.mp hj).1

theorem resolveFrom_lt (pos : ℕ) (hi : i < t.size) : t.resolveFrom pos i < t.size := by
  induction hn : t.size - i using Nat.strong_induction_on generalizing i with
  | _ n ih =>
    rw [resolveFrom]
    cases hfind : (t.childrenBack i).find? (t.reaches pos) with
    | none => exact hi
    | some c =>
      have hmem := List.mem_of_find?_eq_some hfind
      rw [h.childrenBack_eq hi, List.mem_reverse] at hmem
      have hc := (mem_kids.mp hmem).1
      dsimp only
      split
      · next hlt => exact ih (t.size - c) (by omega) hc rfl
      · exact hc

theorem lt_size_of_mem_resolve {pos : ℕ} (hi : i ∈ t.resolve pos :: t.ancestors (t.resolve pos)) :
    i < t.size := by
  rw [ancestors_eq_path] at hi
  exact (le_of_mem_cons_path hi).trans_lt (h.resolveFrom_lt pos t.nonempty)

end SchemaAssist.Syntax.Linked

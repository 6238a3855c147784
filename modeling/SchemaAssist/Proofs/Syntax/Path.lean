import Mathlib.Data.List.Lemmas
import SchemaAssist.Syntax.Tree

/-! # Paths to the root

A numbering gives each node the number of its parent, if it has one. It is a preorder when parents
come before their children and each node hangs below the node numbered just before it, or below one
of that node's ancestors. The nodes below a node are then numbered without a gap.
-/
namespace SchemaAssist.Syntax

def path (up : ℕ → Option ℕ) (i : ℕ) : List ℕ :=
  match up i with
  | none => []
  | some p => if _h : p < i then p :: path up p else []
termination_by i

theorem Tree.ancestors_eq_path (t : Tree) (i : ℕ) : t.ancestors i = path t.parent i := by
  induction i using Nat.strong_induction_on with
  | _ i ih =>
    rw [Tree.ancestors, path]
    cases t.parent i with
    | none => rfl
    | some p =>
      by_cases hp : p < i
      · simp only [hp, dif_pos, ih p hp]
      · simp only [hp, dif_neg, not_false_eq_true]

/-- Parents come first, and a node hangs from the one before it or from an ancestor of that one. -/
structure Preorder (up : ℕ → Option ℕ) : Prop where
  below : ∀ i p, up i = some p → p < i
  near : ∀ i p, up (i + 1) = some p → p ∈ i :: path up i

section
variable {up : ℕ → Option ℕ}

theorem path_of_none {i : ℕ} (h : up i = none) : path up i = [] := by
  rw [path, h]

theorem path_of_some {i p : ℕ} (h : up i = some p) (hp : p < i) : path up i = p :: path up p := by
  rw [path, h]
  exact dif_pos hp

theorem mem_path {a i : ℕ} : a ∈ path up i ↔ ∃ p, up i = some p ∧ p < i ∧ a ∈ p :: path up p := by
  constructor
  · intro h
    cases hp : up i with
    | none => simp [path_of_none hp] at h
    | some p =>
      by_cases hlt : p < i
      · rw [path_of_some hp hlt] at h
        exact ⟨p, rfl, hlt, h⟩
      · rw [path, hp] at h
        simp [hlt] at h
  · rintro ⟨p, hp, hlt, h⟩
    rwa [path_of_some hp hlt]

theorem lt_of_mem_path {a i : ℕ} (h : a ∈ path up i) : a < i := by
  induction i using Nat.strong_induction_on with
  | _ i ih =>
    obtain ⟨p, -, hlt, ha⟩ := mem_path.mp h
    rcases List.mem_cons.mp ha with rfl | ha
    · exact hlt
    · exact (ih p hlt ha).trans hlt

theorem le_of_mem_cons_path {a i : ℕ} (h : a ∈ i :: path up i) : a ≤ i := by
  rcases List.mem_cons.mp h with rfl | h
  · exact le_rfl
  · exact (lt_of_mem_path h).le

theorem mem_path_trans {a b i : ℕ} (hab : a ∈ path up b) (hbi : b ∈ path up i) : a ∈ path up i := by
  induction i using Nat.strong_induction_on with
  | _ i ih =>
    obtain ⟨p, hp, hlt, hb⟩ := mem_path.mp hbi
    refine mem_path.mpr ⟨p, hp, hlt, List.mem_cons_of_mem _ ?_⟩
    rcases List.mem_cons.mp hb with rfl | hb
    · exact hab
    · exact ih p hlt hb

theorem mem_path_of_mem_cons {a b i : ℕ} (hab : a ∈ b :: path up b) (hbi : b ∈ path up i) :
    a ∈ path up i := by
  rcases List.mem_cons.mp hab with rfl | hab
  · exact hbi
  · exact mem_path_trans hab hbi

theorem mem_path_of_lt {a b i : ℕ} (ha : a ∈ i :: path up i) (hb : b ∈ i :: path up i)
    (hlt : a < b) : a ∈ path up b := by
  induction i using Nat.strong_induction_on with
  | _ i ih =>
    rcases List.mem_cons.mp hb with rfl | hb
    · exact List.mem_of_ne_of_mem hlt.ne ha
    · have hai : a ≠ i := (hlt.trans (lt_of_mem_path hb)).ne
      obtain ⟨p, hp, hpi, hbp⟩ := mem_path.mp hb
      have hap := List.mem_of_ne_of_mem hai ha
      rw [path_of_some hp hpi] at hap
      exact ih p hpi hap hbp

theorem exists_child_of_mem_path {a i : ℕ} (h : a ∈ path up i) :
    ∃ c ∈ i :: path up i, up c = some a ∧ a < c := by
  induction i using Nat.strong_induction_on with
  | _ i ih =>
    obtain ⟨p, hp, hlt, ha⟩ := mem_path.mp h
    rcases List.mem_cons.mp ha with rfl | ha
    · exact ⟨i, List.mem_cons_self, hp, hlt⟩
    · obtain ⟨c, hc, hcp, hac⟩ := ih p hlt ha
      rw [path_of_some hp hlt]
      exact ⟨c, List.mem_cons_of_mem _ hc, hcp, hac⟩

theorem cons_path_eq_append {a i : ℕ} (h : a ∈ i :: path up i) :
    ∃ front, i :: path up i = front ++ a :: path up a ∧ ∀ x ∈ front, a ∈ path up x := by
  induction i using Nat.strong_induction_on with
  | _ i ih =>
    rcases List.mem_cons.mp h with rfl | ha
    · exact ⟨[], rfl, fun _ hx => absurd hx List.not_mem_nil⟩
    · obtain ⟨p, hp, hlt, hap⟩ := mem_path.mp ha
      obtain ⟨front, heq, hfront⟩ := ih p hlt hap
      refine ⟨i :: front, ?_, fun x hx => ?_⟩
      · rw [path_of_some hp hlt, heq, List.cons_append]
      · rcases List.mem_cons.mp hx with rfl | hx
        · exact ha
        · exact hfront x hx

theorem pairwise_path (up : ℕ → Option ℕ) (i : ℕ) :
    (i :: path up i).Pairwise fun a b => b ∈ path up a := by
  induction i using Nat.strong_induction_on with
  | _ i ih =>
    refine List.pairwise_cons.mpr ⟨fun _ hb => hb, ?_⟩
    cases hpath : path up i with
    | nil => exact .nil
    | cons p rest =>
      obtain ⟨q, hq, hlt, -⟩ := mem_path.mp (hpath ▸ List.mem_cons_self : p ∈ path up i)
      rw [path_of_some hq hlt] at hpath
      rw [← hpath]
      exact ih q hlt

theorem path_congr {up' : ℕ → Option ℕ} {i : ℕ} (h : ∀ j ≤ i, up' j = up j) :
    path up' i = path up i := by
  induction i using Nat.strong_induction_on with
  | _ i ih =>
    rw [path, path, h i le_rfl]
    cases up i with
    | none => rfl
    | some p =>
      by_cases hp : p < i
      · simp only [hp, dif_pos, ih p hp fun j hj => h j (hj.trans hp.le)]
      · simp only [hp, dif_neg, not_false_eq_true]

/-! ## Numbering without gaps -/

namespace Preorder
variable (h : Preorder up)
include h

theorem path_eq {i p : ℕ} (hp : up i = some p) : path up i = p :: path up p :=
  path_of_some hp (h.below i p hp)

theorem parent_mem_path {i p : ℕ} (hp : up i = some p) : p ∈ path up i := by
  rw [h.path_eq hp]
  exact List.mem_cons_self

theorem mem_path_of_between {a i j : ℕ} (hj : a ∈ path up j) (hai : a < i) (hij : i ≤ j) :
    a ∈ path up i := by
  induction j, hij using Nat.le_induction with
  | base => exact hj
  | succ j hij ih =>
    obtain ⟨p, hp, -, hap⟩ := mem_path.mp hj
    have hpj := h.near j p hp
    have haj : a ∈ j :: path up j := by
      rcases List.mem_cons.mp hpj with rfl | hpj
      · exact hap
      · exact List.mem_cons_of_mem _ (mem_path_of_mem_cons hap hpj)
    exact ih (List.mem_of_ne_of_mem (hai.trans_le hij).ne haj)

theorem mem_path_of_child {i x p : ℕ} (hx : x ∈ i :: path up i) (hp : up x = some p) :
    p ∈ path up i := by
  have hpx := h.parent_mem_path hp
  rcases List.mem_cons.mp hx with rfl | hx
  · exact hpx
  · exact mem_path_trans hpx hx

theorem lt_of_younger {i x y p : ℕ} (hx : x ∈ i :: path up i) (hp : up x = some p)
    (hy : up y = some p) (hxy : x < y) : i < y := by
  by_contra hle
  have hyi := Nat.le_of_not_lt hle
  -- from `x` to `i` everything is below `x`, but `y` is beside it
  have hxi : x ∈ path up i := List.mem_of_ne_of_mem (by omega) hx
  have hbelow := h.mem_path_of_between hxi hxy hyi
  rw [h.path_eq hy] at hbelow
  have := le_of_mem_cons_path hbelow
  have := h.below x p hp
  omega

theorem parent_succ {a j : ℕ} (hj : a ∈ path up j) : up (a + 1) = some a := by
  have hnext := h.mem_path_of_between hj (Nat.lt_succ_self a) (lt_of_mem_path hj)
  obtain ⟨p, hp, hlt, hap⟩ := mem_path.mp hnext
  have hpa : a ≤ p := le_of_mem_cons_path hap
  obtain rfl : p = a := by omega
  exact hp

/-- The node after the last one below `x` hangs from the parent of `x` when it is below it. -/
theorem parent_past {i x p : ℕ} (hx : x ∈ i :: path up i) (hp : up x = some p)
    (hpast : x ∉ path up (i + 1)) (hbelow : p ∈ path up (i + 1)) : up (i + 1) = some p := by
  obtain ⟨q, hq, hlt, hpq⟩ := mem_path.mp hbelow
  have hqi := h.near i q hq
  rw [h.path_eq hq] at hpast
  rcases List.mem_cons.mp hpq with rfl | hpq
  · exact hq
  · exfalso
    rcases lt_trichotomy x q with hxq | rfl | hqx
    · exact hpast (List.mem_cons_of_mem _ (mem_path_of_lt hx hqi hxq))
    · exact hpast List.mem_cons_self
    · have hqp := mem_path_of_lt hqi hx hqx
      rw [h.path_eq hp] at hqp
      have := le_of_mem_cons_path hqp
      have := lt_of_mem_path hpq
      omega

end Preorder

end

/-! ## Nearest ancestors -/

/-- The first of the ancestors with a property is the one that all others with it lie above. -/
theorem find?_path_eq_some {up : ℕ → Option ℕ} {q : ℕ → Bool} {i a : ℕ} :
    (path up i).find? q = some a ↔
      a ∈ path up i ∧ q a ∧ ∀ b ∈ path up i, q b → b = a ∨ b ∈ path up a := by
  induction i using Nat.strong_induction_on with
  | _ i ih =>
    cases hpath : path up i with
    | nil => simp
    | cons p rest =>
      obtain ⟨p', hp, hlt, -⟩ := mem_path.mp (hpath ▸ List.mem_cons_self : p ∈ path up i)
      rw [path_of_some hp hlt] at hpath
      obtain ⟨rfl, rfl⟩ := List.cons.inj hpath
      by_cases hq : q p'
      · rw [List.find?_cons_of_pos hq]
        constructor
        · rintro ⟨⟩
          exact ⟨List.mem_cons_self, hq, fun b hb _ => List.mem_cons.mp hb⟩
        · rintro ⟨ha, -, hnear⟩
          rcases hnear p' List.mem_cons_self hq with rfl | hmem
          · rfl
          · exact absurd (le_of_mem_cons_path ha) (lt_of_mem_path hmem).not_ge
      · rw [List.find?_cons_of_neg hq, ih p' hlt]
        constructor
        · rintro ⟨ha, hqa, hnear⟩
          refine ⟨List.mem_cons_of_mem _ ha, hqa, fun b hb hqb => ?_⟩
          rcases List.mem_cons.mp hb with rfl | hb
          · exact absurd hqb hq
          · exact hnear b hb hqb
        · rintro ⟨ha, hqa, hnear⟩
          refine ⟨?_, hqa, fun b hb hqb => hnear b (List.mem_cons_of_mem _ hb) hqb⟩
          rcases List.mem_cons.mp ha with rfl | ha
          · exact absurd hqa hq
          · exact ha

namespace Tree

theorem mem_ancestors_of_split {t : Tree} {i a j : ℕ} {below above : List ℕ}
    (hpath : i :: t.ancestors i = below ++ a :: above) (hj : j ∈ below) : a ∈ t.ancestors j := by
  have hpairs := pairwise_path t.parent i
  rw [← Tree.ancestors_eq_path, hpath] at hpairs
  rw [Tree.ancestors_eq_path]
  exact (List.pairwise_append.mp hpairs).2.2 j hj a List.mem_cons_self

/-- An ancestor of a kind that all other ancestors of this kind lie above. -/
def Nearest (t : Tree) (k : Kind) (i a : ℕ) : Prop :=
  a ∈ t.ancestors i ∧ t.kind a = k ∧ ∀ b ∈ t.ancestors i, t.kind b = k → b = a ∨ b ∈ t.ancestors a

instance (t : Tree) (k : Kind) (i a : ℕ) : Decidable (t.Nearest k i a) :=
  inferInstanceAs (Decidable (_ ∧ _ ∧ ∀ b ∈ t.ancestors i, t.kind b = k → _))

theorem ancestor?_eq_some {t : Tree} {k : Kind} {i a : ℕ} :
    t.ancestor? i k = some a ↔ t.Nearest k i a := by
  unfold ancestor? Nearest
  simp only [ancestors_eq_path, find?_path_eq_some, decide_eq_true_iff]

theorem hasAncestor_iff {t : Tree} {k : Kind} {i : ℕ} :
    t.hasAncestor i k ↔ ∃ a ∈ t.ancestors i, t.kind a = k := by
  simp [hasAncestor, ancestor?, List.find?_isSome]

end Tree
end SchemaAssist.Syntax

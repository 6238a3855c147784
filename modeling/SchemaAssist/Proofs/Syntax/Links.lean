import SchemaAssist.Proofs.Syntax.Path

/-! # Links

The parents of the nodes determine all other links. The children of a node are the nodes it is the
parent of, in the order of their numbers, and links lead to the first, the last and the next of
these. Walks along such links never stop at a link that leads the wrong way.
-/
namespace SchemaAssist.Syntax

/-! ## Ascending lists -/

theorem eq_cons_filter {l : List ℕ} {c : ℕ} (hl : l.Pairwise (· < ·)) (hc : l.head? = some c) :
    l = c :: l.filter (c < ·) := by
  obtain ⟨rest, rfl⟩ := List.head?_eq_some_iff.mp hc
  obtain ⟨hlt, -⟩ := List.pairwise_cons.mp hl
  have hrest : rest.filter (c < ·) = rest :=
    List.filter_eq_self.mpr fun a ha => decide_eq_true (hlt a ha)
  simp [hrest]

theorem eq_filter_append {l : List ℕ} {c : ℕ} (hl : l.Pairwise (· < ·))
    (hc : l.getLast? = some c) : l = l.filter (· < c) ++ [c] := by
  obtain ⟨front, rfl⟩ := List.getLast?_eq_some_iff.mp hc
  have hlt := (List.pairwise_append.mp hl).2.2
  have hfront : front.filter (· < c) = front :=
    List.filter_eq_self.mpr fun a ha => decide_eq_true (hlt a ha c List.mem_cons_self)
  simp [hfront]

theorem head?_eq_iff {l : List ℕ} {c : ℕ} (hl : l.Pairwise (· < ·)) :
    l.head? = some c ↔ c ∈ l ∧ ∀ a ∈ l, c ≤ a := by
  constructor
  · intro hc
    obtain ⟨rest, rfl⟩ := List.head?_eq_some_iff.mp hc
    refine ⟨List.mem_cons_self, fun a ha => ?_⟩
    rcases List.mem_cons.mp ha with rfl | ha
    · exact le_rfl
    · exact ((List.pairwise_cons.mp hl).1 a ha).le
  · rintro ⟨hmem, hmin⟩
    cases l with
    | nil => exact absurd hmem List.not_mem_nil
    | cons b rest =>
      have hbc := hmin b List.mem_cons_self
      rcases List.mem_cons.mp hmem with rfl | hmem
      · rfl
      · exact absurd ((List.pairwise_cons.mp hl).1 c hmem) hbc.not_gt

theorem getLast?_eq_iff {l : List ℕ} {c : ℕ} (hl : l.Pairwise (· < ·)) :
    l.getLast? = some c ↔ c ∈ l ∧ ∀ a ∈ l, a ≤ c := by
  constructor
  · intro hc
    obtain ⟨front, rfl⟩ := List.getLast?_eq_some_iff.mp hc
    refine ⟨List.mem_concat_self, fun a ha => ?_⟩
    rcases List.mem_append.mp ha with ha | ha
    · exact ((List.pairwise_append.mp hl).2.2 a ha c List.mem_cons_self).le
    · exact (List.mem_singleton.mp ha).le
  · rintro ⟨hmem, hmax⟩
    cases hlast : l.getLast? with
    | none => simp [List.getLast?_eq_none_iff.mp hlast] at hmem
    | some b =>
      obtain ⟨front, rfl⟩ := List.getLast?_eq_some_iff.mp hlast
      have hbc := hmax b List.mem_concat_self
      rcases List.mem_append.mp hmem with hmem | hmem
      · exact absurd ((List.pairwise_append.mp hl).2.2 c hmem b List.mem_cons_self) hbc.not_gt
      · rw [List.mem_singleton.mp hmem]

theorem rel_of_lt {R : ℕ → ℕ → Prop} {l : List ℕ} {a b : ℕ} (hl : l.Pairwise (· < ·))
    (hR : l.Pairwise R) (ha : a ∈ l) (hb : b ∈ l) (hab : a < b) : R a b := by
  induction l with
  | nil => exact absurd ha List.not_mem_nil
  | cons c rest ih =>
    obtain ⟨hlt, hl⟩ := List.pairwise_cons.mp hl
    obtain ⟨hrel, hR⟩ := List.pairwise_cons.mp hR
    rcases List.mem_cons.mp hb with rfl | hbr
    · rcases List.mem_cons.mp ha with rfl | har
      · exact absurd hab (Nat.lt_irrefl _)
      · exact absurd (hlt a har) (Nat.not_lt.mpr hab.le)
    · rcases List.mem_cons.mp ha with rfl | har
      · exact hrel b hbr
      · exact ih hl hR har hbr

/-! ## Relatives of a node -/

def up (nodes : Array Node) (i : ℕ) : Option ℕ := nodes[i]?.bind (·.parent)

def kids (nodes : Array Node) (i : ℕ) : List ℕ :=
  (List.range nodes.size).filter (up nodes · = some i)

/-- The children of the parent; a node without parent has no siblings. -/
def siblings (nodes : Array Node) (i : ℕ) : List ℕ := (up nodes i).elim [] (kids nodes)

def younger (nodes : Array Node) (i : ℕ) : List ℕ := (siblings nodes i).filter (i < ·)

def older (nodes : Array Node) (i : ℕ) : List ℕ := (siblings nodes i).filter (· < i)

/-- All links follow from the parents, and these number the nodes in preorder. -/
structure Linked (nodes : Array Node) : Prop where
  preorder : Preorder (up nodes)
  first : ∀ i nd, nodes[i]? = some nd → nd.firstChild = (kids nodes i).head?
  last : ∀ i nd, nodes[i]? = some nd → nd.lastChild = (kids nodes i).getLast?
  next : ∀ i nd, nodes[i]? = some nd → nd.nextSibling = (younger nodes i).head?
  prev : ∀ i nd, nodes[i]? = some nd → nd.prevSibling = (older nodes i).getLast?

section
variable {nodes : Array Node} {i j p : ℕ}

theorem mem_kids : j ∈ kids nodes i ↔ j < nodes.size ∧ up nodes j = some i := by
  simp [kids]

theorem lt_size_of_up (h : up nodes i = some p) : i < nodes.size := by
  obtain ⟨nd, hnd, -⟩ := Option.bind_eq_some_iff.mp h
  exact (Array.getElem?_eq_some_iff.mp hnd).1

theorem mem_kids_iff_up : j ∈ kids nodes i ↔ up nodes j = some i :=
  mem_kids.trans ⟨fun h => h.2, fun h => ⟨lt_size_of_up h, h⟩⟩

theorem siblings_of_up (h : up nodes i = some p) : siblings nodes i = kids nodes p := by
  rw [siblings, h, Option.elim_some]

theorem pairwise_kids (nodes : Array Node) (i : ℕ) : (kids nodes i).Pairwise (· < ·) :=
  List.pairwise_lt_range.filter _

theorem pairwise_siblings (nodes : Array Node) (i : ℕ) : (siblings nodes i).Pairwise (· < ·) := by
  unfold siblings
  cases up nodes i with
  | none => exact .nil
  | some p => exact pairwise_kids nodes p

theorem pairwise_younger (nodes : Array Node) (i : ℕ) : (younger nodes i).Pairwise (· < ·) :=
  (pairwise_siblings nodes i).filter _

theorem pairwise_older (nodes : Array Node) (i : ℕ) : (older nodes i).Pairwise (· < ·) :=
  (pairwise_siblings nodes i).filter _

theorem mem_siblings : j ∈ siblings nodes i ↔ ∃ p, up nodes i = some p ∧ up nodes j = some p := by
  cases h : up nodes i with
  | none => simp [siblings, h]
  | some p => simp [siblings_of_up h, mem_kids_iff_up]

theorem mem_younger :
    j ∈ younger nodes i ↔ i < j ∧ ∃ p, up nodes i = some p ∧ up nodes j = some p := by
  rw [younger, List.mem_filter, mem_siblings, decide_eq_true_iff]
  exact and_comm

theorem mem_older :
    j ∈ older nodes i ↔ j < i ∧ ∃ p, up nodes i = some p ∧ up nodes j = some p := by
  rw [older, List.mem_filter, mem_siblings, decide_eq_true_iff]
  exact and_comm

theorem siblings_eq_of_mem (h : j ∈ siblings nodes i) : siblings nodes j = siblings nodes i := by
  obtain ⟨p, hi, hj⟩ := mem_siblings.mp h
  rw [siblings_of_up hi, siblings_of_up hj]

theorem younger_eq_cons (h : (younger nodes i).head? = some j) :
    younger nodes i = j :: younger nodes j := by
  have hmem := ((head?_eq_iff (pairwise_younger nodes i)).mp h).1
  have hij := (mem_younger.mp hmem).1
  have hsib : siblings nodes j = siblings nodes i :=
    siblings_eq_of_mem (List.mem_of_mem_filter hmem)
  have heq := eq_cons_filter (pairwise_younger nodes i) h
  rw [heq]
  congr 1
  rw [younger, younger, hsib, List.filter_filter]
  exact List.filter_congr fun a _ => by simp only [Bool.and_eq_left_iff_imp, decide_eq_true_iff]; omega

theorem older_eq_append (h : (older nodes i).getLast? = some j) :
    older nodes i = older nodes j ++ [j] := by
  have hmem := ((getLast?_eq_iff (pairwise_older nodes i)).mp h).1
  have hij := (mem_older.mp hmem).1
  have hsib : siblings nodes j = siblings nodes i :=
    siblings_eq_of_mem (List.mem_of_mem_filter hmem)
  have heq := eq_filter_append (pairwise_older nodes i) h
  rw [heq]
  congr 1
  rw [older, older, hsib, List.filter_filter]
  exact List.filter_congr fun a _ => by simp only [Bool.and_eq_left_iff_imp, decide_eq_true_iff]; omega

theorem kids_eq_cons (h : (kids nodes i).head? = some j) : kids nodes i = j :: younger nodes j := by
  have hmem := ((head?_eq_iff (pairwise_kids nodes i)).mp h).1
  rw [younger, siblings_of_up (mem_kids_iff_up.mp hmem)]
  exact eq_cons_filter (pairwise_kids nodes i) h

theorem kids_eq_append (h : (kids nodes i).getLast? = some j) :
    kids nodes i = older nodes j ++ [j] := by
  have hmem := ((getLast?_eq_iff (pairwise_kids nodes i)).mp h).1
  rw [older, siblings_of_up (mem_kids_iff_up.mp hmem)]
  exact eq_filter_append (pairwise_kids nodes i) h

theorem head?_younger_iff : (younger nodes i).head? = some j ↔ (older nodes j).getLast? = some i := by
  rw [head?_eq_iff (pairwise_younger nodes i), getLast?_eq_iff (pairwise_older nodes j)]
  simp only [mem_younger, mem_older]
  constructor
  · rintro ⟨⟨hlt, p, hi, hj⟩, hmin⟩
    refine ⟨⟨hlt, p, hj, hi⟩, ?_⟩
    rintro a ⟨haj, q, hq, ha⟩
    by_contra hia
    obtain rfl : p = q := Option.some.inj (hj.symm.trans hq)
    have := hmin a ⟨by omega, p, hi, ha⟩
    omega
  · rintro ⟨⟨hlt, p, hj, hi⟩, hmax⟩
    refine ⟨⟨hlt, p, hi, hj⟩, ?_⟩
    rintro a ⟨hia, q, hq, ha⟩
    by_contra haj
    obtain rfl : p = q := Option.some.inj (hi.symm.trans hq)
    have := hmax a ⟨by omega, p, hj, ha⟩
    omega

end
end SchemaAssist.Syntax

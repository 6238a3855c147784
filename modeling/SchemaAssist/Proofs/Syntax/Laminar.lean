import SchemaAssist.Proofs.Syntax.Resolve
import SchemaAssist.Proofs.Syntax.WellLinked

/-! # Trees reported in the order of the text

A parser that never goes back in the text builds nested spans: children lie within their parent, in
order and without overlap. Nodes may be left unfinished, and finishes may be surplus.
-/
namespace SchemaAssist.Syntax

/-- The positions an event reports, in the order of the report. -/
def Event.positions : Event → List ℕ
  | .start _ pos => [pos]
  | .leaf _ pos stop => [pos, stop]
  | .error pos => [pos]
  | .finish pos => [pos]

/-- Where the parser is after an event. -/
def Event.reached : Event → ℕ
  | .start _ pos => pos
  | .leaf _ _ stop => stop
  | .error pos => pos
  | .finish pos => pos

theorem Event.reached_mem (e : Event) : e.reached ∈ e.positions := by
  cases e <;> simp [reached, positions]

/-- No event reports a position before one that was reported earlier. -/
def Ascending (events : List Event) : Prop :=
  (events.flatMap Event.positions).Pairwise (· ≤ ·)

instance (events : List Event) : Decidable (Ascending events) :=
  inferInstanceAs (Decidable (List.Pairwise _ _))

/-- Spans that are nested as the nodes are. -/
structure Tree.Laminar (t : Tree) : Prop where
  within : ∀ i < t.size, ∀ c ∈ t.children i,
    t.start i ≤ t.start c ∧ t.start c ≤ t.stop c ∧ t.stop c ≤ t.stop i
  apart : ∀ i < t.size, ∀ j, (t.node i).nextSibling = some j → t.stop i ≤ t.start j
  rising : ∀ i j, i ≤ j → j < t.size → t.start i ≤ t.start j

namespace Builder
variable {b : Builder} {kind : Kind} {pos bound i j p : ℕ}

def startOf (b : Builder) (i : ℕ) : ℕ := (b.nodes[i]?.map (·.start)).getD 0

theorem startOf_start (kind : Kind) (pos : ℕ) (hi : i < b.nodes.size) :
    (b.start kind pos).startOf i = b.startOf i := by
  rw [startOf, startOf, getElem?_start, if_neg hi.ne, Option.map_map]
  rfl

theorem startOf_size (b : Builder) (kind : Kind) (pos : ℕ) :
    (b.start kind pos).startOf b.nodes.size = pos := by
  rw [startOf, getElem?_start, if_pos rfl]
  rfl

theorem stopOf_size (b : Builder) (kind : Kind) (pos : ℕ) :
    (b.start kind pos).stopOf b.nodes.size = pos := by
  rw [stopOf, getElem?_start, if_pos rfl]
  rfl

theorem startOf_finish (b : Builder) (pos i : ℕ) : (b.finish pos).startOf i = b.startOf i := by
  rw [startOf, startOf, getElem?_finish, Option.map_map]
  rfl

theorem start_eq_startOf {t : Tree} (hnodes : t.nodes = b.nodes) (hi : i < t.size) :
    t.start i = b.startOf i := by
  rw [startOf, ← hnodes, Tree.getElem?_nodes hi]
  rfl

theorem stop_eq_stopOf {t : Tree} (hnodes : t.nodes = b.nodes) (hi : i < t.size) :
    t.stop i = b.stopOf i := by
  rw [stopOf, ← hnodes, Tree.getElem?_nodes hi]
  rfl

theorem stopOf_of_size_le (hi : b.nodes.size ≤ i) : b.stopOf i = 0 := by
  rw [stopOf, Array.getElem?_eq_none hi]
  rfl

/-- What holds while positions ascend and none is past `bound` yet. -/
structure Laminar (b : Builder) (bound : ℕ) : Prop where
  sound : Sound b
  stop_le : ∀ i, b.stopOf i ≤ bound
  rising : ∀ i j, i ≤ j → j < b.nodes.size → b.startOf i ≤ b.startOf j
  /-- A node with a younger sibling is finished, and no later than that one starts. -/
  apart : ∀ i j p, i < j → up b.nodes i = some p → up b.nodes j = some p →
    i ∉ b.unclosed ∧ b.stopOf i ≤ b.startOf j

theorem laminar_new : Laminar new 0 where
  sound := sound_new
  stop_le := fun _ => Nat.le_refl 0
  rising := by
    intro i j _ hj
    simp [new] at hj
  apart := by
    intro i j p _ hi
    simp [new, up] at hi

theorem Sound.startOf_le (h : Sound b) (i : ℕ) : b.startOf i ≤ b.stopOf i := by
  rw [startOf, stopOf]
  cases hnd : b.nodes[i]? with
  | none => exact Nat.le_refl 0
  | some nd => exact h.ordered i nd hnd

namespace Laminar
variable (h : Laminar b bound)
include h

theorem mono (hle : bound ≤ pos) : Laminar b pos :=
  { h with stop_le := fun i => (h.stop_le i).trans hle }

theorem startOf_le (i : ℕ) : b.startOf i ≤ bound := (h.sound.startOf_le i).trans (h.stop_le i)

theorem notMem_unclosed (hp : b.unclosed.head? = some p) (hi : up b.nodes i = some p) :
    i ∉ b.unclosed := by
  obtain ⟨heq, -⟩ := h.sound.unclosed_eq hp
  have hlt := h.sound.linked.preorder.below i p hi
  rw [heq]
  intro hmem
  exact absurd (le_of_mem_cons_path hmem) hlt.not_ge

/-- A new node starts behind all others, so it is apart from its siblings. -/
protected theorem start (kind : Kind) (hpos : bound ≤ pos) : Laminar (b.start kind pos) pos where
  sound := h.sound.start kind pos
  stop_le := by
    intro i
    rcases Nat.lt_trichotomy i b.nodes.size with hi | rfl | hi
    · rw [stopOf_start kind pos hi]
      exact (h.stop_le i).trans hpos
    · exact (stopOf_size b kind pos).le
    · rw [stopOf_of_size_le (by rw [size_start]; omega)]
      exact Nat.zero_le pos
  rising := by
    intro i j hij hj
    rw [size_start] at hj
    rcases Nat.lt_succ_iff_lt_or_eq.mp hj with hj | rfl
    · rw [startOf_start kind pos hj, startOf_start kind pos (by omega)]
      exact h.rising i j hij hj
    · rw [startOf_size]
      rcases Nat.lt_or_eq_of_le hij with hi | rfl
      · rw [startOf_start kind pos hi]
        exact (h.startOf_le i).trans hpos
      · exact (startOf_size b kind pos).le
  apart := by
    intro i j p hij hi hj
    have hjsize := lt_size_of_up hj
    rw [size_start] at hjsize
    have hisize : i < b.nodes.size := by omega
    rw [up_start, if_neg hisize.ne] at hi
    rw [unclosed_start, List.mem_cons, not_or, stopOf_start kind pos hisize]
    rw [up_start] at hj
    by_cases hnew : j = b.nodes.size
    · subst hnew
      rw [if_pos rfl] at hj
      rw [startOf_size]
      exact ⟨⟨hisize.ne, h.notMem_unclosed hj hi⟩, (h.stop_le i).trans hpos⟩
    · rw [if_neg hnew] at hj
      obtain ⟨hclosed, hle⟩ := h.apart i j p hij hi hj
      rw [startOf_start kind pos (lt_size_of_up hj)]
      exact ⟨⟨hisize.ne, hclosed⟩, hle⟩

/-- The innermost node has no younger sibling, so its end may move up to the bound. -/
protected theorem finish (hpos : pos ≤ bound) : Laminar (b.finish pos) bound where
  sound := h.sound.finish pos
  stop_le := by
    intro i
    by_cases hi : b.unclosed.head? = some i
    · rw [stopOf, getElem?_finish]
      cases hnd : b.nodes[i]? with
      | none => exact Nat.zero_le bound
      | some nd =>
        have hstart : nd.start ≤ bound := by
          have := h.startOf_le i
          rwa [startOf, hnd] at this
        have hchild : (nd.lastChild.map b.stopOf).getD 0 ≤ bound := by
          cases nd.lastChild with
          | none => exact Nat.zero_le bound
          | some c => exact h.stop_le c
        simp only [Option.map_some, Option.getD_some, stopAt, if_pos hi]
        exact max_le (max_le hpos hstart) hchild
    · rw [stopOf_finish hi]
      exact h.stop_le i
  rising := by
    intro i j hij hj
    rw [size_finish] at hj
    rw [startOf_finish, startOf_finish]
    exact h.rising i j hij hj
  apart := by
    intro i j p hij hi hj
    rw [up_finish] at hi hj
    obtain ⟨hclosed, hle⟩ := h.apart i j p hij hi hj
    have hhead : b.unclosed.head? ≠ some i := fun hi => hclosed (List.mem_of_mem_head? hi)
    rw [unclosed_finish, stopOf_finish hhead, startOf_finish]
    exact ⟨fun hmem => hclosed (List.mem_of_mem_tail hmem), hle⟩

/-! ### Whole runs -/

protected theorem leaf (kind : Kind) {start stop : ℕ} (hstart : bound ≤ start)
    (hstop : start ≤ stop) : Laminar (b.leaf kind start stop) stop :=
  ((h.start kind hstart).mono hstop).finish (Nat.le_refl stop)

protected theorem apply {e : Event} (hbound : ∀ x ∈ e.positions, bound ≤ x)
    (hasc : e.positions.Pairwise (· ≤ ·)) : Laminar (b.apply e) e.reached := by
  have hreached := hbound e.reached e.reached_mem
  cases e with
  | start kind pos => exact h.start kind hreached
  | leaf kind start stop =>
    exact h.leaf kind (hbound start (by simp [Event.positions]))
      (by simpa [Event.positions] using hasc)
  | error pos => exact h.leaf .error hreached (Nat.le_refl pos)
  | finish pos => exact (h.mono hreached).finish (Nat.le_refl pos)

theorem foldl_apply {events : List Event}
    (hbound : ∀ x ∈ events.flatMap Event.positions, bound ≤ x) (hasc : Ascending events) :
    ∃ last, Laminar (events.foldl apply b) last := by
  induction events generalizing b bound with
  | nil => exact ⟨bound, h⟩
  | cons e rest ih =>
    rw [List.flatMap_cons] at hbound
    rw [Ascending, List.flatMap_cons] at hasc
    obtain ⟨he, hrest, hlater⟩ := List.pairwise_append.mp hasc
    exact ih (h.apply (fun x hx => hbound x (List.mem_append_left _ hx)) he)
      (hlater e.reached e.reached_mem) hrest

/-- Ends of unfinished nodes are within the bound, so nodes may finish there. -/
theorem finishAll : Laminar b.finishAll bound := by
  unfold Builder.finishAll
  generalize b.unclosed = left
  induction left generalizing b with
  | nil => exact h
  | cons i rest ih => exact ih (h.finish (h.stop_le i))

theorem toTree : ∃ done : Builder, Laminar done bound ∧ done.unclosed = [] ∧
    b.toTree.nodes = done.nodes := by
  have hempty : Laminar (new.leaf .sourceFile 0 0) bound :=
    (laminar_new.leaf .sourceFile (Nat.le_refl 0) (Nat.le_refl 0)).mono (Nat.zero_le bound)
  obtain ⟨done, ⟨hdone, hnil⟩, hnodes⟩ :=
    toTree_cases (P := fun d => Laminar d bound ∧ d.unclosed = [])
      ⟨h.finishAll, h.sound.finishAll.2⟩ ⟨hempty, rfl⟩
  exact ⟨done, hdone, hnil, hnodes⟩

theorem stopOf_le_of_up (hnil : b.unclosed = []) (hj : up b.nodes j = some p) :
    b.stopOf j ≤ b.stopOf p := by
  have hp : p < b.nodes.size := (h.sound.linked.preorder.below j p hj).trans (lt_size_of_up hj)
  have hnode := Array.getElem?_eq_getElem hp
  obtain ⟨l, hl⟩ : ∃ l, (kids b.nodes p).getLast? = some l :=
    ⟨_, List.getLast?_eq_some_getLast (List.ne_nil_of_mem (mem_kids_iff_up.mpr hj))⟩
  obtain ⟨hlp, hmax⟩ := (getLast?_eq_iff (pairwise_kids b.nodes p)).mp hl
  have hcover : b.stopOf l ≤ b.stopOf p := by
    have hlast := (h.sound.linked.last p _ hnode).trans hl
    have hle := (h.sound.covered p _ hnode (hnil ▸ List.not_mem_nil) l hlast).2
    rwa [stopOf.eq_def b p, hnode]
  rcases Nat.lt_or_eq_of_le (hmax j (mem_kids_iff_up.mpr hj)) with hjl | rfl
  · calc b.stopOf j ≤ b.startOf l := (h.apart j l p hjl hj (mem_kids_iff_up.mp hlp)).2
      _ ≤ b.stopOf l := h.sound.startOf_le l
      _ ≤ b.stopOf p := hcover
  · exact hcover

theorem enclosing {t : Tree} (hnil : b.unclosed = []) (hnodes : t.nodes = b.nodes) :
    t.Enclosing where
  linked := hnodes ▸ h.sound.linked
  within := by
    intro i p hp
    have hlinked : Linked t.nodes := hnodes ▸ h.sound.linked
    obtain ⟨hlt, hi⟩ := hlinked.parent_lt hp
    rw [hlinked.parent_eq, hnodes] at hp
    have hps := hlt.trans hi
    rw [start_eq_startOf hnodes hi, start_eq_startOf hnodes hps, stop_eq_stopOf hnodes hi,
      stop_eq_stopOf hnodes hps]
    exact ⟨h.rising p i hlt.le (lt_size_of_up hp), h.stopOf_le_of_up hnil hp⟩
  apart := by
    intro i j p hi hj hij
    have hlinked : Linked t.nodes := hnodes ▸ h.sound.linked
    rw [stop_eq_stopOf hnodes (hlinked.parent_lt hi).2,
      start_eq_startOf hnodes (hlinked.parent_lt hj).2]
    rw [hlinked.parent_eq, hnodes] at hi hj
    exact (h.apart i j p hij hi hj).2

theorem tree {t : Tree} (hnil : b.unclosed = []) (hnodes : t.nodes = b.nodes) : t.Laminar := by
  have hspans := h.enclosing hnil hnodes
  have hlinked := hspans.linked
  refine ⟨?within, ?apart, ?rising⟩
  case within =>
    intro i hi c hc
    have hp := (hlinked.mem_children hi).mp hc
    obtain ⟨hstart, hstop⟩ := hspans.within c i hp
    have hcs := (hlinked.parent_lt hp).2
    have hordered : t.start c ≤ t.stop c := by
      rw [start_eq_startOf hnodes hcs, stop_eq_stopOf hnodes hcs]
      exact h.sound.startOf_le c
    exact ⟨hstart, hordered, hstop⟩
  case apart =>
    intro i hi j hj
    rw [hlinked.nextSibling_eq hi, head?_eq_iff (pairwise_younger t.nodes i)] at hj
    obtain ⟨hij, p, hip, hjp⟩ := mem_younger.mp hj.1
    rw [← hlinked.parent_eq] at hip hjp
    exact hspans.apart i j p hip hjp hij
  case rising =>
    intro i j hij hj
    rw [start_eq_startOf hnodes (hij.trans_lt hj), start_eq_startOf hnodes hj]
    rw [Tree.size, hnodes] at hj
    exact h.rising i j hij hj

end Laminar
end Builder

theorem enclosing_ofEvents {events : List Event} (hasc : Ascending events) :
    (Tree.ofEvents events).Enclosing := by
  obtain ⟨last, hrun⟩ := Builder.laminar_new.foldl_apply (fun x _ => Nat.zero_le x) hasc
  obtain ⟨done, hdone, hnil, hnodes⟩ := hrun.toTree
  exact hdone.enclosing hnil hnodes

/-- Positions that never go back make spans that nest as the nodes do. -/
theorem laminar_ofEvents {events : List Event} (hasc : Ascending events) :
    (Tree.ofEvents events).Laminar := by
  obtain ⟨last, hrun⟩ := Builder.laminar_new.foldl_apply (fun x _ => Nat.zero_le x) hasc
  obtain ⟨done, hdone, hnil, hnodes⟩ := hrun.toTree
  exact hdone.tree hnil hnodes

/-- A finish before any start, two nodes left unfinished, and an error between two siblings. -/
theorem laminar_ofEvents_unfinished :
    let events : List Event :=
      [.finish 0, .start .sourceFile 0, .start .tableBlock 1, .leaf .table 1 6, .error 6,
        .leaf .tableName 7 9, .finish 12, .finish 12, .finish 13, .start .tableBlock 14,
        .start .column 15]
    Ascending events ∧ (Tree.ofEvents events).Laminar := by
  intro events
  have hasc : Ascending events := by decide
  exact ⟨hasc, laminar_ofEvents hasc⟩

end SchemaAssist.Syntax

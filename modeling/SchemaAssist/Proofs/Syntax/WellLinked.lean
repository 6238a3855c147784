import SchemaAssist.Proofs.Syntax.Building

/-! # Trees built from events are well linked

Parents come before their children, the links of a node agree with the parents of all others, and
spans grow with those of the last children. This holds however starts and finishes are mixed.
-/
namespace SchemaAssist.Syntax

/-- What navigation in a tree relies on. -/
structure Tree.WellLinked (t : Tree) : Prop where
  parent_lt : ∀ i p, t.parent i = some p → p < i
  /-- Links to siblings lead on within the tree, so that no walk stops early. -/
  next_lt : ∀ i < t.size, ∀ j, (t.node i).nextSibling = some j → i < j ∧ j < t.size
  prev_lt : ∀ i < t.size, ∀ j, (t.node i).prevSibling = some j → j < i
  children : ∀ i < t.size, t.children i = t.ids.filter (t.parent · = some i)
  childrenBack : ∀ i < t.size, t.childrenBack i = (t.ids.filter (t.parent · = some i)).reverse
  /-- The siblings of a node name it as their neighbour. -/
  inverse : ∀ i < t.size, ∀ j < t.size,
    (t.node i).nextSibling = some j ↔ (t.node j).prevSibling = some i
  descendants : ∀ i < t.size, ∃ k, t.descendants i = List.range' i (k + 1) ∧
    ∀ j, j ∈ t.descendants i ↔ j = i ∨ i ∈ t.ancestors j
  ordered : ∀ i < t.size, t.start i ≤ t.stop i
  covers : ∀ i < t.size, ∀ c, (t.node i).lastChild = some c → t.stop c ≤ t.stop i

theorem Linked.wellLinked {t : Tree} (h : Linked t.nodes)
    (hordered : ∀ i < t.size, t.start i ≤ t.stop i)
    (hcovers : ∀ i < t.size, ∀ c, (t.node i).lastChild = some c → t.stop c ≤ t.stop i) :
    t.WellLinked where
  parent_lt := by
    intro i p hp
    rw [h.parent_eq] at hp
    exact h.preorder.below i p hp
  next_lt := fun _ hi _ hj => h.nextSibling_lt hi hj
  prev_lt := fun _ hi _ hj => h.prevSibling_lt hi hj
  children := by
    intro i hi
    rw [h.ids_filter_parent, h.children_eq hi]
  childrenBack := by
    intro i hi
    rw [h.ids_filter_parent, h.childrenBack_eq hi]
  inverse := fun _ hi _ hj => h.nextSibling_iff hi hj
  descendants := fun _ hi => h.descendants_eq hi
  ordered := hordered
  covers := hcovers

theorem linked_ofEvents (events : List Event) : Linked (Tree.ofEvents events).nodes := by
  obtain ⟨done, hdone, -, hnodes⟩ := (Builder.sound_new.foldl_apply events).toTree
  rw [Tree.ofEvents, hnodes]
  exact hdone.linked

theorem ordered_ofEvents (events : List Event) : ∀ i < (Tree.ofEvents events).size,
    (Tree.ofEvents events).start i ≤ (Tree.ofEvents events).stop i := by
  obtain ⟨done, hdone, -, hnodes⟩ := (Builder.sound_new.foldl_apply events).toTree
  intro i hi
  exact hdone.ordered i _ (hnodes ▸ Tree.getElem?_nodes hi)

theorem wellLinked_ofEvents (events : List Event) : (Tree.ofEvents events).WellLinked := by
  obtain ⟨done, hdone, hnil, hnodes⟩ := (Builder.sound_new.foldl_apply events).toTree
  have hnode : ∀ i < (Tree.ofEvents events).size,
      done.nodes[i]? = some ((Tree.ofEvents events).node i) := by
    intro i hi
    rw [← hnodes]
    exact Tree.getElem?_nodes hi
  refine (linked_ofEvents events).wellLinked ?_ ?_
  · intro i hi
    exact hdone.ordered i _ (hnode i hi)
  · intro i hi c hc
    have hlinked := linked_ofEvents events
    have hclt : c < (Tree.ofEvents events).size := by
      have hlast := hc
      rw [hlinked.lastChild_eq hi, getLast?_eq_iff (pairwise_kids _ _)] at hlast
      exact (mem_kids.mp hlast.1).1
    have hunclosed : i ∉ done.unclosed := hnil ▸ List.not_mem_nil
    obtain ⟨-, hle⟩ := hdone.covered i _ (hnode i hi) hunclosed c hc
    rw [Builder.stopOf, hnode c hclt] at hle
    exact hle

end SchemaAssist.Syntax

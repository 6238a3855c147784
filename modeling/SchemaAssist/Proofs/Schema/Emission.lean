import SchemaAssist.Schema.Table
import SchemaAssist.Proofs.Schema.Placement

/-! # Reporting a layout

The nodes that the outlines of a layout are built into are those of the layout. Each outline starts
and ends where its text does, so the parts of an outline fit into it and no end is moved.
-/
namespace SchemaAssist.Syntax.Outline

theorem preorderAll_append (os os' : List Outline) :
    preorderAll (os ++ os') = preorderAll os ++ preorderAll os' := by
  induction os with
  | nil => rfl
  | cons o rest ih => rw [List.cons_append, preorderAll, preorderAll, ih, List.append_assoc]

theorem roots_append (id : ℕ) (os os' : List Outline) :
    roots id (os ++ os') = roots id os ++ roots (id + (preorderAll os).length) os' := by
  induction os generalizing id with
  | nil => rfl
  | cons o rest ih => simp [roots, preorderAll, ih, Nat.add_assoc]

theorem builtAll_append {f : ℕ → Option Info} {parent : Option ℕ} {id : ℕ} {os os' : List Outline} :
    BuiltAll f parent id (os ++ os') ↔
      BuiltAll f parent id os ∧ BuiltAll f parent (id + (preorderAll os).length) os' := by
  induction os generalizing id with
  | nil => simp [BuiltAll, preorderAll]
  | cons o rest ih => simp [BuiltAll, preorderAll, ih, Nat.add_assoc, and_assoc]

end SchemaAssist.Syntax.Outline

namespace SchemaAssist.Schema.Layout
open Syntax Outline Text

/-! ## Outlines of a layout -/

mutual

theorem length_outlines : ∀ (l : Layout) (pos : ℕ),
    (preorderAll (outlines pos l)).length = l.count
  | .gap _, _ => rfl
  | .leaf _ _, _ => rfl
  | .node _ parts, pos => by
    rw [outlines, preorderAll, preorderAll, List.append_nil, preorder, List.length_cons, count,
      length_outlinesAll parts pos]

theorem length_outlinesAll : ∀ (ls : List Layout) (pos : ℕ),
    (preorderAll (outlinesAll pos ls)).length = countAll ls
  | [], _ => rfl
  | l :: rest, pos => by
    rw [outlinesAll, preorderAll_append, List.length_append, countAll, length_outlines l pos,
      length_outlinesAll rest]

end

theorem roots_outlinesAll (ls : List Layout) (pos id : ℕ) :
    Outline.roots id (outlinesAll pos ls) = roots id ls := by
  induction ls generalizing pos id with
  | nil => rfl
  | cons l rest ih =>
    rw [outlinesAll, roots_append, length_outlines, ih, roots]
    congr 1
    cases l <;> rfl

theorem stop_outlinesAll_le (ls : List Layout) (pos : ℕ) :
    ∀ o ∈ outlinesAll pos ls, o.stop ≤ pos + size (textAll ls) := by
  induction ls generalizing pos with
  | nil => exact fun _ ho => absurd ho List.not_mem_nil
  | cons l rest ih =>
    intro o ho
    rw [outlinesAll, List.mem_append] at ho
    rw [textAll, size_append]
    rcases ho with ho | ho
    · have hstop : o.stop = pos + size l.text := by
        cases l with
        | gap _ => exact absurd ho List.not_mem_nil
        | leaf _ _ => rw [List.mem_singleton.mp ho]; rfl
        | node _ _ => rw [List.mem_singleton.mp ho]; rfl
      omega
    · have := ih _ o ho
      omega

mutual

theorem fits_outlines : ∀ (l : Layout) (pos : ℕ), ∀ m ∈ preorderAll (outlines pos l), m.Fits
  | .gap _, _ => by simp [outlines, preorderAll]
  | .leaf _ _, _ => by
    simp [outlines, preorderAll, preorder, Fits, Outline.start, Outline.stop, Outline.children]
  | .node _ parts, pos => by
    rw [outlines, preorderAll, preorderAll, List.append_nil, preorder, List.forall_mem_cons]
    exact ⟨⟨Nat.le_add_right _ _, stop_outlinesAll_le parts pos⟩, fits_outlinesAll parts pos⟩

theorem fits_outlinesAll : ∀ (ls : List Layout) (pos : ℕ),
    ∀ m ∈ preorderAll (outlinesAll pos ls), m.Fits
  | [], _ => by simp [outlinesAll, preorderAll]
  | l :: rest, pos => by
    rw [outlinesAll, preorderAll_append, List.forall_mem_append]
    exact ⟨fits_outlines l pos, fits_outlinesAll rest _⟩

end

/-! ## Built layouts -/

theorem info_of_built {f : ℕ → Option Info} {parent : Option ℕ} {id first last : ℕ} {kind : Kind}
    {children : List Outline} (h : BuiltAll f parent id [.node kind (some (first, last)) children])
    (hfits : ∀ m ∈ preorderAll [.node kind (some (first, last)) children], m.Fits) :
    f id = some ⟨kind, first, last, parent, Outline.roots (id + 1) children⟩ ∧
      BuiltAll f (some id) (id + 1) children := by
  obtain ⟨⟨hnode, hchildren⟩, -⟩ := h
  rw [preorderAll, preorderAll, List.append_nil] at hfits
  rw [ending_eq_stop hfits] at hnode
  exact ⟨hnode, hchildren⟩

mutual

theorem placed_of_built {f : ℕ → Option Info} : ∀ {l : Layout} {parent : Option ℕ} {pos id : ℕ},
    BuiltAll f parent id (outlines pos l) → Placed f parent pos id l
  | .gap _, _, _, _, _ => trivial
  | .leaf kind text, _, pos, _, h => (info_of_built h (fits_outlines (.leaf kind text) pos)).1
  | .node kind parts, _, pos, _, h => by
    obtain ⟨hnode, hparts⟩ := info_of_built h (fits_outlines (.node kind parts) pos)
    rw [roots_outlinesAll] at hnode
    exact ⟨hnode, placedAll_of_built hparts⟩

theorem placedAll_of_built {f : ℕ → Option Info} : ∀ {ls : List Layout} {parent : Option ℕ}
    {pos id : ℕ}, BuiltAll f parent id (outlinesAll pos ls) → PlacedAll f parent pos id ls
  | [], _, _, _, _ => trivial
  | l :: rest, _, pos, id, h => by
    rw [outlinesAll, builtAll_append, length_outlines] at h
    exact ⟨placed_of_built h.1, placedAll_of_built h.2⟩

end

end SchemaAssist.Schema.Layout

namespace SchemaAssist.Schema
open Syntax Layout

/-- The document of a layout around all its text has the nodes of the layout. -/
theorem placed_ofLayout {l : Layout} {kind : Kind} (hkind : l.kind? = some kind) :
    Linked (Document.ofLayout l).tree.nodes ∧ (Document.ofLayout l).tree.size = l.count ∧
      Placed (info (Document.ofLayout l).tree.nodes) none 0 0 l := by
  obtain ⟨o, ho⟩ : ∃ o, l.outlines 0 = [o] := by
    cases l with
    | gap _ => cases hkind
    | leaf _ _ => exact ⟨_, rfl⟩
    | node _ _ => exact ⟨_, rfl⟩
  have htree : (Document.ofLayout l).tree = o.toTree := by
    rw [Document.ofLayout, ho]
  have hcount : o.preorder.length = l.count := by
    rw [← length_outlines l 0, ho, Outline.preorderAll, Outline.preorderAll, List.append_nil]
  obtain ⟨done, hlinked, hnodes, -, hbuilt⟩ := o.exists_done
  rw [htree]
  refine ⟨hnodes ▸ hlinked, o.size_toTree.trans hcount, placed_of_built ?_⟩
  rw [ho, hnodes]
  exact ⟨hbuilt, trivial⟩

end SchemaAssist.Schema

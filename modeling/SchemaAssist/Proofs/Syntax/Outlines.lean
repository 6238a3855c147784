import SchemaAssist.Syntax.Outline
import SchemaAssist.Proofs.Syntax.Laminar

/-! # Trees built from outlines

The nodes of a tree that is built from an outline are the parts of the outline in preorder. Each has
its kind, its start and its children, and it ends where the outline says, unless its start or the end
of its last child is later. Earlier nodes stay as they are, except that the innermost unfinished one
gets the new outermost nodes as children.
-/
namespace SchemaAssist.Syntax

/-! ## Nodes with their children -/

/-- A node with all its children. -/
structure Info where
  kind : Kind
  start : ℕ
  stop : ℕ
  parent : Option ℕ
  children : List ℕ

def info (nodes : Array Node) (i : ℕ) : Option Info :=
  nodes[i]?.map fun nd => ⟨nd.kind, nd.start, nd.stop, nd.parent, kids nodes i⟩

/-- The node with further children. -/
def Info.adopt (n : Info) (more : List ℕ) : Info := { n with children := n.children ++ more }

theorem Info.adopt_nil (n : Info) : n.adopt [] = n := by
  rw [adopt, List.append_nil]

namespace Builder
variable {b : Builder} {pos i : ℕ}

theorem info_start (h : Sound b) (kind : Kind) (pos i : ℕ) : info (b.start kind pos).nodes i =
    if i = b.nodes.size then some ⟨kind, pos, pos, b.unclosed.head?, []⟩
    else (info b.nodes i).map
      (Info.adopt · (if b.unclosed.head? = some i then [b.nodes.size] else [])) := by
  unfold info
  rw [getElem?_start, kids_start]
  by_cases hi : i = b.nodes.size
  · subst hi
    simp [h.head?_ne_size, h.kids_size, fresh, relink, Node.alone]
  · rw [if_neg hi, if_neg hi, Option.map_map, Option.map_map]
    rfl

theorem info_finish (b : Builder) (pos i : ℕ) : info (b.finish pos).nodes i =
    b.nodes[i]?.map fun nd =>
      ⟨nd.kind, nd.start, (b.stopAt pos i nd).stop, nd.parent, kids b.nodes i⟩ := by
  unfold info
  rw [getElem?_finish, Option.map_map, kids, kids, up_finish, size_finish]
  rfl

theorem info_finish_of_ne (hi : b.unclosed.head? ≠ some i) :
    info (b.finish pos).nodes i = info b.nodes i := by
  rw [info_finish]
  simp only [stopAt, if_neg hi]
  rfl

theorem info_finish_of_head? {n : Info} (h : Linked b.nodes) (hi : b.unclosed.head? = some i)
    (hn : info b.nodes i = some n) : info (b.finish pos).nodes i = some { n with
      stop := max (max pos n.start) ((n.children.getLast?.map b.stopOf).getD 0) } := by
  obtain ⟨nd, hnd, rfl⟩ := Option.map_eq_some_iff.mp hn
  rw [info_finish, hnd, Option.map_some]
  simp only [stopAt, if_pos hi, h.last i nd hnd]

theorem stopOf_eq {n : Info} (h : info b.nodes i = some n) : b.stopOf i = n.stop := by
  obtain ⟨nd, hnd, rfl⟩ := Option.map_eq_some_iff.mp h
  rw [stopOf, hnd, Option.map_some, Option.getD_some]

end Builder

/-! ## Parts of an outline -/

namespace Outline

def kind : Outline → Kind
  | .node kind _ _ => kind

def children : Outline → List Outline
  | .node _ _ children => children

mutual

/-- The outline and all parts of it, each before its own parts. -/
def preorder : Outline → List Outline
  | .node kind span children => .node kind span children :: preorderAll children

def preorderAll : List Outline → List Outline
  | [] => []
  | o :: rest => preorder o ++ preorderAll rest

end

mutual

/-- Where the node of an outline ends. -/
def ending : Outline → ℕ
  | .node kind span children =>
    let o := Outline.node kind span children
    max (max o.stop o.start) (lastEnding 0 children)

/-- Where the node of the last outline ends, or the given position. -/
def lastEnding (pos : ℕ) : List Outline → ℕ
  | [] => pos
  | o :: rest => lastEnding (ending o) rest

end

/-- The numbers of the outermost nodes, the first node being `id`. -/
def roots (id : ℕ) : List Outline → List ℕ
  | [] => []
  | o :: rest => id :: roots (id + o.preorder.length) rest

mutual

/-- The nodes from `id` on are those of the outline. -/
def Built (f : ℕ → Option Info) (parent : Option ℕ) (id : ℕ) : Outline → Prop
  | .node kind span children =>
    let o := Outline.node kind span children
    f id = some ⟨kind, o.start, o.ending, parent, roots (id + 1) children⟩ ∧
      BuiltAll f (some id) (id + 1) children

def BuiltAll (f : ℕ → Option Info) (parent : Option ℕ) (id : ℕ) : List Outline → Prop
  | [] => True
  | o :: rest => Built f parent id o ∧ BuiltAll f parent (id + o.preorder.length) rest

end

section
variable {f g : ℕ → Option Info} {parent : Option ℕ} {id : ℕ} {o m : Outline} {os : List Outline}

theorem preorder_eq (o : Outline) : o.preorder = o :: preorderAll o.children := by
  cases o
  rfl

theorem ending_eq (o : Outline) : o.ending = max (max o.stop o.start) (lastEnding 0 o.children) := by
  cases o
  rfl

theorem built_iff : Built f parent id o ↔
    f id = some ⟨o.kind, o.start, o.ending, parent, roots (id + 1) o.children⟩ ∧
      BuiltAll f (some id) (id + 1) o.children := by
  cases o
  rfl

theorem lastEnding_eq (pos : ℕ) (os : List Outline) :
    lastEnding pos os = (os.getLast?.map ending).getD pos := by
  induction os generalizing pos with
  | nil => rfl
  | cons o rest ih =>
    rw [lastEnding, ih, List.getLast?_cons]
    cases rest.getLast? <;> rfl

mutual

theorem Built.congr : ∀ {o : Outline} {parent : Option ℕ} {id : ℕ}, Built f parent id o →
    (∀ i, id ≤ i → i < id + o.preorder.length → g i = f i) → Built g parent id o
  | .node kind span children, parent, id, h, hfg => by
    rw [Built] at h ⊢
    rw [preorder, List.length_cons] at hfg
    refine ⟨(hfg id le_rfl (by omega)).trans h.1, BuiltAll.congr h.2 fun i hi hlt => ?_⟩
    exact hfg i (by omega) (by omega)

theorem BuiltAll.congr : ∀ {os : List Outline} {parent : Option ℕ} {id : ℕ},
    BuiltAll f parent id os →
      (∀ i, id ≤ i → i < id + (preorderAll os).length → g i = f i) → BuiltAll g parent id os
  | [], _, _, _, _ => trivial
  | o :: rest, _, id, h, hfg => by
    rw [BuiltAll] at h ⊢
    rw [preorderAll, List.length_append] at hfg
    refine ⟨Built.congr h.1 fun i hi hlt => ?_, BuiltAll.congr h.2 fun i hi hlt => ?_⟩
    · exact hfg i hi (by omega)
    · exact hfg i (by omega) (by omega)

end

/-! ## Positions of the parts -/

mutual

theorem Built.getElem? : ∀ {o : Outline} {parent : Option ℕ} {id k : ℕ} {m : Outline},
    Built f parent id o → o.preorder[k]? = some m → ∃ parent', Built f parent' (id + k) m
  | .node kind span children, parent, id, k, m, h, hm => by
    cases k with
    | zero =>
      obtain rfl := Option.some.inj hm
      exact ⟨parent, h⟩
    | succ k =>
      rw [Built] at h
      have := BuiltAll.getElem? h.2 hm
      rwa [Nat.add_assoc, Nat.add_comm 1 k] at this

theorem BuiltAll.getElem? : ∀ {os : List Outline} {parent : Option ℕ} {id k : ℕ} {m : Outline},
    BuiltAll f parent id os → (preorderAll os)[k]? = some m → ∃ parent', Built f parent' (id + k) m
  | [], _, _, _, _, _, hm => by simp [preorderAll] at hm
  | o :: rest, _, id, k, m, h, hm => by
    rw [BuiltAll] at h
    rw [preorderAll, List.getElem?_append] at hm
    split_ifs at hm with hk
    · exact Built.getElem? h.1 hm
    · have := BuiltAll.getElem? h.2 hm
      rwa [Nat.add_assoc, Nat.add_sub_cancel' (Nat.le_of_not_lt hk)] at this

end

mutual

theorem prefix_drop_of_getElem? : ∀ {o : Outline} {k : ℕ} {m : Outline},
    o.preorder[k]? = some m → m.preorder <+: o.preorder.drop k
  | .node kind span children, k, m, hm => by
    cases k with
    | zero =>
      obtain rfl := Option.some.inj hm
      exact List.prefix_rfl
    | succ k => exact prefix_drop_of_getElem?_all hm

theorem prefix_drop_of_getElem?_all : ∀ {os : List Outline} {k : ℕ} {m : Outline},
    (preorderAll os)[k]? = some m → m.preorder <+: (preorderAll os).drop k
  | [], _, _, hm => by simp [preorderAll] at hm
  | o :: rest, k, m, hm => by
    rw [preorderAll, List.getElem?_append] at hm
    rw [preorderAll, List.drop_append]
    split_ifs at hm with hk
    · exact (prefix_drop_of_getElem? hm).trans (List.prefix_append _ _)
    · rw [List.drop_eq_nil_of_le (Nat.le_of_not_lt hk), List.nil_append]
      exact prefix_drop_of_getElem?_all hm

end

/-- Outlines whose parts stand in a list have their own positions there. -/
theorem forall₂_roots {l : List Outline} (h : preorderAll os <+: l.drop id) :
    List.Forall₂ (fun c o => l[c]? = some o) (roots id os) os := by
  induction os generalizing id with
  | nil => exact .nil
  | cons o rest ih =>
    obtain ⟨after, hl⟩ := h
    rw [preorderAll, List.append_assoc] at hl
    refine .cons ?_ (ih ⟨after, ?_⟩)
    · rw [← Nat.add_zero id, ← List.getElem?_drop, ← hl, preorder_eq]
      rfl
    · rw [← List.drop_drop, ← hl, List.drop_left]

/-! ## Outlines that fit -/

/-- An outline that ends no earlier than it starts and than its parts end. -/
def Fits (o : Outline) : Prop := o.start ≤ o.stop ∧ ∀ c ∈ o.children, c.stop ≤ o.stop

instance (o : Outline) : Decidable o.Fits := inferInstanceAs (Decidable (_ ∧ ∀ c ∈ o.children, _))

mutual

theorem ending_eq_stop : ∀ {o : Outline}, (∀ m ∈ o.preorder, Fits m) → o.ending = o.stop
  | .node kind span children, h => by
    rw [preorder, List.forall_mem_cons] at h
    obtain ⟨⟨hstart, hchildren⟩, hparts⟩ := h
    rw [ending_eq, lastEnding_eq, max_eq_left hstart]
    refine max_eq_left ?_
    cases hlast : children.getLast? with
    | none => simp [Outline.children, hlast]
    | some c =>
      have hc := List.mem_of_getLast? hlast
      simp only [Outline.children, hlast, Option.map_some, Option.getD_some]
      rw [ending_eq_stop_all hparts c hc]
      exact hchildren c hc

theorem ending_eq_stop_all : ∀ {os : List Outline}, (∀ m ∈ preorderAll os, Fits m) →
    ∀ c ∈ os, c.ending = c.stop
  | [], _, c, hc => absurd hc List.not_mem_nil
  | o :: rest, h, c, hc => by
    rw [preorderAll, List.forall_mem_append] at h
    rcases List.mem_cons.mp hc with heq | hc
    · rw [heq]
      exact ending_eq_stop h.1
    · exact ending_eq_stop_all h.2 c hc

end

end
end Outline

/-! ## Reporting outlines -/

namespace Builder
open Outline

variable {b b' : Builder} {parent : Option ℕ}

theorem stopOf_roots {os : List Outline} {id : ℕ} (h : BuiltAll (info b.nodes) parent id os)
    (pos : ℕ) : ((roots id os).getLast?.map b.stopOf).getD pos = lastEnding pos os := by
  induction os generalizing id pos with
  | nil => rfl
  | cons o rest ih =>
    rw [BuiltAll, built_iff] at h
    have hstop : b.stopOf id = o.ending := stopOf_eq h.1.1
    rw [roots, lastEnding, ← hstop, ← ih h.2, List.getLast?_cons]
    cases (roots (id + o.preorder.length) rest).getLast? <;> rfl

/-- What reporting some outlines does to a builder. -/
structure Reported (b b' : Builder) (os : List Outline) : Prop where
  sound : Sound b'
  unclosed : b'.unclosed = b.unclosed
  size : b'.nodes.size = b.nodes.size + (preorderAll os).length
  frame : ∀ i < b.nodes.size, info b'.nodes i = (info b.nodes i).map
    (Info.adopt · (if b.unclosed.head? = some i then roots b.nodes.size os else []))
  built : BuiltAll (info b'.nodes) b.unclosed.head? b.nodes.size os

namespace Reported
variable {os : List Outline} {o : Outline}

theorem nil (h : Sound b) : Reported b b [] where
  sound := h
  unclosed := rfl
  size := rfl
  frame := by
    intro i _
    simp [roots, Info.adopt_nil]
  built := trivial

theorem cons {b'' : Builder} (h : Sound b) (ho : Reported b b' [o]) (hos : Reported b' b'' os) :
    Reported b b'' (o :: os) where
  sound := hos.sound
  unclosed := hos.unclosed.trans ho.unclosed
  size := by
    rw [hos.size, ho.size]
    simp [preorderAll, Nat.add_assoc]
  frame := by
    intro i hi
    have hi' : i < b'.nodes.size := by
      rw [ho.size]
      omega
    rw [hos.frame i hi', ho.frame i hi, ho.unclosed, ho.size, Option.map_map]
    by_cases hhead : b.unclosed.head? = some i
    · simp [hhead, Info.adopt, Function.comp_def, roots, preorderAll]
    · simp [hhead, Info.adopt_nil, Function.comp_def]
  built := by
    have hfirst := ho.built.1
    have hrest := hos.built
    rw [ho.unclosed, ho.size] at hrest
    refine ⟨hfirst.congr fun i hi hlt => ?_, by simpa [preorderAll] using hrest⟩
    -- unfinished nodes are older than the nodes of the first outline
    have hhead : b.unclosed.head? ≠ some i := by
      intro hp
      have := (h.unclosed_eq hp).2
      omega
    have hi' : i < b'.nodes.size := by
      rw [ho.size, preorderAll, preorderAll, List.append_nil]
      omega
    rw [hos.frame i hi', ho.unclosed, if_neg hhead]
    simp [Info.adopt_nil]

theorem close (h : Sound b) (hchildren : Reported (b.start o.kind o.start) b' o.children) :
    Reported b (b'.finish o.stop) [o] := by
  have hunclosed : b'.unclosed = b.nodes.size :: b.unclosed := hchildren.unclosed
  have hsize : b'.nodes.size = b.nodes.size + 1 + (preorderAll o.children).length := by
    rw [hchildren.size, size_start]
  have hbuilt := hchildren.built
  rw [size_start, unclosed_start, List.head?_cons] at hbuilt
  have hself : info b'.nodes b.nodes.size = some
      ⟨o.kind, o.start, o.start, b.unclosed.head?, roots (b.nodes.size + 1) o.children⟩ := by
    rw [hchildren.frame _ (by rw [size_start]; omega), info_start h, if_pos rfl, unclosed_start,
      size_start]
    simp [Info.adopt]
  have hother : ∀ i, i ≠ b.nodes.size → info (b'.finish o.stop).nodes i = info b'.nodes i := by
    intro i hi
    refine info_finish_of_ne fun hhead => hi ?_
    rw [hunclosed, List.head?_cons] at hhead
    exact (Option.some.inj hhead).symm
  refine ⟨hchildren.sound.finish _, ?_, ?_, ?_, ?_⟩
  · rw [unclosed_finish, hunclosed, List.tail_cons]
  · rw [size_finish, hsize, preorderAll, preorderAll, List.append_nil, preorder_eq, List.length_cons]
    omega
  · intro i hi
    rw [hother i hi.ne, hchildren.frame i (by rw [size_start]; omega), info_start h, if_neg hi.ne,
      unclosed_start]
    have hne : ¬b.nodes.size = i := hi.ne'
    simp [hne, roots, Info.adopt_nil, Function.comp_def]
  · refine ⟨built_iff.mpr ⟨?_, hbuilt.congr fun i hi _ => hother i (by omega)⟩, trivial⟩
    have hlast := stopOf_roots hbuilt 0
    rw [info_finish_of_head? hchildren.sound.linked (by rw [hunclosed, List.head?_cons]) hself,
      ending_eq]
    simp only [hlast]

end Reported

mutual

theorem reported : ∀ (o : Outline) {b : Builder}, Sound b → Reported b (Outline.emit b o) [o]
  | .node kind span children, _, h =>
    let o := Outline.node kind span children
    Reported.close (o := o) h (reportedAll children (h.start o.kind o.start))

theorem reportedAll : ∀ (os : List Outline) {b : Builder}, Sound b →
    Reported b (Outline.emitAll b os) os
  | [], _, h => .nil h
  | o :: rest, _, h =>
    have ho := reported o h
    ho.cons h (reportedAll rest ho.sound)

end

theorem nodes_toTree (hsize : 0 < b.nodes.size) (hdone : b.unclosed = []) :
    b.toTree.nodes = b.nodes := by
  have hall : b.finishAll = b := by
    rw [finishAll, hdone, List.foldl_nil]
  rw [toTree, hall]
  simp only [hsize, dif_pos]

end Builder

namespace Outline

/-- The nodes of the tree of an outline are those reported for it, which are all finished. -/
theorem exists_done (o : Outline) : ∃ done : Builder, Linked done.nodes ∧
    o.toTree.nodes = done.nodes ∧ done.nodes.size = o.preorder.length ∧
    Built (info done.nodes) none 0 o := by
  have h := Builder.reported o Builder.sound_new
  have hsize : (o.emit .new).nodes.size = o.preorder.length := by
    simpa [Builder.new, preorderAll] using h.size
  have hpos : 0 < (o.emit .new).nodes.size := by
    rw [hsize, preorder_eq]
    exact Nat.succ_pos _
  exact ⟨o.emit .new, h.sound.linked, Builder.nodes_toTree hpos h.unclosed, hsize, h.built.1⟩

theorem size_toTree (o : Outline) : o.toTree.size = o.preorder.length := by
  obtain ⟨done, -, hnodes, hsize, -⟩ := o.exists_done
  rw [Tree.size, hnodes, hsize]

theorem node_toTree {o m : Outline} {i : ℕ} (hm : o.preorder[i]? = some m) :
    o.toTree.kind i = m.kind ∧ o.toTree.start i = m.start ∧ o.toTree.stop i = m.ending ∧
      o.toTree.children i = roots (i + 1) m.children ∧
      ((o.toTree.children i).getLast?.map o.toTree.stop).getD 0 = lastEnding 0 m.children := by
  obtain ⟨done, hlinked, hnodes, hsize, hbuilt⟩ := o.exists_done
  have hi : i < o.toTree.size := o.size_toTree ▸ (List.getElem?_eq_some_iff.mp hm).1
  obtain ⟨parent, hpart⟩ := hbuilt.getElem? hm
  rw [Nat.zero_add] at hpart
  obtain ⟨hinfo, hrest⟩ := built_iff.mp hpart
  rw [← hnodes, info, Tree.getElem?_nodes hi, Option.map_some] at hinfo
  rw [← hnodes] at hlinked
  have hchildren := hlinked.children_eq hi
  injection Option.some.inj hinfo with hkind hstart hstop _ hkids
  refine ⟨hkind, hstart, hstop, hchildren.trans hkids, ?_⟩
  rw [← Builder.stopOf_roots hrest 0, ← hkids, ← hchildren]
  congr 1
  refine Option.map_congr fun c hc => ?_
  have hmem := List.mem_of_getLast? hc
  exact Builder.stop_eq_stopOf hnodes (hlinked.lt_size_of_mem_children hi hmem)

/-- The tree built has a node for each part of the outline, in preorder, with the kind, the start and
the children of that part. The node ends where the outline says, or later with its start or its last
child; if all parts fit, then where the outline says. -/
theorem toTree_preserves (o : Outline) :
    let t := o.toTree
    t.size = o.preorder.length ∧
      (∀ i m, o.preorder[i]? = some m →
        t.kind i = m.kind ∧ t.start i = m.start ∧
        t.stop i = max (max m.stop m.start) (((t.children i).getLast?.map t.stop).getD 0) ∧
        t.children i = roots (i + 1) m.children ∧
        List.Forall₂ (fun c m' => o.preorder[c]? = some m') (t.children i) m.children) ∧
      ((∀ m ∈ o.preorder, m.Fits) →
        ∀ i m, o.preorder[i]? = some m → t.start i = m.start ∧ t.stop i = m.stop) := by
  refine ⟨o.size_toTree, fun i m hm => ?_, fun hfits i m hm => ?_⟩
  · obtain ⟨hkind, hstart, hstop, hchildren, hlast⟩ := node_toTree hm
    refine ⟨hkind, hstart, by rw [hstop, ending_eq, hlast], hchildren, ?_⟩
    rw [hchildren]
    refine forall₂_roots ?_
    obtain ⟨after, hdrop⟩ := prefix_drop_of_getElem? hm
    rw [preorder_eq, List.cons_append] at hdrop
    refine ⟨after, ?_⟩
    rw [← List.drop_drop, ← hdrop, List.drop_one, List.tail_cons]
  · obtain ⟨-, hstart, hstop, -⟩ := node_toTree hm
    refine ⟨hstart, hstop.trans (ending_eq_stop fun m' hm' => hfits m' ?_)⟩
    have hdrop := (prefix_drop_of_getElem? hm).subset hm'
    exact List.mem_of_mem_drop hdrop

/-- Spans left out and an empty error. All parts fit, so the spans are those of the outline. -/
theorem toTree_preserves_column :
    let name : Outline := .node .columnName (some (9, 11)) []
    let column : Outline := .node .column none [name, .node .error (some (12, 12)) []]
    let o : Outline := .node .tableBlock none [.node .table (some (2, 7)) [], column]
    (∀ m ∈ o.preorder, m.Fits) ∧ o.preorder[2]? = some column ∧ o.toTree.start 2 = 9 ∧
      o.toTree.stop 2 = 12 ∧ o.toTree.children 2 = [3, 4] := by
  intro name column o
  have hfits : ∀ m ∈ o.preorder, m.Fits := by decide
  have hcolumn : o.preorder[2]? = some column := rfl
  obtain ⟨-, hnode, hspan⟩ := toTree_preserves o
  obtain ⟨hstart, hstop⟩ := hspan hfits 2 column hcolumn
  obtain ⟨-, -, -, hchildren, -⟩ := hnode 2 column hcolumn
  exact ⟨hfits, hcolumn, hstart, hstop, hchildren⟩

/-- The root ends with its last child and the last child where it starts. The first child ends
later than both. -/
example :
    let o : Outline := .node .sourceFile (some (4, 2))
      [.node .string (some (5, 9)) [], .node .error (some (7, 3)) []]
    o.toTree.summary = "[SourceFile@4..7, String@5..9, ⚠@7..7]" := by
  decide +kernel

end Outline
end SchemaAssist.Syntax

import Mathlib.Data.List.Forall2
import SchemaAssist.Proofs.Schema.Rendered

/-! # Reading written tables back

A reader that goes by the kinds of children and the texts of nodes finds in written tables the
tables they were written from. It sees no empty slot of an index, and of a type its words.
-/
namespace SchemaAssist.Schema
open Syntax Layout Text

/-- What a reader can tell of an index: the columns with a name, and the words of its type. -/
structure Index.Summary where
  columns : List String
  type : Option (List String)
  deriving Repr, DecidableEq

structure Table.Summary where
  name : String
  columns : List (String × String)
  indexes : List Index.Summary
  deriving Repr, DecidableEq

def Index.summary (ix : Index) : Index.Summary where
  columns := ix.columns.filter fun name => !name.isEmpty
  type := ix.type.map words

def Table.summary (t : Table) : Table.Summary where
  name := t.name
  columns := t.columns
  indexes := t.indexes.map Index.summary

namespace Document
variable (d : Document)

/-- The texts of all children of a kind. -/
def texts (i : ℕ) (kind : Kind) : List String :=
  (d.tree.childrenOf i kind).map (d.tree.text d.source)

/-- The text of the first child of a kind. -/
def childText? (i : ℕ) (kind : Kind) : Option String :=
  (d.tree.child? i kind).map (d.tree.text d.source)

def column? (i : ℕ) : Option (String × String) := do
  let name ← d.childText? i .columnName
  let type ← d.childText? i .dataType
  return (name, type)

def index? (i : ℕ) : Option Index.Summary := do
  let block ← d.tree.child? i .indexColumnBlock
  return {
    columns := d.texts block .indexColumnName
    type := (d.tree.child? i .indexType).map fun marker => d.texts marker .keyword
  }

def table? (i : ℕ) : Option Table.Summary := do
  let name ← d.childText? i .tableName
  let columns ← (d.tree.childrenOf i .column).mapM d.column?
  let blocks := d.tree.childrenOf i .indexBlock
  let indexes ← (blocks.flatMap fun block => d.tree.childrenOf block .index).mapM d.index?
  return ⟨name, columns, indexes⟩

/-- The tables of a document, if each of them has all its parts. -/
def tables? : Option (List Table.Summary) := (d.tree.childrenOf 0 .tableBlock).mapM d.table?

/-- The numbers of the indexes, table by table. -/
def indexNodes : List ℕ :=
  (d.tree.childrenOf 0 .tableBlock).flatMap fun table =>
    (d.tree.childrenOf table .indexBlock).flatMap fun block => d.tree.childrenOf block .index

/-- The node is that of a layout whose text stands in the source at the node. -/
def Shows (x : ℕ) (l : Layout) : Prop :=
  ∃ before after parent kind, l.kind? = some kind ∧
    d.source.toList = before ++ l.text.toList ++ after ∧
    Placed (info d.tree.nodes) parent (byteLength before) x l

end Document

/-- The nodes of a kind among the parts of a layout. -/
def Layout.ofKind (kind : Kind) (parts : List Layout) : List Layout :=
  parts.filter fun p => p.kind? = some kind

section
variable {d : Document} {x : ℕ} {l : Layout}

theorem shows_roots {ls : List Layout} {parent : Option ℕ} {before after : List Char} {id : ℕ}
    (htext : d.source.toList = before ++ (textAll ls).toList ++ after)
    (h : PlacedAll (info d.tree.nodes) parent (byteLength before) id ls) :
    List.Forall₂ d.Shows (roots id ls) (ls.filter (·.kind?.isSome)) := by
  induction ls generalizing before id with
  | nil => exact .nil
  | cons p rest ih =>
    have hfirst :
        d.source.toList = before ++ p.text.toList ++ ((textAll rest).toList ++ after) := by
      simpa [textAll] using htext
    have hnext : d.source.toList = (before ++ p.text.toList) ++ (textAll rest).toList ++ after := by
      simpa [textAll] using htext
    obtain ⟨hp, hrest⟩ := h
    rw [size, ← byteLength_append] at hrest
    have hshown := ih hnext hrest
    cases hkind : p.kind? with
    | none => simpa [roots, hkind] using hshown
    | some kind =>
      have hshows : d.Shows id p := ⟨before, _, parent, kind, hkind, hfirst, hp⟩
      simpa [roots, hkind] using And.intro hshows hshown

namespace Document.Shows

theorem kind_eq (h : d.Shows x l) (hlinked : Linked d.tree.nodes) :
    l.kind? = some (d.tree.kind x) := by
  obtain ⟨before, after, parent, kind, hkind, -, hplaced⟩ := h
  have heq := eq_of_info hlinked ((placed_iff hkind).mp hplaced).1
  injection heq with hk
  rw [hkind, hk]

theorem lt_size (h : d.Shows x l) : x < d.tree.size := by
  obtain ⟨before, after, parent, kind, hkind, -, hplaced⟩ := h
  exact lt_size_of_info ((placed_iff hkind).mp hplaced).1

theorem text_eq (h : d.Shows x l) (hlinked : Linked d.tree.nodes) :
    d.tree.text d.source x = l.text := by
  obtain ⟨before, after, parent, kind, hkind, htext, hplaced⟩ := h
  have heq := eq_of_info hlinked ((placed_iff hkind).mp hplaced).1
  injection heq with _ hstart hstop
  rw [Tree.text, ← hstart, ← hstop, size, slice?_eq htext, Option.getD_some, String.ofList_toList]

theorem children (h : d.Shows x l) (hlinked : Linked d.tree.nodes) :
    List.Forall₂ d.Shows (d.tree.children x) (l.parts.filter (·.kind?.isSome)) := by
  obtain ⟨before, after, parent, kind, hkind, htext, hplaced⟩ := h
  obtain ⟨hinfo, hparts⟩ := (placed_iff hkind).mp hplaced
  have heq := eq_of_info hlinked hinfo
  injection heq with _ _ _ _ hchildren
  rw [← hchildren]
  cases l with
  | node _ _ => exact shows_roots htext hparts
  | _ => exact .nil

theorem childrenOf (h : d.Shows x l) (hlinked : Linked d.tree.nodes) (kind : Kind) :
    List.Forall₂ d.Shows (d.tree.childrenOf x kind) (ofKind kind l.parts) := by
  have hparts : ofKind kind l.parts =
      (l.parts.filter (·.kind?.isSome)).filter fun p => p.kind? = some kind := by
    rw [List.filter_filter]
    refine List.filter_congr fun p _ => ?_
    cases p.kind? <;> simp
  rw [hparts]
  refine List.rel_filter (fun c p hcp => ?_) (h.children hlinked)
  simp [hcp.kind_eq hlinked]

theorem child? (h : d.Shows x l) (hlinked : Linked d.tree.nodes) {kind : Kind} {p : Layout}
    (hp : ofKind kind l.parts = [p]) : ∃ c, d.tree.child? x kind = some c ∧ d.Shows c p := by
  have hchildren := h.childrenOf hlinked kind
  rw [hp] at hchildren
  obtain ⟨c, rest, hc, hrest, heq⟩ := List.forall₂_cons_right_iff.mp hchildren
  refine ⟨c, ?_, hc⟩
  rw [Tree.child?, ← List.head?_filter, ← Tree.childrenOf, heq, List.head?_cons]

theorem child?_eq_none (h : d.Shows x l) (hlinked : Linked d.tree.nodes) {kind : Kind}
    (hnone : ofKind kind l.parts = []) : d.tree.child? x kind = none := by
  have hchildren := h.childrenOf hlinked kind
  rw [hnone, List.forall₂_nil_right_iff] at hchildren
  rw [Tree.child?, ← List.head?_filter, ← Tree.childrenOf, hchildren, List.head?_nil]

end Document.Shows

/-! ## Parts of written tables -/

@[simp] theorem ofKind_nil (kind : Kind) : ofKind kind [] = [] := rfl

@[simp] theorem ofKind_append (kind : Kind) (a b : List Layout) :
    ofKind kind (a ++ b) = ofKind kind a ++ ofKind kind b := List.filter_append _ _

@[simp] theorem ofKind_flatMap {α : Type} (kind : Kind) (g : α → List Layout) (xs : List α) :
    ofKind kind (xs.flatMap g) = xs.flatMap fun a => ofKind kind (g a) := List.filter_flatMap

@[simp] theorem ofKind_gap (kind : Kind) (text : String) (ls : List Layout) :
    ofKind kind (.gap text :: ls) = ofKind kind ls := rfl

@[simp] theorem ofKind_leaf (kind k : Kind) (text : String) (ls : List Layout) :
    ofKind kind (.leaf k text :: ls) =
      if k = kind then .leaf k text :: ofKind kind ls else ofKind kind ls := by
  simp [ofKind, List.filter_cons, kind?]

@[simp] theorem ofKind_node (kind k : Kind) (parts ls : List Layout) :
    ofKind kind (.node k parts :: ls) =
      if k = kind then .node k parts :: ofKind kind ls else ofKind kind ls := by
  simp [ofKind, List.filter_cons, kind?]

theorem ofKind_tables (tables : List Table) :
    ofKind .tableBlock (tables.flatMap fun t => [t.layout, .gap "\n"]) =
      tables.map Table.layout := by
  simp [List.map_eq_flatMap, Table.layout]

theorem ofKind_columnLines (kind : Kind) (columns : List (String × String)) :
    ofKind kind (Table.columnLines columns) =
      if kind = .column then columns.map Table.column else [] := by
  split_ifs with h
  · simp [h, List.map_eq_flatMap, Table.columnLines, Table.column]
  · simp [Ne.symm h, Table.columnLines, Table.column]

theorem ofKind_block {kind : Kind} (h : kind ≠ .indexBlock) (indexes : List Index) :
    ofKind kind (Index.block indexes) = [] := by
  unfold Index.block
  split_ifs
  · rfl
  · simp [h.symm]

theorem ofKind_lines (indexes : List Index) :
    ofKind .index (Index.lines indexes) = indexes.map Index.layout := by
  simp [List.map_eq_flatMap, Index.lines, Index.layout]

theorem ofKind_tableName (t : Table) : ofKind .tableName t.layout.parts =
    [.node .tableName [.leaf .identifier t.name]] := by
  simp [Table.layout, Layout.parts, ofKind_columnLines, ofKind_block]

theorem ofKind_column (t : Table) :
    ofKind .column t.layout.parts = t.columns.map Table.column := by
  simp [Table.layout, Layout.parts, ofKind_columnLines, ofKind_block]

theorem ofKind_indexes (t : Table) :
    ((ofKind .indexBlock t.layout.parts).flatMap fun p => ofKind .index p.parts) =
      t.indexes.map Index.layout := by
  have hblock : ((ofKind .indexBlock (Index.block t.indexes)).flatMap fun p =>
      ofKind .index p.parts) = t.indexes.map Index.layout := by
    unfold Index.block
    split_ifs with h
    · simp [List.isEmpty_iff.mp h]
    · simp [Layout.parts, ofKind_lines]
  simpa [Table.layout, Layout.parts, ofKind_columnLines] using hblock

theorem ofKind_columnBlock (ix : Index) : ofKind .indexColumnBlock ix.layout.parts =
    [.node .indexColumnBlock
      (.leaf .parenOpen "(" :: Index.slots ix.columns ++ [.leaf .parenClose ")"])] := by
  rw [Index.layout, Layout.parts, ofKind_node]
  cases ix.type <;> rfl

theorem ofKind_type (ix : Index) : ofKind .indexType ix.layout.parts =
    ix.type.toList.map fun type => .node .indexType (Index.keywords (words type)) := by
  rw [Index.layout, Layout.parts, ofKind_node]
  cases ix.type <;> rfl

theorem ofKind_slot (name : String) : ofKind .indexColumnName (Index.slot name) =
    ([name].filter fun name => !name.isEmpty).map fun name =>
      .node .indexColumnName [.leaf .identifier name] := by
  unfold Index.slot
  split_ifs with h <;> simp [h]

theorem ofKind_slots (names : List String) : ofKind .indexColumnName (Index.slots names) =
    (names.filter fun name => !name.isEmpty).map fun name =>
      .node .indexColumnName [.leaf .identifier name] := by
  cases names with
  | nil => rfl
  | cons name rest =>
    have hlater : ofKind .indexColumnName (Index.laterSlots rest) =
        (rest.filter fun name => !name.isEmpty).map fun name =>
          .node .indexColumnName [.leaf .identifier name] := by
      induction rest with
      | nil => rfl
      | cons later rest ih =>
        rw [← List.singleton_append, List.filter_append, List.map_append, ← ih, ← ofKind_slot]
        simp [Index.laterSlots]
    rw [Index.slots, ofKind_append, ofKind_slot, hlater, ← List.map_append, ← List.filter_append,
      List.singleton_append]

theorem ofKind_keywords (words : List String) :
    ofKind .keyword (Index.keywords words) = words.map fun word => .leaf .keyword word := by
  unfold Index.keywords
  cases words with
  | nil => rfl
  | cons word rest =>
    induction rest generalizing word with
    | nil => rfl
    | cons next rest ih => simpa using ih next

/-! ## The reader -/

theorem mapM_eq_some_of_forall₂ {α β γ : Type} {R : α → β → Prop} {read : α → Option γ} {g : β → γ}
    {xs : List α} {ys : List β} (h : List.Forall₂ R xs ys)
    (hread : ∀ a b, R a b → read a = some (g b)) : xs.mapM read = some (ys.map g) := by
  induction h with
  | nil => rfl
  | cons hab _ ih => simp [List.mapM_cons, hread _ _ hab, ih]

variable (hlinked : Linked d.tree.nodes)
include hlinked

theorem texts_eq (h : d.Shows x l) (kind : Kind) :
    d.texts x kind = (ofKind kind l.parts).map Layout.text := by
  have htexts : List.Forall₂ Eq (d.texts x kind) ((ofKind kind l.parts).map Layout.text) :=
    List.rel_map (fun _ _ hc => hc.text_eq hlinked) (h.childrenOf hlinked kind)
  rwa [List.forall₂_eq_eq_eq] at htexts

theorem childText?_eq {kind : Kind} {p : Layout} (h : d.Shows x l)
    (hp : ofKind kind l.parts = [p]) : d.childText? x kind = some p.text := by
  obtain ⟨c, hc, hshows⟩ := h.child? hlinked hp
  rw [Document.childText?, hc, Option.map_some, hshows.text_eq hlinked]

theorem column?_eq {c : String × String} (h : d.Shows x (Table.column c)) :
    d.column? x = some c := by
  have hname : d.childText? x .columnName = some c.1 := by
    rw [childText?_eq hlinked h rfl]
    simp [Layout.text, textAll]
  have htype : d.childText? x .dataType = some c.2 := by
    rw [childText?_eq hlinked h rfl]
    simp [Layout.text, textAll]
  simp [Document.column?, hname, htype]

theorem index?_eq {ix : Index} (h : d.Shows x ix.layout) : d.index? x = some ix.summary := by
  obtain ⟨block, hblock, hshown⟩ := h.child? hlinked (ofKind_columnBlock ix)
  have hcolumns : d.texts block .indexColumnName = ix.summary.columns := by
    rw [texts_eq hlinked hshown]
    simp [Layout.parts, ofKind_slots, Index.summary, Layout.text, textAll, Function.comp_def]
  have htype : ((d.tree.child? x .indexType).map fun marker => d.texts marker .keyword) =
      ix.summary.type := by
    have hparts := ofKind_type ix
    cases htype : ix.type with
    | none =>
      rw [htype] at hparts
      simp [h.child?_eq_none hlinked hparts, Index.summary, htype]
    | some type =>
      rw [htype] at hparts
      obtain ⟨marker, hmarker, hwords⟩ := h.child? hlinked hparts
      rw [hmarker, Option.map_some, texts_eq hlinked hwords]
      simp [Layout.parts, ofKind_keywords, Index.summary, htype, Layout.text, Function.comp_def]
  simp [Document.index?, hblock, hcolumns, htype]

theorem indexes_of_shows {t : Table} (h : d.Shows x t.layout) :
    List.Forall₂ (fun i ix => d.Shows i ix.layout)
      ((d.tree.childrenOf x .indexBlock).flatMap fun b => d.tree.childrenOf b .index) t.indexes := by
  have hindexes : List.Forall₂ d.Shows
      ((d.tree.childrenOf x .indexBlock).flatMap fun b => d.tree.childrenOf b .index)
      ((ofKind .indexBlock t.layout.parts).flatMap fun p => ofKind .index p.parts) :=
    List.rel_flatMap (h.childrenOf hlinked .indexBlock) fun _ _ hb => hb.childrenOf hlinked .index
  rwa [ofKind_indexes, List.forall₂_map_right_iff] at hindexes

theorem table?_eq {t : Table} (h : d.Shows x t.layout) : d.table? x = some t.summary := by
  have hname := childText?_eq hlinked h (ofKind_tableName t)
  have hcolumns := h.childrenOf hlinked .column
  rw [ofKind_column, List.forall₂_map_right_iff] at hcolumns
  have hindexes := indexes_of_shows hlinked h
  have hcolumns := mapM_eq_some_of_forall₂ hcolumns fun _ _ hc => column?_eq hlinked hc
  have hindexes := mapM_eq_some_of_forall₂ hindexes fun _ _ hi => index?_eq hlinked hi
  simp [Document.table?, hname, hcolumns, hindexes, Table.summary, Layout.text, textAll]

end

theorem linked_render (tables : List Table) : Linked (render tables).tree.nodes :=
  (placed_ofLayout (l := layout tables) rfl).1

theorem tables_of_render (tables : List Table) :
    List.Forall₂ (fun x t => (render tables).Shows x t.layout)
      ((render tables).tree.childrenOf 0 .tableBlock) tables := by
  obtain ⟨hlinked, -, hplaced⟩ := placed_ofLayout (l := layout tables) rfl
  have hroot : (render tables).Shows 0 (layout tables) :=
    ⟨[], [], none, .sourceFile, rfl, by simp; rfl, hplaced⟩
  have hchildren := hroot.childrenOf hlinked .tableBlock
  rwa [layout, Layout.parts, ofKind_tables, List.forall₂_map_right_iff] at hchildren

theorem indexes_of_render (tables : List Table) :
    List.Forall₂ (fun i ix => (render tables).Shows i ix.layout) (render tables).indexNodes
      (tables.flatMap (·.indexes)) :=
  List.rel_flatMap (tables_of_render tables) fun _ _ h => indexes_of_shows (linked_render tables) h

/-- Reading written tables gives back what they were written from. -/
theorem tables?_render (tables : List Table) :
    (render tables).tables? = some (tables.map Table.summary) :=
  mapM_eq_some_of_forall₂ (tables_of_render tables) fun _ _ h => table?_eq (linked_render tables) h

end SchemaAssist.Schema

import SchemaAssist.Proofs.Schema.Emission
import SchemaAssist.Proofs.Syntax.Resolve

/-! # Trees of written tables

In the tree of written tables the kinds follow the grammar and the spans are nested. An index has
its columns and then perhaps its type, and a line end comes after it.
-/
namespace SchemaAssist.Schema
open Syntax Layout Text

/-- The kinds of the children in written tables. -/
def holds : Kind → List Kind
  | .sourceFile => [.tableBlock]
  | .tableBlock => [.table, .tableName, .braceOpen, .column, .indexBlock, .braceClose]
  | .tableName | .columnName | .indexColumnName => [.identifier]
  | .column => [.columnName, .dataType]
  | .dataType => [.type]
  | .indexBlock => [.indexes, .braceOpen, .index, .braceClose]
  | .index => [.indexColumnBlock, .indexType]
  | .indexColumnBlock => [.parenOpen, .punctuation, .indexColumnName, .parenClose]
  | .indexType => [.keyword]
  | _ => []

/-- What each part of written tables keeps to, given the text after it. -/
structure Regular (l : Layout) (after : List Char) : Prop where
  kinds : ∀ kind, l.kind? = some kind → ∀ p ∈ l.parts, ∀ k, p.kind? = some k → k ∈ holds kind
  index : l.kind? = some .index → ∃ ix : Index, l = ix.layout ∧ ∃ rest, after = '\n' :: rest

/-- Parts that are regular whatever follows them and of kinds that a node of the kind has. -/
structure Fits (kind : Kind) (ls : List Layout) : Prop where
  regular : ∀ after, EverywhereAll Regular after ls
  kinds : ∀ p ∈ ls, ∀ k, p.kind? = some k → k ∈ holds kind

namespace Fits
variable {kind k : Kind} {ls parts : List Layout}

theorem nil : Fits kind [] where
  regular := fun _ => trivial
  kinds := by
    intro p hp
    exact absurd hp List.not_mem_nil

theorem append {ls' : List Layout} (h : Fits kind ls) (h' : Fits kind ls') :
    Fits kind (ls ++ ls') where
  regular := by
    intro after
    rw [everywhereAll_append]
    exact ⟨h.regular _, h'.regular after⟩
  kinds := by
    intro p hp
    rcases List.mem_append.mp hp with hp | hp
    · exact h.kinds p hp
    · exact h'.kinds p hp

theorem gap (text : String) (h : Fits kind ls) : Fits kind (.gap text :: ls) where
  regular := fun after => ⟨trivial, h.regular after⟩
  kinds := by
    intro p hp k hk
    rcases List.mem_cons.mp hp with rfl | hp
    · cases hk
    · exact h.kinds p hp k hk

theorem leaf (hk : k ∈ holds kind) (hne : k ≠ .index) (text : String) (h : Fits kind ls) :
    Fits kind (.leaf k text :: ls) where
  regular := by
    intro after
    refine ⟨⟨?_, fun hindex => absurd (Option.some.inj hindex) hne⟩, h.regular after⟩
    intro _ _ p hp
    exact absurd hp List.not_mem_nil
  kinds := by
    intro p hp k' hk'
    rcases List.mem_cons.mp hp with rfl | hp
    · exact Option.some.inj hk' ▸ hk
    · exact h.kinds p hp k' hk'

theorem node (hk : k ∈ holds kind) (hne : k ≠ .index) (hparts : Fits k parts) (h : Fits kind ls) :
    Fits kind (.node k parts :: ls) where
  regular := by
    intro after
    refine ⟨⟨⟨?_, fun hindex => absurd (Option.some.inj hindex) hne⟩, hparts.regular _⟩,
      h.regular after⟩
    intro _ hkind
    obtain rfl := Option.some.inj hkind
    exact hparts.kinds
  kinds := by
    intro p hp k' hk'
    rcases List.mem_cons.mp hp with rfl | hp
    · exact Option.some.inj hk' ▸ hk
    · exact h.kinds p hp k' hk'

theorem flatMap {α : Type} {g : α → List Layout} (h : ∀ a, Fits kind (g a)) (xs : List α) :
    Fits kind (xs.flatMap g) := by
  induction xs with
  | nil => exact nil
  | cons a rest ih =>
    rw [List.flatMap_cons]
    exact (h a).append ih

end Fits

/-! ## Parts of written tables -/

theorem fits_slot (name : String) : Fits .indexColumnBlock (Index.slot name) := by
  unfold Index.slot
  split_ifs
  · exact .nil
  · exact .node (by decide) (by decide) (.leaf (by decide) (by decide) name .nil) .nil

theorem fits_slots (names : List String) : Fits .indexColumnBlock (Index.slots names) := by
  cases names with
  | nil => exact .nil
  | cons name rest =>
    refine (fits_slot name).append (.flatMap (fun later => ?_) rest)
    exact .leaf (by decide) (by decide) "," (.gap " " (fits_slot later))

theorem fits_keywords (words : List String) : Fits .indexType (Index.keywords words) := by
  unfold Index.keywords
  cases words with
  | nil => exact .nil
  | cons word rest =>
    induction rest generalizing word with
    | nil => exact .leaf (by decide) (by decide) word .nil
    | cons next rest ih => exact .leaf (by decide) (by decide) word (.gap " " (ih next))

theorem fits_index (ix : Index) : Fits .index ix.layout.parts := by
  have hcolumns : Fits .indexColumnBlock
      (.leaf .parenOpen "(" :: Index.slots ix.columns ++ [.leaf .parenClose ")"]) :=
    (Fits.leaf (by decide) (by decide) "(" (fits_slots ix.columns)).append
      (.leaf (by decide) (by decide) ")" .nil)
  unfold Index.layout
  cases ix.type with
  | none => exact .node (by decide) (by decide) hcolumns .nil
  | some type =>
    refine .node (by decide) (by decide) hcolumns (.gap " " ?_)
    exact .node (by decide) (by decide) (fits_keywords _) .nil

theorem fits_lines (indexes : List Index) : Fits .indexBlock (Index.lines indexes) := by
  refine .flatMap (fun ix => ⟨fun after => ?_, ?_⟩) indexes
  · refine ⟨trivial, ⟨?_, (fits_index ix).regular _⟩, trivial, trivial⟩
    refine ⟨?_, fun _ => ⟨ix, rfl, after, rfl⟩⟩
    intro _ hkind
    obtain rfl := Option.some.inj hkind
    exact (fits_index ix).kinds
  · simp [kind?, Index.layout, holds]

theorem fits_block (indexes : List Index) : Fits .tableBlock (Index.block indexes) := by
  unfold Index.block
  split_ifs
  · exact .nil
  · refine .gap "  " (.node (by decide) (by decide) ?_ (.gap "\n" .nil))
    refine Fits.append (.append ?_ (fits_lines indexes)) ?_
    · exact .leaf (by decide) (by decide) _ (.gap " " (.leaf (by decide) (by decide) _
        (.gap "\n" .nil)))
    · exact .gap "  " (.leaf (by decide) (by decide) _ .nil)

theorem fits_columnLines (columns : List (String × String)) :
    Fits .tableBlock (Table.columnLines columns) := by
  refine .flatMap (fun c => .gap "  " (.node (by decide) (by decide) ?_ (.gap "\n" .nil))) columns
  refine .node (by decide) (by decide) (.leaf (by decide) (by decide) c.1 .nil) (.gap " " ?_)
  exact .node (by decide) (by decide) (.leaf (by decide) (by decide) c.2 .nil) .nil

theorem fits_tables (tables : List Table) :
    Fits .sourceFile (tables.flatMap fun t => [t.layout, .gap "\n"]) := by
  refine .flatMap (fun t => .node (by decide) (by decide) ?_ (.gap "\n" .nil)) tables
  refine Fits.append (.append (.append ?_ (fits_columnLines t.columns)) (fits_block t.indexes)) ?_
  · refine .leaf (by decide) (by decide) "Table" (.gap " " (.node (by decide) (by decide) ?_ ?_))
    · exact .leaf (by decide) (by decide) t.name .nil
    · exact .gap " " (.leaf (by decide) (by decide) _ (.gap "\n" .nil))
  · exact .leaf (by decide) (by decide) _ .nil

/-! ## The tree -/

/-- The children of an index: its columns, and after a gap its type if it has one. -/
def IndexShape (t : Tree) (i : ℕ) : Prop :=
  ∃ b, t.kind b = .indexColumnBlock ∧ t.start b = t.start i ∧ t.start b < t.stop b ∧
    ((t.children i = [b] ∧ t.stop b = t.stop i) ∨
      ∃ m, t.children i = [b, m] ∧ t.kind m = .indexType ∧ t.stop b < t.start m ∧
        t.start m ≤ t.stop m ∧ t.stop m = t.stop i)

/-- What is known of a text and its tree when both come from written tables. -/
structure Written (source : String) (t : Tree) : Prop where
  nested : t.Nested
  root : t.kind 0 = .sourceFile
  kinds : ∀ i p, t.parent i = some p → t.kind i ∈ holds (t.kind p)
  /-- Every node spans a run of whole characters. -/
  spans : ∀ i < t.size, ∃ piece, slice? source (t.start i) (t.stop i) = some piece
  index : ∀ i < t.size, t.kind i = .index → IndexShape t i
  /-- A line end comes right after an index. -/
  lineEnd : ∀ i < t.size, t.kind i = .index → ∃ before after,
    source.toList = before ++ '\n' :: after ∧ byteLength before = t.stop i

section
variable {t : Tree} {i : ℕ} {n : Info}

theorem info_eq (h : Linked t.nodes) (hi : i < t.size) : info t.nodes i =
    some ⟨t.kind i, t.start i, t.stop i, t.parent i, t.children i⟩ := by
  rw [info, Tree.getElem?_nodes hi, h.children_eq hi]
  rfl

theorem lt_size_of_info (hn : info t.nodes i = some n) : i < t.size := by
  obtain ⟨nd, hnd, -⟩ := Option.map_eq_some_iff.mp hn
  exact (Array.getElem?_eq_some_iff.mp hnd).1

theorem eq_of_info (h : Linked t.nodes) (hn : info t.nodes i = some n) :
    n = ⟨t.kind i, t.start i, t.stop i, t.parent i, t.children i⟩ := by
  rw [info_eq h (lt_size_of_info hn)] at hn
  exact (Option.some.inj hn).symm

end

theorem found_render (tables : List Table) {x : ℕ} (hx : x < (render tables).tree.size) :
    Found (info (render tables).tree.nodes) Regular (render tables).source.toList x := by
  obtain ⟨-, hsize, hplaced⟩ := placed_ofLayout (l := layout tables) rfl
  have hfits := fits_tables tables
  have heverywhere : Everywhere Regular [] (layout tables) := by
    refine ⟨⟨?_, fun hindex => by cases hindex⟩, hfits.regular []⟩
    intro _ hkind
    obtain rfl := Option.some.inj hkind
    exact hfits.kinds
  have hfound : Found (info (render tables).tree.nodes) Regular
      ([] ++ (layout tables).text.toList ++ []) x := by
    refine Placed.found hplaced heverywhere (.inl rfl) (Nat.zero_le x) ?_
    rw [Nat.zero_add, ← hsize]
    exact hx
  rwa [List.nil_append, List.append_nil] at hfound

/-- The part of the written tables that a node spans. -/
structure Spans (source : String) (t : Tree) (x : ℕ) (l : Layout) (before after : List Char) :
    Prop where
  text : source.toList = before ++ l.text.toList ++ after
  kind : l.kind? = some (t.kind x)
  regular : Regular l after
  start : t.start x = byteLength before
  stop : t.stop x = byteLength before + size l.text
  children : t.children x = roots (x + 1) l.parts
  parts : PlacedAll (info t.nodes) (some x) (t.start x) (x + 1) l.parts
  parent : x = 0 ∨ (t.parent x).isSome

theorem exists_spans (tables : List Table) {x : ℕ} (hx : x < (render tables).tree.size) :
    ∃ l before after, Spans (render tables).source (render tables).tree x l before after := by
  obtain ⟨hlinked, -, -⟩ := placed_ofLayout (l := layout tables) rfl
  obtain ⟨before, l, after, parent, kind, htext, hkind, hregular, hplaced, hparent⟩ :=
    found_render tables hx
  obtain ⟨hinfo, hparts⟩ := (placed_iff hkind).mp hplaced
  have heq := eq_of_info hlinked hinfo
  injection heq with hk hstart hstop hup hchildren
  subst hk hup
  exact ⟨l, before, after, htext, hkind, hregular, hstart.symm, hstop.symm, hchildren.symm,
    hstart ▸ hparts, hparent⟩

section
variable {source : String} {t : Tree} {x c : ℕ} {l : Layout} {before after : List Char}

theorem Spans.lt_size (h : Spans source t x l before after) (hc : c ∈ t.children x) :
    c < t.size := by
  rw [h.children] at hc
  obtain ⟨-, -, nd, hnd, -⟩ := h.parts.root c hc
  exact lt_size_of_info hnd

theorem Spans.child (h : Spans source t x l before after) (hlinked : Linked t.nodes)
    (hc : c ∈ t.children x) : t.kind c ∈ holds (t.kind x) ∧ t.start x ≤ t.start c ∧
      t.start c ≤ t.stop c ∧ t.stop c ≤ t.stop x := by
  rw [h.children] at hc
  obtain ⟨p, hp, nd, hnd, hkind, -, hfirst, hle, hlast⟩ := h.parts.root c hc
  obtain rfl := eq_of_info hlinked hnd
  have := size_parts_le l
  have hstart := h.start
  have hstop := h.stop
  exact ⟨h.regular.kinds _ h.kind p hp _ hkind, hfirst, hle, by simp only at hlast; omega⟩

theorem Spans.apart (h : Spans source t x l before after) (hlinked : Linked t.nodes) {a b : ℕ}
    (ha : a ∈ t.children x) (hb : b ∈ t.children x) (hx : x < t.size) (hab : a < b) :
    t.stop a ≤ t.start b := by
  have hasc := pairwise_kids t.nodes x
  rw [← hlinked.children_eq hx] at hasc
  have hends := h.parts.pairwise
  rw [← h.children] at hends
  have haI := info_eq hlinked (h.lt_size ha)
  have hbI := info_eq hlinked (h.lt_size hb)
  exact rel_of_lt hasc hends ha hb hab _ _ haI hbI

theorem placed_node (hlinked : Linked t.nodes) {parent : Option ℕ} {pos : ℕ} {kind : Kind}
    {ls : List Layout} (h : Placed (info t.nodes) parent pos c (.node kind ls)) :
    t.kind c = kind ∧ t.start c = pos ∧ t.stop c = pos + size (textAll ls) := by
  rw [Placed] at h
  have heq := eq_of_info hlinked h.1
  injection heq with hk hstart hstop
  exact ⟨hk.symm, hstart.symm, hstop.symm⟩

theorem Spans.shape_of_columns {ls : List Layout} (hlinked : Linked t.nodes)
    (h : Spans source t x (.node .index [.node .indexColumnBlock ls]) before after)
    (hls : 0 < size (textAll ls)) : IndexShape t x := by
  obtain ⟨hb, hbstart, hbstop⟩ := placed_node hlinked h.parts.1
  have hsize : size (Layout.text (.node .index [.node .indexColumnBlock ls])) =
      size (textAll ls) := by
    simp [Layout.text, textAll]
  have hstart := h.start
  have hstop := h.stop
  refine ⟨x + 1, hb, hbstart, by omega, .inl ⟨?_, by omega⟩⟩
  simpa [roots, kind?, Layout.parts] using h.children

theorem Spans.shape_of_type {ls words : List Layout} (hlinked : Linked t.nodes)
    (h : Spans source t x
      (.node .index [.node .indexColumnBlock ls, .gap " ", .node .indexType words]) before after)
    (hls : 0 < size (textAll ls)) : IndexShape t x := by
  obtain ⟨hblock, -, hmarker, -⟩ := h.parts
  obtain ⟨hb, hbstart, hbstop⟩ := placed_node hlinked hblock
  obtain ⟨hm, hmstart, hmstop⟩ := placed_node hlinked hmarker
  have hspace : size (Layout.text (.gap " ")) = 1 := rfl
  have hsize : size (Layout.text
      (.node .index [.node .indexColumnBlock ls, .gap " ", .node .indexType words])) =
      size (textAll ls) + (1 + size (textAll words)) := by
    rw [Layout.text, textAll, textAll, textAll, size_append, size_append, size_append, hspace,
      Layout.text, Layout.text]
    rfl
  have hstart := h.start
  have hstop := h.stop
  rw [hspace] at hmstart hmstop
  rw [Layout.text] at hmstart hmstop
  refine ⟨x + 1, hb, hbstart, by omega, .inr ⟨_, ?_, hm, by omega, by omega, by omega⟩⟩
  simpa [roots, kind?, count, Layout.parts] using h.children

theorem Spans.indexShape (hlinked : Linked t.nodes) (h : Spans source t x l before after)
    (hkind : t.kind x = .index) : IndexShape t x := by
  obtain ⟨ix, rfl, -⟩ := h.regular.index (hkind ▸ h.kind)
  have hls : 0 < size (textAll (.leaf .parenOpen "(" :: Index.slots ix.columns ++
      [.leaf .parenClose ")"])) := by
    rw [List.cons_append, textAll, size_append]
    exact Nat.add_pos_left (by decide) _
  unfold Index.layout at h
  cases htype : ix.type with
  | none =>
    rw [htype] at h
    exact h.shape_of_columns hlinked hls
  | some type =>
    rw [htype] at h
    exact h.shape_of_type hlinked hls

/-- A tree whose nodes all span regular parts is that of written tables. -/
theorem written_of_spans (hlinked : Linked t.nodes) (hroot : t.kind 0 = .sourceFile)
    (hspans : ∀ x < t.size, ∃ l before after, Spans source t x l before after) :
    Written source t := by
  have hchild : ∀ {i p : ℕ}, t.parent i = some p → p < t.size ∧ i ∈ t.children p := by
    intro i p hp
    rw [hlinked.parent_eq] at hp
    have hlt := (hlinked.preorder.below i p hp).trans (lt_size_of_up hp)
    rw [hlinked.children_eq hlt]
    exact ⟨hlt, mem_kids_iff_up.mpr hp⟩
  refine ⟨⟨⟨hlinked, ?within, ?apart⟩, ?rooted⟩, hroot, ?kinds, ?spans, ?index, ?lineEnd⟩
  case within =>
    intro i p hp
    obtain ⟨hlt, hmem⟩ := hchild hp
    obtain ⟨l, before, after, h⟩ := hspans p hlt
    obtain ⟨-, hstart, -, hstop⟩ := h.child hlinked hmem
    exact ⟨hstart, hstop⟩
  case apart =>
    intro i j p hi hj hij
    obtain ⟨hlt, hmem⟩ := hchild hi
    obtain ⟨l, before, after, h⟩ := hspans p hlt
    exact h.apart hlinked hmem (hchild hj).2 hlt hij
  case rooted =>
    intro i hpos hi
    obtain ⟨l, before, after, h⟩ := hspans i hi
    exact Option.isSome_iff_exists.mp (h.parent.resolve_left hpos.ne')
  case kinds =>
    intro i p hp
    obtain ⟨hlt, hmem⟩ := hchild hp
    obtain ⟨l, before, after, h⟩ := hspans p hlt
    exact (h.child hlinked hmem).1
  case spans =>
    intro i hi
    obtain ⟨l, before, after, h⟩ := hspans i hi
    rw [h.start, h.stop]
    exact ⟨_, slice?_eq h.text⟩
  case index =>
    intro i hi hindex
    obtain ⟨l, before, after, h⟩ := hspans i hi
    exact h.indexShape hlinked hindex
  case lineEnd =>
    intro i hi hindex
    obtain ⟨l, before, after, h⟩ := hspans i hi
    obtain ⟨-, -, rest, rfl⟩ := h.regular.index (hindex ▸ h.kind)
    refine ⟨before ++ l.text.toList, rest, h.text, ?_⟩
    rw [byteLength_append, h.stop]
    rfl

end

theorem written_render (tables : List Table) :
    Written (render tables).source (render tables).tree := by
  obtain ⟨hlinked, -, hplaced⟩ := placed_ofLayout (l := layout tables) rfl
  exact written_of_spans hlinked (placed_node hlinked hplaced).1 fun x => exists_spans tables

end SchemaAssist.Schema

import SchemaAssist.Proofs.Completion.Detection
import SchemaAssist.Proofs.Completion.Offer
import SchemaAssist.Proofs.Lint.Columns
import SchemaAssist.Proofs.Syntax.WellLinked

/-! # Columns offered and columns checked

The columns offered for an index are columns that the check of index columns knows in its table, and
none of those the index lists already. The offer looks at the columns right in a table, the check at
all column names with the table nearest above them; outside errors the first are among the second.
-/
namespace SchemaAssist.Completion
open Syntax Lint

variable {text : String} {t : Tree} {table column i : ℕ} {name : String}

theorem child?_eq_some {k : Kind} (h : t.child? column k = some i) :
    i ∈ t.children column ∧ t.kind i = k := by
  have hk := List.find?_some h
  exact ⟨List.mem_of_find?_eq_some h, of_decide_eq_true hk⟩

theorem declares_of_child (h : Linked t.nodes) (htable : table < t.size)
    (hk : t.kind table = .tableBlock) (hclean : ∀ a ∈ t.ancestors table, t.kind a ≠ .error)
    (hcolumn : column ∈ t.childrenOf table .column) (hi : t.child? column .columnName = some i) :
    ColumnCheck.Declares text t table (t.text text i) := by
  obtain ⟨hcolumn, hck⟩ := List.mem_filter.mp hcolumn
  have hck : t.kind column = .column := of_decide_eq_true hck
  obtain ⟨hi, hik⟩ := child?_eq_some hi
  have hcs := h.lt_size_of_mem_children htable hcolumn
  have his := h.lt_size_of_mem_children hcs hi
  have hpath : t.ancestors i = column :: table :: t.ancestors table := by
    rw [h.ancestors_of_parent ((h.mem_children hcs).mp hi),
      h.ancestors_of_parent ((h.mem_children htable).mp hcolumn)]
  refine ⟨i, List.mem_range.mpr his, hik, Tree.ancestor?_eq_some.mp ?_, ?_, rfl⟩
  · simp [Tree.ancestor?, hpath, hck, hk]
  · rw [hpath]
    simpa [hck, hk] using hclean

theorem mem_tableColumns (hname : name ∈ (tableColumns text t table).words) :
    ∃ column ∈ t.childrenOf table .column, ∃ i, t.child? column .columnName = some i ∧
      t.text text i = name := by
  obtain ⟨hmem, -⟩ := List.mem_filter.mp (WordSet.mem_ofList.mp hname)
  obtain ⟨i, hi, hname⟩ := List.mem_map.mp hmem
  obtain ⟨column, hcolumn, hi⟩ := List.mem_filterMap.mp hi
  exact ⟨column, hcolumn, i, hi, hname⟩

/-- Among the columns of an index, what is suggested are columns that the check knows in the table
around it, and none of them is listed in the index. -/
theorem offered_columns_declared (events : List Event) (text : String) (d : Dialect)
    (upperCase : Bool) (offset block table : ℕ)
    (hcontext : detect text (.ofEvents events) offset = some (.indexColumns block table))
    (hclean : ∀ a ∈ (Tree.ofEvents events).ancestors table, (Tree.ofEvents events).kind a ≠ .error) :
    let t := Tree.ofEvents events
    ∃ r, resolve d upperCase text t offset = some r ∧ ∀ label ∈ r.labels,
      label ∈ (ColumnCheck.visitAll text t t.ids).declaredIn table ∧
      ∀ i ∈ t.childrenOf block .indexColumnName, t.text text i ≠ label := by
  intro t
  have h : Linked t.nodes := linked_ofEvents events
  obtain ⟨hblock, -, htable, hk, -⟩ := block_of_detect hcontext
  have hts : table < t.size := by
    rw [h.ancestors_eq] at htable
    exact (lt_of_mem_path htable).trans (h.lt_size_of_mem_resolve hblock)
  refine ⟨_, by rw [resolve_eq, hcontext]; rfl, fun label hlabel => ?_⟩
  rw [labels_result, Offer.items] at hlabel
  simp only [snippetItems, List.zipIdx_nil, List.map_nil, List.flatMap_nil, List.nil_append,
    labels_columnItems] at hlabel
  obtain ⟨hlabel, hlisted⟩ := WordSet.mem_exclude.mp hlabel
  constructor
  · obtain ⟨column, hcolumn, i, hi, rfl⟩ := mem_tableColumns hlabel
    exact ColumnCheck.mem_declaredIn_ids.mpr (declares_of_child h hts hk hclean hcolumn hi)
  · intro i hi hname
    exact hlisted (List.mem_map.mpr ⟨i, hi, hname⟩)

/-- Two columns and an index that lists the first one. -/
theorem offered_columns_declared_unlisted :
    let events : List Event := [.start .sourceFile 0, .start .tableBlock 0, .start .column 0,
      .leaf .columnName 0 1, .finish 1, .start .column 2, .leaf .columnName 2 3, .finish 3,
      .start .index 4, .start .indexColumnBlock 4, .leaf .indexColumnName 5 6]
    let t := Tree.ofEvents events
    let d := Dialect.define (.named "d")
    (resolve d false "a b (a)" t 6).map (·.labels) = some ["b"] ∧
      detect "a b (a)" t 6 = some (.indexColumns 7 1) ∧
      (∀ a ∈ t.ancestors 1, t.kind a ≠ .error) ∧
      ∃ r, resolve d false "a b (a)" t 6 = some r ∧ ∀ label ∈ r.labels,
        label ∈ (ColumnCheck.visitAll "a b (a)" t t.ids).declaredIn 1 ∧
        ∀ i ∈ t.childrenOf 7 .indexColumnName, t.text "a b (a)" i ≠ label := by
  intro events t d
  have hcontext : detect "a b (a)" t 6 = some (.indexColumns 7 1) := by
    decide +kernel
  have hclean : ∀ a ∈ t.ancestors 1, t.kind a ≠ .error := by
    decide +kernel
  exact ⟨by decide +kernel, hcontext, hclean,
    offered_columns_declared events "a b (a)" d false 6 7 1 hcontext hclean⟩

end SchemaAssist.Completion

import SchemaAssist.Proofs.Completion.Ranking

/-! # The order of columns

The columns of a table are offered as they are declared, each name once, with priorities that count
down to 0. So up to a hundred columns rank from the last to the first. Of more columns, those from
the hundredth on share the priority 0 and rank before the others by their names.
-/
namespace SchemaAssist.Completion
open Syntax

/-! ## Words once each -/

namespace WordSet

theorem words_add (s : WordSet) (word : String) :
    (s.add word).words = if word ∈ s.words then s.words else s.words ++ [word] := by
  unfold add
  split <;> rfl

theorem ofList_concat (words : List String) (word : String) :
    ofList (words ++ [word]) = (ofList words).add word := by
  rw [ofList, extend, List.foldl_append]
  rfl

theorem words_ofList (words : List String) : (ofList words).words = words.eraseDups := by
  induction words using List.reverseRecOn with
  | nil => rfl
  | append_singleton words word ih =>
    rw [ofList_concat, words_add, List.eraseDups_append, ih]
    by_cases h : word ∈ words
    · simp [h, List.removeAll]
    · simp [h, List.removeAll, List.eraseDups_cons]

theorem words_exclude (s : WordSet) (words : List String) :
    (s.exclude words).words = s.words.filter (· ∉ words) :=
  List.filter_congr fun word _ => by simp

end WordSet

/-! ## Columns by rank -/

section
variable {t : Tree} {block offset : ℕ} {names : WordSet} {r : Result} {it : Item}

theorem indexNameStart_eq : indexNameStart t block offset =
    ((((t.childrenOf block .indexColumnName).filter fun i => t.stop i = offset).getLast?).map
      t.start).getD offset := by
  rw [indexNameStart]
  generalize t.childrenOf block .indexColumnName = listed
  induction listed using List.reverseRecOn with
  | nil => rfl
  | append_singleton listed i ih =>
    rw [List.foldl_append, List.foldl_cons, List.foldl_nil, ih, List.filter_append]
    by_cases h : t.stop i = offset
    · simp [h]
    · simp [h]

theorem getElem?_columnItems (names : WordSet) (k : ℕ) : (columnItems names)[k]? =
    names.words[k]?.map fun name => .keyword name (columnPriority - k) := by
  simp [columnItems, Function.comp_def]

theorem priority_columnItems {k : ℕ} (h : (columnItems names)[k]? = some it) :
    it.priority = columnPriority - k := by
  rw [getElem?_columnItems] at h
  obtain ⟨name, -, rfl⟩ := Option.map_eq_some_iff.mp h
  rfl

theorem priority_of_mem_drop (h : it ∈ (columnItems names).drop columnPriority) :
    it.priority = 0 := by
  obtain ⟨k, hk⟩ := List.getElem?_of_mem h
  rw [List.getElem?_drop] at hk
  rw [priority_columnItems hk]
  omega

theorem pairwise_take_columnItems (names : WordSet) :
    ((columnItems names).take columnPriority).Pairwise fun a b => b.priority < a.priority := by
  rw [List.pairwise_iff_getElem]
  intro i j hi hj hij
  have hlt : j < columnPriority :=
    Nat.lt_of_lt_of_le (List.length_take ▸ hj) (Nat.min_le_left _ _)
  rw [List.getElem_take, List.getElem_take, priority_columnItems (List.getElem?_eq_getElem _),
    priority_columnItems (List.getElem?_eq_getElem _)]
  omega

theorem priority_pos_of_mem_take (h : it ∈ (columnItems names).take columnPriority) :
    0 < it.priority := by
  obtain ⟨k, hk⟩ := List.getElem?_of_mem h
  rw [List.getElem?_take] at hk
  split_ifs at hk with hlt
  rw [priority_columnItems hk]
  omega

theorem pairwise_label (items : List Item) :
    (items.mergeSort fun a b => decide (a.label ≤ b.label)).Pairwise fun a b => a.label ≤ b.label := by
  have h : (items.mergeSort fun a b => decide (a.label ≤ b.label)).Pairwise
      fun a b => decide (a.label ≤ b.label) = true := by
    refine List.pairwise_mergeSort ?_ ?_ items
    · intro a b c hab hbc
      exact decide_eq_true (String.le_trans (of_decide_eq_true hab) (of_decide_eq_true hbc))
    · intro a b
      rw [Bool.or_eq_true, decide_eq_true_iff, decide_eq_true_iff]
      exact String.le_total _ _
  exact h.imp of_decide_eq_true

/-- The first columns, whose priorities differ, rank from the last to the first. The others have the
priority 0 and rank before them. -/
theorem sorted_columnItems (h : r.items = columnItems names) : r.sorted =
    (r.items.drop columnPriority).mergeSort (fun a b => decide (a.label ≤ b.label)) ++
      (r.items.take columnPriority).reverse := by
  have hnodup : r.labels.Nodup := by
    rw [Result.labels, h, labels_columnItems]
    exact names.nodup
  rw [h]
  generalize hlast : (columnItems names).drop columnPriority = last
  have hperm := List.mergeSort_perm last fun a b => decide (a.label ≤ b.label)
  refine Result.sorted_eq hnodup ?_ (List.pairwise_append.mpr ⟨?_, ?_, ?_⟩)
  · rw [h]
    refine (hperm.append (List.reverse_perm _)).trans (List.perm_append_comm.trans ?_)
    rw [← hlast, List.take_append_drop]
  · -- the priorities are all 0, so the labels decide
    refine (pairwise_label last).imp_of_mem fun {a b} ha hb hab => ?_
    rw [hperm.mem_iff, ← hlast] at ha hb
    refine Item.ranksBefore_iff.mpr (.inr ⟨?_, hab⟩)
    rw [priority_of_mem_drop ha, priority_of_mem_drop hb]
  · refine List.pairwise_reverse.mpr ((pairwise_take_columnItems names).imp fun hlt => ?_)
    exact Item.ranksBefore_iff.mpr (.inl hlt)
  · intro a ha b hb
    rw [hperm.mem_iff, ← hlast] at ha
    rw [List.mem_reverse] at hb
    refine Item.ranksBefore_iff.mpr (.inl ?_)
    rw [priority_of_mem_drop ha]
    exact priority_pos_of_mem_take hb

theorem sorted_eq_reverse (h : r.items = columnItems names) (hfew : r.items.length ≤ 100) :
    r.sorted = r.items.reverse := by
  have hlength : (r.items.drop columnPriority).length ≤ 1 := by
    rw [List.length_drop, columnPriority]
    omega
  have hrest : (r.items.drop columnPriority).mergeSort (fun a b => decide (a.label ≤ b.label)) =
      (r.items.drop columnPriority).reverse := by
    match r.items.drop columnPriority, hlength with
    | [], _ => simp
    | [it], _ => simp
  rw [sorted_columnItems h, hrest, ← List.reverse_append, List.take_append_drop]

/-! ## Columns of a table -/

theorem words_tableColumns (text : String) (t : Tree) (table : ℕ) :
    (tableColumns text t table).words =
      ((((t.childrenOf table .column).filterMap (t.child? · .columnName)).map (t.text text)).filter
        (· ≠ "")).eraseDups := by
  rw [tableColumns, WordSet.words_ofList]
  congr 1
  refine List.filter_congr fun name _ => ?_
  rw [Bool.eq_iff_iff]
  simp

theorem resolve_indexColumns (d : Dialect) (upperCase : Bool) {text : String} {table : ℕ}
    (h : detect text t offset = some (.indexColumns block table)) :
    ∃ r, resolve d upperCase text t offset = some r ∧
      r.items = columnItems ((tableColumns text t table).exclude (indexColumns text t block)) ∧
      r.replaceFrom = indexNameStart t block (min offset (Text.size text)) := by
  refine ⟨_, by rw [resolve_eq, h]; rfl, ?_, replaceFrom_result _ _⟩
  rw [items_result]
  refine Result.distinct_eq_self ?_
  simp only [Offer.items, snippetItems, List.zipIdx_nil, List.map_nil, List.flatMap_nil,
    List.nil_append, labels_columnItems]
  exact WordSet.nodup _

end

/-- Among the columns of an index, what is suggested are the names that the columns of the table
have, in the order of the columns and each once, without the names that the index lists. Their
priorities count down from 99 to 0, so up to a hundred of them rank from the last to the first. They
replace the listed name that ends at the cursor. -/
theorem column_suggestions (d : Dialect) (upperCase : Bool) (text : String) (t : Tree)
    (offset block table : ℕ) (hcontext : detect text t offset = some (.indexColumns block table)) :
    let cursor := min offset (Text.size text)
    let names := ((t.childrenOf table .column).filterMap (t.child? · .columnName)).map (t.text text)
    let listed := t.childrenOf block .indexColumnName
    ∃ r, resolve d upperCase text t offset = some r ∧
      r.labels = (names.filter (· ≠ "")).eraseDups.filter (· ∉ listed.map (t.text text)) ∧
      (∀ k it, r.items[k]? = some it → it = Item.keyword it.label (99 - k)) ∧
      r.replaceFrom =
        (((listed.filter fun i => t.stop i = cursor).getLast?).map t.start).getD cursor ∧
      r.sorted = (r.items.drop 99).mergeSort (fun a b => decide (a.label ≤ b.label)) ++
        (r.items.take 99).reverse ∧
      (r.items.length ≤ 100 → r.sorted = r.items.reverse) := by
  intro cursor names listed
  obtain ⟨r, hr, hitems, hstart⟩ := resolve_indexColumns d upperCase hcontext
  refine ⟨r, hr, ?_, ?_, ?_, sorted_columnItems hitems, sorted_eq_reverse hitems⟩
  · rw [Result.labels, hitems, labels_columnItems, WordSet.words_exclude, words_tableColumns,
      indexColumns]
  · intro k it hk
    rw [hitems, getElem?_columnItems] at hk
    obtain ⟨name, -, rfl⟩ := Option.map_eq_some_iff.mp hk
    rfl
  · rw [hstart, indexNameStart_eq]

/-- A column declared twice and one that the index lists, with the cursor right behind it. -/
theorem column_suggestions_listed :
    let events : List Event := [.start .sourceFile 0, .start .tableBlock 0,
      .start .column 0, .leaf .columnName 0 1, .finish 1,
      .start .column 2, .leaf .columnName 2 3, .finish 3,
      .start .column 4, .leaf .columnName 4 5, .finish 5,
      .start .column 6, .leaf .columnName 6 7, .finish 7,
      .start .index 8, .start .indexColumnBlock 8, .leaf .indexColumnName 9 10]
    let t := Tree.ofEvents events
    let d := Dialect.define (.named "d")
    detect "a b a c (c)" t 10 = some (.indexColumns 11 1) ∧
      ∃ r, resolve d true "a b a c (c)" t 10 = some r ∧ r.labels = ["a", "b"] ∧
        r.replaceFrom = 9 ∧ r.sorted.map (·.label) = ["b", "a"] := by
  intro events t d
  have hcontext : detect "a b a c (c)" t 10 = some (.indexColumns 11 1) := by
    decide +kernel
  obtain ⟨r, hr, hlabels, -, hstart, -, hreverse⟩ :=
    column_suggestions d true "a b a c (c)" t 10 11 1 hcontext
  have hlabels : r.labels = ["a", "b"] := hlabels.trans (by decide +kernel)
  have hfew : r.items.length ≤ 100 := by
    rw [← List.length_map Item.label, ← Result.labels, hlabels]
    decide
  refine ⟨hcontext, r, hr, hlabels, hstart.trans (by decide +kernel), ?_⟩
  rw [hreverse hfew, List.map_reverse, ← Result.labels, hlabels]
  rfl

end SchemaAssist.Completion

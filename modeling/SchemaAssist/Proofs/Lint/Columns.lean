import Mathlib.Data.List.Nodup
import Mathlib.Data.List.Perm.Basic
import SchemaAssist.Lint.Columns
import SchemaAssist.Proofs.Syntax.Path

/-! # What a pass over the columns collects

A table has the columns that some visited node declares in it, in whatever order the nodes are
visited. The references are those of the visited nodes, in the order of the visits.
-/
namespace SchemaAssist.Lint.ColumnCheck
open Syntax

variable {text : String} {t : Tree} {c : ColumnCheck} {nodes nodes' : List ℕ}
  {table other : ℕ} {name column : String} {declared : List (ℕ × List String)}

theorem lookup_cons_eq_ite {columns : List String} : ((table, columns) :: declared).lookup other =
    if other = table then some columns else declared.lookup other := by
  by_cases h : other = table
  · rw [h, if_pos rfl, List.lookup_cons_self]
  · rw [List.lookup_cons, beq_false_of_ne h, if_neg h]

theorem lookup_declare : (declare table name declared).lookup other =
    if other = table then some (((declared.lookup table).getD []).insert name)
    else declared.lookup other := by
  induction declared with
  | nil => exact lookup_cons_eq_ite
  | cons e rest ih =>
    obtain ⟨first, columns⟩ := e
    rw [declare]
    by_cases hfirst : first = table
    · subst hfirst
      simp only [if_true, lookup_cons_eq_ite, Option.getD_some]
      split_ifs <;> rfl
    · simp only [if_neg hfirst, lookup_cons_eq_ite, ih, if_neg (Ne.symm hfirst)]
      by_cases h : other = table
      · rw [if_neg (h ▸ Ne.symm hfirst), if_pos h, if_pos h]
      · simp only [if_neg h]

theorem declaredIn_visit (i : ℕ) : (c.visit text t i).declaredIn table =
    match declaration? text t i with
    | some (other, name) =>
      if table = other then (c.declaredIn table).insert name else c.declaredIn table
    | none => c.declaredIn table := by
  unfold declaredIn visit
  cases declaration? text t i with
  | none => rfl
  | some d =>
    by_cases h : table = d.1
    · simp [lookup_declare, h]
    · simp [lookup_declare, h]

theorem mem_declaredIn_visit (i : ℕ) : name ∈ (c.visit text t i).declaredIn table ↔
    declaration? text t i = some (table, name) ∨ name ∈ c.declaredIn table := by
  rw [declaredIn_visit]
  cases declaration? text t i with
  | none => simp
  | some d =>
    obtain ⟨other, column⟩ := d
    by_cases h : table = other
    · subst h
      simp [List.mem_insert_iff, eq_comm]
    · simp [h, Ne.symm h]

theorem nodup_declaredIn_visit (h : (c.declaredIn table).Nodup) (i : ℕ) :
    ((c.visit text t i).declaredIn table).Nodup := by
  rw [declaredIn_visit]
  cases declaration? text t i with
  | none => exact h
  | some d =>
    dsimp only
    split_ifs
    · exact h.insert
    · exact h

theorem mem_declaredIn_visitAll : name ∈ (visitAll text t nodes).declaredIn table ↔
    ∃ i ∈ nodes, declaration? text t i = some (table, name) := by
  -- from any state on, as the visits change the state
  have hrun : ∀ (c : ColumnCheck), name ∈ (nodes.foldl (visit text t) c).declaredIn table ↔
      name ∈ c.declaredIn table ∨ ∃ i ∈ nodes, declaration? text t i = some (table, name) := by
    induction nodes with
    | nil => simp
    | cons i rest ih =>
      intro c
      rw [List.foldl_cons, ih, mem_declaredIn_visit, List.exists_mem_cons_iff]
      tauto
  rw [visitAll, hrun]
  exact or_iff_right List.not_mem_nil

theorem nodup_declaredIn_visitAll : ((visitAll text t nodes).declaredIn table).Nodup := by
  have hrun : ∀ (c : ColumnCheck), (c.declaredIn table).Nodup →
      ((nodes.foldl (visit text t) c).declaredIn table).Nodup := by
    induction nodes with
    | nil => exact fun _ hc => hc
    | cons i rest ih => exact fun c hc => ih _ (nodup_declaredIn_visit hc i)
  exact hrun new List.nodup_nil

theorem references_visitAll :
    (visitAll text t nodes).references = nodes.filterMap (reference? text t) := by
  have hrun : ∀ (c : ColumnCheck), (nodes.foldl (visit text t) c).references =
      c.references ++ nodes.filterMap (reference? text t) := by
    induction nodes with
    | nil => simp
    | cons i rest ih =>
      intro c
      rw [List.foldl_cons, ih, visit, List.filterMap_cons, List.append_assoc]
      cases reference? text t i with
      | none => rfl
      | some r => rfl
  exact hrun new

/-! ## The order of the visits -/

theorem declaredIn_perm (h : nodes.Perm nodes') (table : ℕ) :
    ((visitAll text t nodes).declaredIn table).Perm ((visitAll text t nodes').declaredIn table) := by
  rw [List.perm_ext_iff_of_nodup nodup_declaredIn_visitAll nodup_declaredIn_visitAll]
  intro name
  simp only [mem_declaredIn_visitAll, h.mem_iff]

theorem undeclared_perm (h : nodes.Perm nodes') :
    (visitAll text t nodes).undeclared.Perm (visitAll text t nodes').undeclared := by
  have hsame : ∀ r : Reference, ((visitAll text t nodes).declaredIn r.table).contains r.name =
      ((visitAll text t nodes').declaredIn r.table).contains r.name := by
    intro r
    rw [Bool.eq_iff_iff, List.contains_iff_mem, List.contains_iff_mem]
    exact (declaredIn_perm h r.table).mem_iff
  unfold undeclared
  simp only [hsame, references_visitAll]
  exact ((h.filterMap _).filter _).map _

/-! ## Undeclared columns of a tree -/

/-- Some node outside all errors declares the column in the table. -/
def Declares (text : String) (t : Tree) (table : ℕ) (name : String) : Prop :=
  ∃ i ∈ t.ids, t.kind i = .columnName ∧ t.Nearest .tableBlock i table ∧
    (∀ a ∈ t.ancestors i, t.kind a ≠ .error) ∧ t.text text i = name

/-- The node names a column for an index, and the table around it has no such column. -/
def Dangling (text : String) (t : Tree) (i : ℕ) : Prop :=
  t.kind i = .indexColumnName ∧ t.text text i ≠ "" ∧
    ∃ table ∈ t.ancestors i, t.Nearest .tableBlock i table ∧
      ¬Declares text t table (t.text text i)

instance : Decidable (Declares text t table name) :=
  inferInstanceAs (Decidable (∃ i ∈ t.ids, _ ∧ _ ∧ (∀ a ∈ t.ancestors i, _) ∧ _))

instance (i : ℕ) : Decidable (Dangling text t i) :=
  inferInstanceAs (Decidable (_ ∧ _ ∧ ∃ table ∈ t.ancestors i, _ ∧ _))

theorem declaration?_eq_some {i : ℕ} : declaration? text t i = some (table, name) ↔
    t.kind i = .columnName ∧ t.Nearest .tableBlock i table ∧
      (∀ a ∈ t.ancestors i, t.kind a ≠ .error) ∧ t.text text i = name := by
  have herror : t.hasAncestor i .error = false ↔ ∀ a ∈ t.ancestors i, t.kind a ≠ .error := by
    rw [← Bool.not_eq_true, Tree.hasAncestor_iff]
    push Not
    rfl
  unfold declaration?
  rw [← Tree.ancestor?_eq_some, ← herror]
  by_cases hkind : t.kind i = .columnName
  · cases hanc : t.hasAncestor i .error with
    | true => simp [hkind]
    | false => simp [hkind]
  · simp [hkind]

theorem reference?_eq_some {i : ℕ} {r : Reference} : reference? text t i = some r ↔
    t.kind i = .indexColumnName ∧ t.text text i ≠ "" ∧
      ∃ table, t.Nearest .tableBlock i table ∧
        r = ⟨table, t.text text i, t.start i, t.stop i⟩ := by
  unfold reference?
  simp only [← Tree.ancestor?_eq_some]
  by_cases hkind : t.kind i = .indexColumnName ∧ t.text text i ≠ ""
  · rw [if_pos (by simpa using hkind), Option.map_eq_some_iff]
    constructor
    · rintro ⟨table, htable, rfl⟩
      exact ⟨hkind.1, hkind.2, table, htable, rfl⟩
    · rintro ⟨-, -, table, htable, rfl⟩
      exact ⟨table, htable, rfl⟩
  · rw [if_neg (by simpa using hkind)]
    constructor
    · intro h
      cases h
    · rintro ⟨hindex, htext, -⟩
      exact absurd ⟨hindex, htext⟩ hkind

theorem mem_declaredIn_ids : name ∈ (visitAll text t t.ids).declaredIn table ↔
    Declares text t table name := by
  simp only [mem_declaredIn_visitAll, declaration?_eq_some, Declares]

theorem report_eq (i : ℕ) :
    ((reference? text t i).filter fun r =>
        !((visitAll text t t.ids).declaredIn r.table).contains r.name).map
      (fun r => Diagnostic.error r.start r.stop "Column name not found") =
    if Dangling text t i then some (.error (t.start i) (t.stop i) "Column name not found")
    else none := by
  cases href : reference? text t i with
  | none =>
    have hno : ¬Dangling text t i := by
      rintro ⟨hkind, htext, table, -, hnear, -⟩
      rw [reference?_eq_some.mpr ⟨hkind, htext, table, hnear, rfl⟩] at href
      cases href
    rw [if_neg hno]
    rfl
  | some r =>
    obtain ⟨hkind, htext, table, hnear, rfl⟩ := reference?_eq_some.mp href
    have hiff : Dangling text t i ↔ ¬Declares text t table (t.text text i) := by
      constructor
      · rintro ⟨-, -, other, -, hother, hdeclares⟩
        rw [← Tree.ancestor?_eq_some] at hnear hother
        rwa [Option.some.inj (hnear.symm.trans hother)]
      · exact fun h => ⟨hkind, htext, table, hnear.1, hnear, h⟩
    by_cases hdeclares : Declares text t table (t.text text i)
    · have hmem := mem_declaredIn_ids.mpr hdeclares
      rw [if_neg (by simpa [hiff] using hdeclares)]
      simp [Option.filter, hmem]
    · have hmem := mt mem_declaredIn_ids.mp hdeclares
      rw [if_pos (hiff.mpr hdeclares)]
      simp [Option.filter, hmem]

theorem undeclared_ids : (visitAll text t t.ids).undeclared =
    (t.ids.filter (Dangling text t ·)).map fun i =>
      .error (t.start i) (t.stop i) "Column name not found" := by
  unfold undeclared
  rw [references_visitAll, List.filter_filterMap, List.map_filterMap, ← List.filterMap_eq_map,
    List.filterMap_filter]
  refine List.filterMap_congr fun i _ => (report_eq i).trans ?_
  simp only [decide_eq_true_iff, Function.comp_apply]

end SchemaAssist.Lint.ColumnCheck

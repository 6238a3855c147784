import SchemaAssist.Proofs.Completion.Detection
import SchemaAssist.Syntax.Builder

/-! # Where each context applies

An error at the cursor is asked first and then the path from the cursor to the root, whose nodes may
answer or leave the answer to the nodes above them. So a context says of all nodes on the path below
its own that they had none, and of an error that it told nothing.
-/
namespace SchemaAssist.Completion
open Syntax Text

section
variable {text : String} {t : Tree} {offset j e p : ℕ} {atError : Bool}

theorem Passed.of_hasRule (h : Passed text t offset atError j) (hrule : HasRule (t.kind j)) :
    t.kind j = .index ∨ (t.kind j = .indexColumnBlock ∧ t.ancestor? j .tableBlock = none) ∨
      (t.kind j = .column ∧ atError = true) := by
  cases h with
  | index hk => exact .inl hk
  | indexColumns hk hnone => exact .inr (.inl ⟨hk, hnone⟩)
  | column hk herror => exact .inr (.inr ⟨hk, herror⟩)
  | other hk => exact absurd hrule hk

theorem Passed.kind_ne (h : Passed text t offset atError j) {k : Kind}
    (hk : k ∈ [Kind.indexBlock, .tableBlock, .sourceFile]) : t.kind j ≠ k := by
  rintro rfl
  have hrule : HasRule (t.kind j) := by
    simp only [List.mem_cons, List.not_mem_nil, or_false] at hk
    rcases hk with hk | hk | hk <;> exact hk ▸ by decide
  rcases h.of_hasRule hrule with hk' | ⟨hk', -⟩ | ⟨hk', -⟩ <;>
    exact absurd (hk' ▸ hk) (by decide)

theorem Passed.atError_of_column (h : Passed text t offset atError j) (hk : t.kind j = .column) :
    atError = true := by
  have hrule := h.of_hasRule (hk ▸ by decide)
  simpa [hk] using hrule

theorem Passed.ne_indexColumnBlock {a : ℕ} (h : Passed text t offset atError j)
    (ha : a ∈ t.ancestors j) (htable : t.kind a = .tableBlock) : t.kind j ≠ .indexColumnBlock := by
  intro hk
  have hnone : t.ancestor? j .tableBlock = none := by
    have hrule := h.of_hasRule (hk ▸ by decide)
    simpa [hk] using hrule
  have hsome : t.hasAncestor j .tableBlock := Tree.hasAncestor_iff.mpr ⟨a, ha, htable⟩
  rw [Tree.hasAncestor, hnone] at hsome
  cases hsome

theorem region_column {c : ℕ} (h : detect text t offset = some (.column c)) :
    t.kind c = .column ∧ (∀ e, ¬ t.ErrorAt (min offset (size text)) e) ∧
      ∃ below above, t.resolve (min offset (size text)) ::
          t.ancestors (t.resolve (min offset (size text))) = below ++ c :: above ∧
        ∀ j ∈ below, t.kind j ≠ .indexBlock ∧ t.kind j ≠ .tableBlock := by
  obtain ⟨-, below, i, above, hpath, hbelow, hnode⟩ := split_of_structural h rfl
  rcases hnode.of_ne_indexType (by simp) with ⟨_, -, -, hc⟩ | ⟨hk, herror, hc⟩ | ⟨-, hc⟩ | ⟨-, hc⟩ <;>
    cases hc
  have hno : t.errorAt (min offset (size text)) = none := by simpa using herror
  exact ⟨hk, Tree.errorAt_eq_none.mp hno, below, above, hpath,
    fun j hj => ⟨(hbelow j hj).kind_ne (by decide), (hbelow j hj).kind_ne (by decide)⟩⟩

/-- A column is passed over for an error, which then told nothing. -/
theorem region_tableBody {b : ℕ} (h : detect text t offset = some (.tableBody b)) :
    t.kind b = .tableBlock ∧ ∃ below above, t.resolve (min offset (size text)) ::
        t.ancestors (t.resolve (min offset (size text))) = below ++ b :: above ∧
      (∀ j ∈ below, t.kind j ≠ .tableBlock ∧ t.kind j ≠ .indexBlock ∧
        t.kind j ≠ .indexColumnBlock) ∧
      ((∃ j ∈ below, t.kind j = .column) →
        ∃ e, t.errorAt (min offset (size text)) = some e ∧ classifyError text t e = none) := by
  obtain ⟨hnone, below, i, above, hpath, hbelow, hnode⟩ := split_of_structural h rfl
  rcases hnode.of_ne_indexType (by simp) with ⟨_, -, -, hc⟩ | ⟨-, -, hc⟩ | ⟨hk, hc⟩ | ⟨-, hc⟩ <;>
    cases hc
  refine ⟨hk, below, above, hpath, fun j hj => ?_, fun ⟨j, hj, hcolumn⟩ => ?_⟩
  · have habove := Tree.mem_ancestors_of_split hpath hj
    exact ⟨(hbelow j hj).kind_ne (by decide), (hbelow j hj).kind_ne (by decide),
      (hbelow j hj).ne_indexColumnBlock habove hk⟩
  · obtain ⟨e, he⟩ := Option.isSome_iff_exists.mp ((hbelow j hj).atError_of_column hcolumn)
    rw [he, Option.bind_some] at hnone
    exact ⟨e, he, hnone⟩

theorem region_script (h : detect text t offset = some .script) :
    ∃ below root above, t.resolve (min offset (size text)) ::
        t.ancestors (t.resolve (min offset (size text))) = below ++ root :: above ∧
      t.kind root = .sourceFile ∧ ∀ j ∈ below, t.kind j ≠ .sourceFile ∧ t.kind j ≠ .tableBlock ∧
        t.kind j ≠ .indexBlock := by
  obtain ⟨-, below, i, above, hpath, hbelow, hnode⟩ := split_of_structural h rfl
  rcases hnode.of_ne_indexType (by simp) with ⟨_, -, -, hc⟩ | ⟨-, -, hc⟩ | ⟨-, hc⟩ | ⟨hk, -⟩
  · cases hc
  · cases hc
  · cases hc
  · exact ⟨below, i, above, hpath, hk, fun j hj => ⟨(hbelow j hj).kind_ne (by decide),
      (hbelow j hj).kind_ne (by decide), (hbelow j hj).kind_ne (by decide)⟩⟩

theorem errorAt_of_detect {c : Context} (h : detect text t offset = some c)
    (hc : c = .topLevel e ∨ c = .dataType e ∨ c = .options e) :
    t.errorAt (min offset (size text)) = some e := by
  rcases split_of_detect h with ⟨e', he, hc'⟩ | ⟨-, below, i, above, -, -, hnode⟩
  · have heq : e' = e := by
      rcases eq_of_classifyError hc' with rfl | rfl | rfl <;> simpa using hc
    rwa [heq] at he
  · rcases hnode.of_ne_indexType (by rcases hc with rfl | rfl | rfl <;> simp) with
      ⟨_, -, -, rfl⟩ | ⟨-, -, rfl⟩ | ⟨-, rfl⟩ | ⟨-, rfl⟩ <;> simp at hc

theorem detect_topLevel
    (hnode : (t.kind (t.resolve (min offset (size text)))).isLiteralOrComment = false)
    (he : t.errorAt (min offset (size text)) = some e) (hp : t.parent e = some p)
    (hk : t.kind p = .sourceFile) : detect text t offset = some (.topLevel e) := by
  have hc : classifyError text t e = some (.topLevel e) := by
    simp only [classifyError, hp, hk, if_true]
  simp only [detect, hnode, he, Option.bind_some, hc, Bool.false_eq_true, if_false]

end

/-- Which nodes each context excludes on the path below its own, and what it says of the error at the
cursor. -/
theorem context_regions (text : String) (t : Tree) (offset : ℕ) :
    let o := min offset (size text)
    let nodes := t.resolve o :: t.ancestors (t.resolve o)
    (∀ c, detect text t offset = some (.column c) →
      t.kind c = .column ∧ (∀ e, ¬ t.ErrorAt o e) ∧ ∃ below above, nodes = below ++ c :: above ∧
        ∀ j ∈ below, t.kind j ≠ .indexBlock ∧ t.kind j ≠ .tableBlock) ∧
    (∀ b, detect text t offset = some (.tableBody b) →
      t.kind b = .tableBlock ∧ ∃ below above, nodes = below ++ b :: above ∧
        (∀ j ∈ below, t.kind j ≠ .tableBlock ∧ t.kind j ≠ .indexBlock ∧
          t.kind j ≠ .indexColumnBlock) ∧
        ((∃ j ∈ below, t.kind j = .column) →
          ∃ e, t.errorAt o = some e ∧ classifyError text t e = none)) ∧
    (detect text t offset = some .script →
      ∃ below root above, nodes = below ++ root :: above ∧ t.kind root = .sourceFile ∧
        ∀ j ∈ below, t.kind j ≠ .sourceFile ∧ t.kind j ≠ .tableBlock ∧ t.kind j ≠ .indexBlock) ∧
    (∀ c e, detect text t offset = some c → c = .topLevel e ∨ c = .dataType e ∨ c = .options e →
      t.errorAt o = some e) ∧
    ∀ e p, (t.kind (t.resolve o)).isLiteralOrComment = false → t.errorAt o = some e →
      t.parent e = some p → t.kind p = .sourceFile → detect text t offset = some (.topLevel e) :=
  ⟨fun _ => region_column, fun _ => region_tableBody, region_script,
    fun _ _ => errorAt_of_detect, fun _ _ => detect_topLevel⟩

/-- The error behind the name of the column tells nothing, so the table answers there. Further on in
the column no error touches the cursor. The error behind the table expects another one. -/
theorem context_regions_beside_errors :
    let text := "table t a int ) x  y"
    let t := Tree.ofEvents [.start .sourceFile 0, .start .tableBlock 0, .leaf .table 0 5,
      .start .column 8, .leaf .columnName 8 9, .error 9, .finish 13, .finish 15, .error 17,
      .finish 20]
    detect text t 12 = some (.column 3) ∧ (∀ e, ¬ t.ErrorAt 12 e) ∧
      detect text t 9 = some (.tableBody 1) ∧
      (∃ below above, t.resolve 9 :: t.ancestors (t.resolve 9) = below ++ 1 :: above ∧
        (∀ j ∈ below, t.kind j ≠ .tableBlock ∧ t.kind j ≠ .indexBlock ∧
          t.kind j ≠ .indexColumnBlock) ∧
        ((∃ j ∈ below, t.kind j = .column) →
          ∃ e, t.errorAt 9 = some e ∧ classifyError text t e = none)) ∧
      t.errorAt 17 = some 6 ∧ detect text t 17 = some (.topLevel 6) ∧
      detect text t 18 = some .script := by
  intro text t
  have hcolumn : detect text t 12 = some (.column 3) := by decide +kernel
  have hbody : detect text t 9 = some (.tableBody 1) := by decide +kernel
  have herror : t.errorAt 17 = some 6 := by decide +kernel
  have hscript : detect text t 18 = some .script := by decide +kernel
  have hnode : (t.kind (t.resolve 17)).isLiteralOrComment = false := by decide +kernel
  have hparent : t.parent 6 = some 0 ∧ t.kind 0 = .sourceFile := by decide +kernel
  have hmin {n : ℕ} (hn : n ≤ 20) : min n (size text) = n := by
    rw [show size text = 20 by decide]
    exact Nat.min_eq_left hn
  obtain ⟨-, hnone, -⟩ := (context_regions text t 12).1 3 hcolumn
  obtain ⟨-, hbelow⟩ := (context_regions text t 9).2.1 1 hbody
  have htop := (context_regions text t 17).2.2.2.2 6 0
  rw [hmin (by decide)] at hnone hbelow htop
  exact ⟨hcolumn, hnone, hbody, hbelow, herror, htop hnode herror hparent.1 hparent.2, hscript⟩

end SchemaAssist.Completion

import SchemaAssist.Completion.Context
import SchemaAssist.Proofs.Syntax.Resolve

/-! # What a context tells

A context comes from an error that the cursor touches, or from a node on the path from the cursor to
the root. Which context it is tells the kind of that node and which rule applied to it.
-/
namespace SchemaAssist.Completion
open Syntax Text

/-- Kinds at which the way up the path may stop. -/
def HasRule (k : Kind) : Prop :=
  k ∈ [Kind.index, .indexColumnBlock, .indexBlock, .column, .tableBlock, .sourceFile]

instance (k : Kind) : Decidable (HasRule k) := inferInstanceAs (Decidable (k ∈ _))

variable {text : String} {t : Tree} {offset i e : ℕ} {atError : Bool} {c : Context}

/-- The contexts that a node gives by the rule for its kind. -/
inductive OfNode (text : String) (t : Tree) (offset : ℕ) (atError : Bool) (i : ℕ) : Context → Prop
  | index {c : Context} (hk : t.kind i = .index) (hc : indexTypeContext text t i offset = some c) :
      OfNode text t offset atError i c
  | indexColumns {table : ℕ} (hk : t.kind i = .indexColumnBlock)
      (htable : t.ancestor? i .tableBlock = some table) :
      OfNode text t offset atError i (.indexColumns i table)
  /-- Between indexes, the last one before the cursor answers. -/
  | indexBlock {index : ℕ} {c : Context} (hk : t.kind i = .indexBlock)
      (hindex : indexOnLine text t i offset = some index)
      (hc : indexTypeContext text t index offset = some c) : OfNode text t offset atError i c
  | column (hk : t.kind i = .column) (herror : atError = false) :
      OfNode text t offset atError i (.column i)
  | tableBody (hk : t.kind i = .tableBlock) : OfNode text t offset atError i (.tableBody i)
  | script (hk : t.kind i = .sourceFile) : OfNode text t offset atError i .script

/-- A node that leaves the context to the nodes above it. -/
inductive Passed (text : String) (t : Tree) (offset : ℕ) (atError : Bool) (i : ℕ) : Prop
  | index (hk : t.kind i = .index) (hnone : indexTypeContext text t i offset = none)
  | indexColumns (hk : t.kind i = .indexColumnBlock) (hnone : t.ancestor? i .tableBlock = none)
  | column (hk : t.kind i = .column) (herror : atError = true)
  | other (hk : ¬ HasRule (t.kind i))

theorem ofNode_or_passed {above : List ℕ}
    (h : contextOnPath text t offset atError (i :: above) = some c) :
    OfNode text t offset atError i c ∨
      Passed text t offset atError i ∧ contextOnPath text t offset atError above = some c := by
  rw [contextOnPath] at h
  split at h
  next hk =>
    split at h
    next hc => exact .inl (.index hk (hc.trans h))
    next hnone => exact .inr ⟨.index hk hnone, h⟩
  next hk =>
    split at h
    next htable =>
      cases h
      exact .inl (.indexColumns hk htable)
    next hnone => exact .inr ⟨.indexColumns hk hnone, h⟩
  next hk =>
    obtain ⟨index, hindex, hc⟩ := Option.bind_eq_some_iff.mp h
    exact .inl (.indexBlock hk hindex hc)
  next hk =>
    cases atError with
    | true => exact .inr ⟨.column hk rfl, h⟩
    | false =>
      cases h
      exact .inl (.column hk rfl)
  next hk =>
    cases h
    exact .inl (.tableBody hk)
  next hk =>
    cases h
    exact .inl (.script hk)
  next => exact .inr ⟨.other (by simp_all [HasRule]), h⟩

theorem exists_split {nodes : List ℕ} (h : contextOnPath text t offset atError nodes = some c) :
    ∃ below i above, nodes = below ++ i :: above ∧
      (∀ j ∈ below, Passed text t offset atError j) ∧ OfNode text t offset atError i c := by
  induction nodes with
  | nil => cases h
  | cons i above ih =>
    rcases ofNode_or_passed h with hc | ⟨hpassed, h⟩
    · exact ⟨[], i, above, rfl, by simp, hc⟩
    · obtain ⟨below, j, rest, rfl, hbelow, hc⟩ := ih h
      exact ⟨i :: below, j, rest, rfl, List.forall_mem_cons.mpr ⟨hpassed, hbelow⟩, hc⟩

theorem eq_of_classifyError (h : classifyError text t e = some c) :
    c = .topLevel e ∨ c = .dataType e ∨ c = .options e := by
  unfold classifyError at h
  split at h
  · cases h
  · split_ifs at h <;> cases h <;> simp

theorem split_of_detect (h : detect text t offset = some c) :
    (∃ e, t.errorAt (min offset (size text)) = some e ∧ classifyError text t e = some c) ∨
    (t.errorAt (min offset (size text))).bind (classifyError text t) = none ∧
      ∃ below i above, t.resolve (min offset (size text)) ::
          t.ancestors (t.resolve (min offset (size text))) = below ++ i :: above ∧
        (∀ j ∈ below, Passed text t (min offset (size text))
          (t.errorAt (min offset (size text))).isSome j) ∧
        OfNode text t (min offset (size text)) (t.errorAt (min offset (size text))).isSome i c := by
  unfold detect at h
  dsimp only at h
  split at h
  · cases h
  · split at h
    next hc =>
      cases h
      exact .inl (Option.bind_eq_some_iff.mp hc)
    next hnone => exact .inr ⟨hnone, exists_split h⟩

theorem cases_detect (h : detect text t offset = some c) :
    (∃ e, t.errorAt (min offset (size text)) = some e ∧
      (c = .topLevel e ∨ c = .dataType e ∨ c = .options e)) ∨
    ∃ i ∈ t.resolve (min offset (size text)) :: t.ancestors (t.resolve (min offset (size text))),
      OfNode text t (min offset (size text)) (t.errorAt (min offset (size text))).isSome i c := by
  rcases split_of_detect h with ⟨e, he, hc⟩ | ⟨-, below, i, above, hpath, -, hc⟩
  · exact .inl ⟨e, he, eq_of_classifyError hc⟩
  · refine .inr ⟨i, ?_, hc⟩
    rw [hpath]
    exact List.mem_append_right _ List.mem_cons_self

theorem split_of_structural (h : detect text t offset = some c) (hc : c.isErrorDriven = false) :
    (t.errorAt (min offset (size text))).bind (classifyError text t) = none ∧
      ∃ below i above, t.resolve (min offset (size text)) ::
          t.ancestors (t.resolve (min offset (size text))) = below ++ i :: above ∧
        (∀ j ∈ below, Passed text t (min offset (size text))
          (t.errorAt (min offset (size text))).isSome j) ∧
        OfNode text t (min offset (size text)) (t.errorAt (min offset (size text))).isSome i c := by
  refine (split_of_detect h).resolve_left fun ⟨e, _, herror⟩ => ?_
  rcases eq_of_classifyError herror with rfl | rfl | rfl <;> cases hc

theorem eq_of_indexTypeContext (h : indexTypeContext text t i offset = some c) :
    ∃ replaceFrom ≤ offset, ∃ hasUnique hasMethod,
      c = .indexType i replaceFrom hasUnique hasMethod := by
  unfold indexTypeContext at h
  split at h
  · cases h
  · split at h
    · cases h
    · split at h
      · cases h
      · cases h
        exact ⟨_, Nat.sub_le _ _, _, _, rfl⟩

theorem OfNode.of_ne_indexType (h : OfNode text t offset atError i c)
    (hc : ∀ index replaceFrom hasUnique hasMethod,
      c ≠ .indexType index replaceFrom hasUnique hasMethod) :
    (∃ table, t.kind i = .indexColumnBlock ∧ t.ancestor? i .tableBlock = some table ∧
      c = .indexColumns i table) ∨
    (t.kind i = .column ∧ atError = false ∧ c = .column i) ∨
    (t.kind i = .tableBlock ∧ c = .tableBody i) ∨ (t.kind i = .sourceFile ∧ c = .script) := by
  cases h with
  | index _ h =>
    obtain ⟨_, -, _, _, h⟩ := eq_of_indexTypeContext h
    exact absurd h (hc _ _ _ _)
  | indexColumns hk htable => exact .inl ⟨_, hk, htable, rfl⟩
  | indexBlock _ _ h =>
    obtain ⟨_, -, _, _, h⟩ := eq_of_indexTypeContext h
    exact absurd h (hc _ _ _ _)
  | column hk herror => exact .inr (.inl ⟨hk, herror, rfl⟩)
  | tableBody hk => exact .inr (.inr (.inl ⟨hk, rfl⟩))
  | script hk => exact .inr (.inr (.inr ⟨hk, rfl⟩))

theorem block_of_detect {block table : ℕ}
    (h : detect text t offset = some (.indexColumns block table)) :
    block ∈ t.resolve (min offset (size text)) :: t.ancestors (t.resolve (min offset (size text))) ∧
      t.kind block = .indexColumnBlock ∧ t.Nearest .tableBlock block table := by
  obtain ⟨-, below, i, above, hpath, -, hnode⟩ := split_of_structural h rfl
  rcases hnode.of_ne_indexType (by simp) with ⟨_, hk, htable, hc⟩ | ⟨-, -, hc⟩ | ⟨-, hc⟩ | ⟨-, hc⟩ <;>
    cases hc
  refine ⟨?_, hk, Tree.ancestor?_eq_some.mp htable⟩
  rw [hpath]
  exact List.mem_append_right _ List.mem_cons_self

end SchemaAssist.Completion

import SchemaAssist.Proofs.Completion.Detection
import SchemaAssist.Proofs.Schema.Rendered

/-! # Completion in written tables

At every offset of written tables the context is that of the innermost column, index or table around
it. The nodes below have no rule of their own, and an index passes an offset on to its block unless
the offset is right behind its type.
-/
namespace SchemaAssist.Completion
open Syntax Schema Text

/-- An offset at which a node passes the question on to the nodes above it. -/
def Silent (source : String) (t : Tree) (offset y : ℕ) : Prop :=
  ∀ above, contextOnPath source t offset false (y :: above) =
    contextOnPath source t offset false above

/-- An offset in a node of a kind, its end included and its start left out. -/
def Covers (t : Tree) (k : Kind) (offset i : ℕ) : Prop :=
  i < t.size ∧ t.kind i = k ∧ t.start i < offset ∧ offset ≤ t.stop i

/-- The end of an index with a type. -/
def AtType (t : Tree) (offset i : ℕ) : Prop :=
  i < t.size ∧ t.kind i = .index ∧ (∃ m ∈ t.children i, t.kind m = .indexType) ∧ offset = t.stop i

section
variable {source : String} {t : Tree} {offset i x y : ℕ} {k : Kind}

theorem Covers.reaches (h : Covers t k offset i) : t.reaches offset i := by
  obtain ⟨-, -, hstart, hstop⟩ := h
  simp [Tree.reaches, hstart, hstop]

theorem covers_of_reaches (hi : i < t.size) (hr : t.reaches offset i) :
    Covers t (t.kind i) offset i := by
  simp only [Tree.reaches, Bool.and_eq_true, decide_eq_true_iff] at hr
  exact ⟨hi, rfl, hr⟩

theorem silent_of_not_hasRule (h : ¬HasRule (t.kind y)) : Silent source t offset y := by
  intro above
  rw [contextOnPath]
  split
  case h_7 => rfl
  all_goals
    rename_i hk
    exact absurd (hk ▸ by decide) h

theorem silent_of_index (hk : t.kind y = .index)
    (h : indexTypeContext source t y offset = none) : Silent source t offset y := by
  intro above
  rw [contextOnPath, hk]
  simp only [h]

theorem contextOnPath_append {front rest : List ℕ} (h : ∀ y ∈ front, Silent source t offset y) :
    contextOnPath source t offset false (front ++ rest) =
      contextOnPath source t offset false rest := by
  induction front with
  | nil => rfl
  | cons y front ih =>
    rw [List.cons_append, h y List.mem_cons_self]
    exact ih fun z hz => h z (List.mem_cons_of_mem _ hz)

/-! ## Kinds along a path -/

theorem plain_of_mem_holds {k k' : Kind} (h : k' ∈ holds k) :
    k'.isLiteralOrComment = false ∧ k' ≠ .error := by
  cases k <;> simp only [holds, List.mem_cons, List.not_mem_nil, or_false] at h <;>
    rcases h with rfl | rfl | rfl | rfl | rfl | rfl <;> decide

/-- The kinds up to some levels below a kind in written tables. -/
def belowWithin : ℕ → Kind → List Kind
  | 0, _ => []
  | n + 1, k => (holds k).flatMap fun k' => k' :: belowWithin n k'

/-- The kinds below a kind; an identifier stands six levels below the root. -/
def below (k : Kind) : List Kind := belowWithin 6 k

theorem mem_below_of_mem_holds {k k' : Kind} (h : k' ∈ holds k) : k' ∈ below k :=
  List.mem_flatMap.mpr ⟨k', h, List.mem_cons_self⟩

theorem mem_below_trans (k : Kind) : ∀ k' ∈ below k, ∀ k'' ∈ holds k', k'' ∈ below k := by
  cases k <;> decide

/-- The kind of the parent, for kinds that have only one in written tables. -/
def above : Kind → Kind
  | .index => .indexBlock
  | .indexColumnBlock => .index
  | .indexBlock => .tableBlock
  | k => k

theorem eq_above {k k' : Kind} (hk : k ∈ [Kind.index, .indexColumnBlock, .indexBlock])
    (h : k ∈ holds k') : k' = above k := by
  have hall : ∀ k ∈ [Kind.index, .indexColumnBlock, .indexBlock], k ∈ holds k' → k' = above k := by
    cases k' <;> decide
  exact hall k hk h

end

section
variable {source : String} {t : Tree} (h : Written source t) {offset i m x y : ℕ} {k : Kind}
include h

theorem exists_parent (hi : i < t.size) (hk : t.kind i ≠ .sourceFile) :
    ∃ p, t.parent i = some p ∧ t.kind i ∈ holds (t.kind p) := by
  have hpos : 0 < i := by
    rcases Nat.eq_zero_or_pos i with rfl | hpos
    · exact absurd h.root hk
    · exact hpos
  obtain ⟨p, hp⟩ := h.nested.rooted i hpos hi
  exact ⟨p, hp, h.kinds i p hp⟩

theorem exists_above (hi : i < t.size) (hk : t.kind i = k)
    (hmem : k ∈ [Kind.index, .indexColumnBlock, .indexBlock]) :
    ∃ p, t.parent i = some p ∧ p < t.size ∧ t.kind p = above k := by
  have hne : t.kind i ≠ .sourceFile := by
    rintro hsource
    rw [← hk, hsource] at hmem
    exact absurd hmem (by decide)
  obtain ⟨p, hp, hholds⟩ := exists_parent h hi hne
  obtain ⟨hlt, -⟩ := h.nested.parent_lt hp
  exact ⟨p, hp, hlt.trans hi, eq_above hmem (hk ▸ hholds)⟩

theorem plain (hi : i < t.size) : (t.kind i).isLiteralOrComment = false ∧ t.kind i ≠ .error := by
  by_cases hk : t.kind i = .sourceFile
  · rw [hk]
    decide
  · obtain ⟨p, -, hholds⟩ := exists_parent h hi hk
    exact plain_of_mem_holds hholds

theorem kind_below (hy : x ∈ t.ancestors y) : t.kind y ∈ below (t.kind x) := by
  rw [Tree.ancestors_eq_path] at hy
  induction y using Nat.strong_induction_on with
  | _ y ih =>
    obtain ⟨p, hp, hlt, hxp⟩ := mem_path.mp hy
    have hholds := h.kinds y p hp
    rcases List.mem_cons.mp hxp with rfl | hxp
    · exact mem_below_of_mem_holds hholds
    · exact mem_below_trans _ _ (ih p hlt hxp) _ hholds

theorem errorAt_eq_none : t.errorAt offset = none := by
  have herrors : t.errors = [] := by
    refine List.filter_eq_nil_iff.mpr fun i hi => ?_
    simpa using (plain h (List.mem_range.mp hi)).2
  rw [Tree.errorAt, herrors]
  rfl

theorem detect_eq (ho : offset ≤ size source) (hx : x < t.size)
    (hr : x = 0 ∨ t.reaches offset x)
    (hbelow : ∀ y, x ∈ t.ancestors y → Covers t (t.kind y) offset y → Silent source t offset y) :
    detect source t offset = contextOnPath source t offset false (x :: t.ancestors x) := by
  have hmem := h.nested.mem_resolve offset
  have hnode : t.resolve offset < t.size := by
    rcases (hmem _).mp List.mem_cons_self with hzero | hlt
    · exact hzero ▸ t.nonempty
    · exact hlt.1
  have hpath : detect source t offset =
      contextOnPath source t offset false (t.resolve offset :: t.ancestors (t.resolve offset)) := by
    unfold detect
    simp [Nat.min_eq_left ho, (plain h hnode).1, errorAt_eq_none h]
  have hxpath := (hmem x).mpr (hr.imp_right fun hr => ⟨hx, hr⟩)
  rw [Tree.ancestors_eq_path] at hxpath hmem
  obtain ⟨front, heq, hfront⟩ := cons_path_eq_append hxpath
  rw [hpath, Tree.ancestors_eq_path, Tree.ancestors_eq_path, heq]
  -- all nodes in front of `x` are below it and reach the offset
  refine contextOnPath_append fun y hy => ?_
  have hxy := hfront y hy
  have hyr := (hmem y).mp (heq ▸ List.mem_append_left _ hy)
  have hy0 : y ≠ 0 := ((Nat.zero_le x).trans_lt (lt_of_mem_path hxy)).ne'
  obtain ⟨hys, hyr⟩ := hyr.resolve_left hy0
  exact hbelow y (by rwa [Tree.ancestors_eq_path]) (covers_of_reaches hys hyr)

/-! ## Columns and index columns -/

theorem silent_of_below (hplain : ∀ k ∈ below (t.kind x), ¬HasRule k) (hy : x ∈ t.ancestors y) :
    Silent source t offset y :=
  silent_of_not_hasRule (hplain _ (kind_below h hy))

theorem detect_column (ho : offset ≤ size source) (hc : Covers t .column offset x) :
    detect source t offset = some (.column x) := by
  have hplain : ∀ k ∈ below (t.kind x), ¬HasRule k := by
    rw [hc.2.1]
    decide
  rw [detect_eq h ho hc.1 (.inr hc.reaches) fun y hy _ => silent_of_below h hplain hy,
    contextOnPath, hc.2.1]
  rfl

theorem exists_table (hx : x < t.size) (hk : t.kind x = .indexColumnBlock) :
    ∃ table, t.Nearest .tableBlock x table := by
  obtain ⟨i, hi, his, hik⟩ := exists_above h hx hk (by decide)
  obtain ⟨ib, hib, hibs, hibk⟩ := exists_above h his hik (by decide)
  obtain ⟨tb, htb, htbs, htbk⟩ := exists_above h hibs hibk (by decide)
  have hmem : t.hasAncestor x .tableBlock := by
    refine Tree.hasAncestor_iff.mpr ⟨tb, ?_, htbk⟩
    rw [Tree.ancestors_eq_path, path_of_some hi (h.nested.parent_lt hi).1,
      path_of_some hib (h.nested.parent_lt hib).1, path_of_some htb (h.nested.parent_lt htb).1]
    simp
  obtain ⟨table, htable⟩ := Option.isSome_iff_exists.mp hmem
  exact ⟨table, Tree.ancestor?_eq_some.mp htable⟩

theorem detect_indexColumns (ho : offset ≤ size source)
    (hb : Covers t .indexColumnBlock offset x) :
    ∃ table, t.Nearest .tableBlock x table ∧
      detect source t offset = some (.indexColumns x table) := by
  obtain ⟨table, htable⟩ := exists_table h hb.1 hb.2.1
  refine ⟨table, htable, ?_⟩
  have hplain : ∀ k ∈ below (t.kind x), ¬HasRule k := by
    rw [hb.2.1]
    decide
  rw [detect_eq h ho hb.1 (.inr hb.reaches) fun y hy _ => silent_of_below h hplain hy,
    contextOnPath, hb.2.1]
  simp only [Tree.ancestor?_eq_some.mpr htable]

/-! ## Indexes -/

theorem lastChild_eq (hi : i < t.size) : (t.node i).lastChild = (t.children i).getLast? := by
  rw [h.nested.linked.children_eq hi, h.nested.linked.lastChild_eq hi]

theorem indexTypeContext_at_stop (hi : i < t.size) {b : ℕ} (hchildren : t.children i = [b, m])
    (hstop : t.stop m = t.stop i) :
    ∃ start hasUnique hasMethod, indexTypeContext source t i (t.stop i) =
      some (.indexType i start hasUnique hasMethod) := by
  have hm : m ∈ t.children i := by
    rw [hchildren]
    simp
  have hmi := (h.nested.linked.mem_children hi).mp hm
  obtain ⟨piece, hpiece⟩ := h.spans m (h.nested.parent_lt hmi).2
  rw [hstop] at hpiece
  unfold indexTypeContext
  simp [lastChild_eq h hi, hchildren, hstop, hpiece]

theorem indexTypeContext_eq_none (hi : i < t.size) (hlast : (t.children i).getLast? = some m)
    (hlt : offset < t.stop m) : indexTypeContext source t i offset = none := by
  unfold indexTypeContext
  simp [lastChild_eq h hi, hlast, hlt]

/-- The columns below an index are its own, for no index is below another. -/
theorem parent_of_below_index (hk : t.kind i = .index) (hy : i ∈ t.ancestors y)
    (hyk : t.kind y = .indexColumnBlock) : t.parent y = some i := by
  have hys := h.nested.lt_size_of_mem_ancestors hy
  obtain ⟨p, hp, -, hpk⟩ := exists_above h hys hyk (by decide)
  rw [Tree.ancestors_eq_path, path_of_some hp (h.nested.parent_lt hp).1,
    ← Tree.ancestors_eq_path] at hy
  rcases List.mem_cons.mp hy with rfl | hy
  · exact hp
  · have hkinds := kind_below h hy
    rw [hpk, hk] at hkinds
    exact absurd hkinds (by decide)

theorem silent_at_stop {b : ℕ} (hi : i < t.size) (hk : t.kind i = .index)
    (hchildren : t.children i = [b, m]) (hmk : t.kind m = .indexType) (hb : t.stop b < t.stop i)
    (hy : i ∈ t.ancestors y) (hcovers : Covers t (t.kind y) (t.stop i) y) :
    Silent source t (t.stop i) y := by
  have honly : ∀ k ∈ below .index, HasRule k → k = .indexColumnBlock := by
    decide
  refine silent_of_not_hasRule fun hrule => ?_
  have hyk := honly _ (hk ▸ kind_below h hy) hrule
  have hmem := (h.nested.linked.mem_children hi).mpr (parent_of_below_index h hk hy hyk)
  rw [hchildren, List.mem_pair] at hmem
  rcases hmem with rfl | rfl
  · obtain ⟨-, -, -, hstop⟩ := hcovers
    omega
  · rw [hmk] at hyk
    cases hyk

theorem detect_indexType (ho : offset ≤ size source) (hi : AtType t offset i) :
    ∃ start hasUnique hasMethod,
      detect source t offset = some (.indexType i start hasUnique hasMethod) := by
  obtain ⟨his, hik, ⟨m, hm, hmk⟩, rfl⟩ := hi
  obtain ⟨b, hbk, hbstart, hblt, hshape⟩ := h.index i his hik
  obtain ⟨hone, -⟩ | ⟨m', htwo, hmk', hbm, hle, hstop⟩ := hshape
  · rw [hone, List.mem_singleton] at hm
    rw [hm, hbk] at hmk
    cases hmk
  · have hreaches : t.reaches (t.stop i) i := by
      simp only [Tree.reaches, Bool.and_eq_true, decide_eq_true_iff]
      omega
    obtain ⟨start, hasUnique, hasMethod, hcontext⟩ := indexTypeContext_at_stop h his htwo hstop
    refine ⟨start, hasUnique, hasMethod, ?_⟩
    rw [detect_eq h ho his (.inr hreaches) fun y => silent_at_stop h his hik htwo hmk' (by omega),
      contextOnPath, hik]
    simp only [hcontext]

/-! ## Elsewhere in index blocks -/

theorem cases_index (hi : Covers t .index offset i) :
    (∃ b, Covers t .indexColumnBlock offset b) ∨ AtType t offset i ∨
      ∃ m, (t.children i).getLast? = some m ∧ t.stop m = t.stop i ∧ offset < t.stop m := by
  obtain ⟨his, hik, hstart, hle⟩ := hi
  obtain ⟨b, hbk, hbstart, hblt, hshape⟩ := h.index i his hik
  obtain ⟨hone, hstop⟩ | ⟨m, htwo, hmk, hbm, hmle, hstop⟩ := hshape
  · have hb : t.parent b = some i := by
      rw [← h.nested.linked.mem_children his, hone]
      exact List.mem_singleton_self b
    exact .inl ⟨b, (h.nested.parent_lt hb).2, hbk, by omega, by omega⟩
  · rcases hle.eq_or_lt with heq | hlt
    · exact .inr (.inl ⟨his, hik, ⟨m, by simp [htwo], hmk⟩, heq⟩)
    · exact .inr (.inr ⟨m, by rw [htwo]; rfl, hstop, hstop ▸ hlt⟩)

theorem indexTypeContext_of_index (hi : Covers t .index offset i)
    (hcolumns : ∀ b, ¬Covers t .indexColumnBlock offset b) (htype : ∀ i, ¬AtType t offset i) :
    indexTypeContext source t i offset = none := by
  rcases cases_index h hi with ⟨b, hb⟩ | hat | ⟨m, hlast, -, hlt⟩
  · exact absurd hb (hcolumns b)
  · exact absurd hat (htype i)
  · exact indexTypeContext_eq_none h hi.1 hlast hlt

theorem lineEnd_mem (hi : i < t.size) (hik : t.kind i = .index) {gap : String}
    (hlt : t.stop i < offset) (hgap : slice? source (t.stop i) offset = some gap) :
    '\n' ∈ gap.toList := by
  obtain ⟨before, rest, hsource, hlen⟩ := h.lineEnd i hi hik
  rw [slice?, sliceChars?, if_pos hlt.le, hsource, ← hlen, splitAt?_byteLength,
    Option.bind_some] at hgap
  obtain ⟨piece, hpiece, rfl⟩ := Option.map_eq_some_iff.mp hgap
  obtain ⟨⟨first, last⟩, hcut, rfl⟩ := Option.map_eq_some_iff.mp hpiece
  obtain ⟨happend, hfirst⟩ := append_of_splitAt? hcut
  cases first with
  | nil =>
    rw [byteLength_nil] at hfirst
    omega
  | cons c first =>
    obtain ⟨rfl, -⟩ := List.cons.inj happend
    simp

theorem indexOnLine_eq_none {ib : ℕ} (hib : ib < t.size)
    (hcolumns : ∀ b, ¬Covers t .indexColumnBlock offset b) (htype : ∀ i, ¬AtType t offset i) :
    indexOnLine source t ib offset = none := by
  unfold indexOnLine
  cases hlast : ((t.childrenOf ib .index).filter fun i => decide (t.stop i ≤ offset)).getLast? with
  | none => rfl
  | some i =>
    have hmem := List.mem_of_getLast? hlast
    simp only [Tree.childrenOf, List.mem_filter, decide_eq_true_iff] at hmem
    obtain ⟨⟨hi, hik⟩, hle⟩ := hmem
    have his := (h.nested.parent_lt ((h.nested.linked.mem_children hib).mp hi)).2
    have hne : t.stop i ≠ offset := by
      rintro rfl
      obtain ⟨b, -, hbstart, hblt, hshape⟩ := h.index i his hik
      have hstart : t.start i < t.stop i := by
        obtain ⟨-, hstop⟩ | ⟨m, -, -, hbm, hmle, hstop⟩ := hshape <;> omega
      rcases cases_index h ⟨his, hik, hstart, le_rfl⟩ with ⟨b, hb⟩ | hat | ⟨m, -, hstop, hlt⟩
      · exact hcolumns b hb
      · exact htype i hat
      · omega
    cases hgap : slice? source (t.stop i) offset with
    | none => simp only [hgap]
    | some gap =>
      have hnewline := lineEnd_mem h his hik (by omega) hgap
      simp [hgap, hnewline]

theorem detect_indexBlock (ho : offset ≤ size source) {ib : ℕ}
    (hib : Covers t .indexBlock offset ib) (hcolumns : ∀ b, ¬Covers t .indexColumnBlock offset b)
    (htype : ∀ i, ¬AtType t offset i) : detect source t offset = none := by
  have honly : ∀ k ∈ below .indexBlock, HasRule k → k = .index ∨ k = .indexColumnBlock := by
    decide
  have hbelow : ∀ y, ib ∈ t.ancestors y → Covers t (t.kind y) offset y →
      Silent source t offset y := by
    intro y hy hcovers
    by_cases hrule : HasRule (t.kind y)
    · rcases honly _ (hib.2.1 ▸ kind_below h hy) hrule with hyk | hyk <;> rw [hyk] at hcovers
      · exact silent_of_index hyk (indexTypeContext_of_index h hcovers hcolumns htype)
      · exact absurd hcovers (hcolumns y)
    · exact silent_of_not_hasRule hrule
  rw [detect_eq h ho hib.1 (.inr hib.reaches) hbelow, contextOnPath, hib.2.1]
  simp only [indexOnLine_eq_none h hib.1 hcolumns htype, Option.bind_none]

/-! ## Tables and the script -/

theorem Covers.above (hi : Covers t k offset i)
    (hmem : k ∈ [Kind.index, .indexColumnBlock, .indexBlock]) :
    ∃ p, Covers t (Completion.above k) offset p := by
  obtain ⟨p, hp, hps, hpk⟩ := exists_above h hi.1 hi.2.1 hmem
  exact ⟨p, hpk ▸ covers_of_reaches hps (h.nested.reaches_parent hp hi.reaches)⟩

theorem detect_tableBody (ho : offset ≤ size source) {tb : ℕ}
    (htb : Covers t .tableBlock offset tb) (hcolumn : ∀ c, ¬Covers t .column offset c)
    (hblock : ∀ ib, ¬Covers t .indexBlock offset ib) :
    detect source t offset = some (.tableBody tb) := by
  have hindex : ∀ i, ¬Covers t .index offset i := by
    intro i hi
    obtain ⟨ib, hib⟩ := hi.above h (by decide)
    exact hblock ib hib
  have hcolumns : ∀ b, ¬Covers t .indexColumnBlock offset b := by
    intro b hb
    obtain ⟨i, hi⟩ := hb.above h (by decide)
    exact hindex i hi
  have honly : ∀ k ∈ below .tableBlock, HasRule k →
      k = .column ∨ k = .indexBlock ∨ k = .index ∨ k = .indexColumnBlock := by
    decide
  have hbelow : ∀ y, tb ∈ t.ancestors y → Covers t (t.kind y) offset y →
      Silent source t offset y := by
    intro y hy hcovers
    refine silent_of_not_hasRule fun hrule => ?_
    rcases honly _ (htb.2.1 ▸ kind_below h hy) hrule with hyk | hyk | hyk | hyk <;>
      rw [hyk] at hcovers
    · exact hcolumn y hcovers
    · exact hblock y hcovers
    · exact hindex y hcovers
    · exact hcolumns y hcovers
  rw [detect_eq h ho htb.1 (.inr htb.reaches) hbelow, contextOnPath, htb.2.1]

theorem detect_script (ho : offset ≤ size source)
    (htable : ∀ tb, ¬Covers t .tableBlock offset tb) : detect source t offset = some .script := by
  have hbelow : ∀ y, 0 ∈ t.ancestors y → Covers t (t.kind y) offset y →
      Silent source t offset y := by
    intro y hy hcovers
    rw [Tree.ancestors_eq_path] at hy
    obtain ⟨c, hcy, hc, -⟩ := exists_child_of_mem_path hy
    have hck := h.kinds c 0 hc
    rw [h.root, holds, List.mem_singleton] at hck
    have hreaches := h.nested.reaches_of_mem_path hcy hcovers.reaches
    exact absurd (hck ▸ covers_of_reaches (h.nested.parent_lt hc).2 hreaches) (htable c)
  rw [detect_eq h ho t.nonempty (.inl rfl) hbelow, contextOnPath, h.root]

end

/-- The context at every offset of written tables. -/
theorem detect_render (tables : List Table) (offset : ℕ)
    (ho : offset ≤ size (render tables).source) :
    let source := (render tables).source
    let t := (render tables).tree
    (∀ c, Covers t .column offset c → detect source t offset = some (.column c)) ∧
    (∀ b, Covers t .indexColumnBlock offset b → ∃ table, t.Nearest .tableBlock b table ∧
      detect source t offset = some (.indexColumns b table)) ∧
    (∀ i, AtType t offset i → ∃ start hasUnique hasMethod,
      detect source t offset = some (.indexType i start hasUnique hasMethod)) ∧
    (∀ ib, Covers t .indexBlock offset ib → (∀ b, ¬Covers t .indexColumnBlock offset b) →
      (∀ i, ¬AtType t offset i) → detect source t offset = none) ∧
    (∀ tb, Covers t .tableBlock offset tb → (∀ c, ¬Covers t .column offset c) →
      (∀ ib, ¬Covers t .indexBlock offset ib) → detect source t offset = some (.tableBody tb)) ∧
    ((∀ tb, ¬Covers t .tableBlock offset tb) → detect source t offset = some .script) := by
  intro source t
  have h : Written source t := written_render tables
  refine ⟨?_, ?_, ?_, ?_, ?_, ?_⟩
  · exact fun c hc => detect_column h ho hc
  · exact fun b hb => detect_indexColumns h ho hb
  · exact fun i hi => detect_indexType h ho hi
  · exact fun ib hib hcolumns htype => detect_indexBlock h ho hib hcolumns htype
  · exact fun tb htb hcolumn hblock => detect_tableBody h ho htb hcolumn hblock
  · exact fun htable => detect_script h ho htable

theorem detect_render_behind_type :
    let d := render [⟨"t", [("a", "b")], [⟨["a"], some "btree"⟩]⟩]
    41 ≤ size d.source ∧ AtType d.tree 41 14 ∧ ∃ start hasUnique hasMethod,
      detect d.source d.tree 41 = some (.indexType 14 start hasUnique hasMethod) := by
  intro d
  have ho : 41 ≤ size d.source := by
    decide +kernel
  have htype : AtType d.tree 41 14 :=
    ⟨by decide +kernel, by decide +kernel, by decide +kernel, by decide +kernel⟩
  exact ⟨ho, htype, (detect_render _ 41 ho).2.2.1 14 htype⟩

end SchemaAssist.Completion

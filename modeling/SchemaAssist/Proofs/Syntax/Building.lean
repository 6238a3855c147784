import SchemaAssist.Syntax.Builder
import SchemaAssist.Proofs.Syntax.Walks

/-! # Building keeps the links sound

Whatever is reported, the nodes not yet finished are a node on the last path and its ancestors. So
a new node extends the preorder, and it becomes the youngest child of the innermost of them.
-/
namespace SchemaAssist.Syntax.Builder

variable {b : Builder} {kind : Kind} {pos i j p : ℕ}

/-- Where the children of the innermost node end so far. -/
def prevOf (b : Builder) : Option ℕ := b.unclosed.head?.bind fun p => b.nodes[p]?.bind (·.lastChild)

/-- The node that starts, before any other node hangs from it. -/
def fresh (b : Builder) (kind : Kind) (pos : ℕ) : Node :=
  { Node.alone kind pos pos with parent := b.unclosed.head?, prevSibling := b.prevOf }

/-- What the start of node `id` changes in node `i`. -/
def relink (id : ℕ) (parent prev : Option ℕ) (i : ℕ) (nd : Node) : Node :=
  { nd with
    firstChild := if parent = some i then nd.firstChild.or (some id) else nd.firstChild
    lastChild := if parent = some i then some id else nd.lastChild
    nextSibling := if prev = some i then some id else nd.nextSibling }

/-- Where the innermost node ends if it finishes at a position. -/
def stopAt (b : Builder) (pos : ℕ) (i : ℕ) (nd : Node) : Node :=
  { nd with
    stop :=
      if b.unclosed.head? = some i then max (max pos nd.start) ((nd.lastChild.map b.stopOf).getD 0)
      else nd.stop }

theorem getElem?_modify_eq_map (nodes : Array Node) (f : Node → Node) (q i : ℕ) :
    (nodes.modify q f)[i]? = nodes[i]?.map fun nd => if q = i then f nd else nd := by
  rw [Array.getElem?_modify]
  by_cases hq : q = i
  · simp only [if_pos hq]
  · simp only [if_neg hq, Option.map_id']

theorem getElem?_link (nodes : Array Node) (id : ℕ) (parent prev : Option ℕ) (i : ℕ) :
    (link nodes id parent prev)[i]? = nodes[i]?.map (relink id parent prev i) := by
  cases parent <;> cases prev <;>
    simp only [link, getElem?_modify_eq_map, Option.map_map] <;>
    cases nodes[i]? <;>
    simp only [Option.map_none, Option.map_some, Option.some_inj, Function.comp, relink,
      Option.some_inj, reduceCtorEq, if_false] <;>
    split_ifs <;> rfl

theorem size_link (nodes : Array Node) (id : ℕ) (parent prev : Option ℕ) :
    (link nodes id parent prev).size = nodes.size := by
  cases parent <;> cases prev <;> simp [link]

theorem getElem?_start (b : Builder) (kind : Kind) (pos i : ℕ) :
    (b.start kind pos).nodes[i]? =
      (if i = b.nodes.size then some (b.fresh kind pos) else b.nodes[i]?).map
        (relink b.nodes.size b.unclosed.head? b.prevOf i) := by
  rw [← Array.getElem?_push]
  exact getElem?_link _ _ _ _ i

theorem cases_start {nd : Node} (hnd : (b.start kind pos).nodes[i]? = some nd) :
    (i = b.nodes.size ∧ nd = relink b.nodes.size b.unclosed.head? b.prevOf i (b.fresh kind pos)) ∨
      (i < b.nodes.size ∧ ∃ old, b.nodes[i]? = some old ∧
        nd = relink b.nodes.size b.unclosed.head? b.prevOf i old) := by
  rw [getElem?_start] at hnd
  by_cases hi : i = b.nodes.size
  · rw [if_pos hi, Option.map_some] at hnd
    exact .inl ⟨hi, (Option.some.inj hnd).symm⟩
  · rw [if_neg hi] at hnd
    obtain ⟨old, hold, rfl⟩ := Option.map_eq_some_iff.mp hnd
    exact .inr ⟨(Array.getElem?_eq_some_iff.mp hold).1, old, hold, rfl⟩

theorem stopOf_start (kind : Kind) (pos : ℕ) (hi : i < b.nodes.size) :
    (b.start kind pos).stopOf i = b.stopOf i := by
  rw [stopOf, stopOf, getElem?_start, if_neg hi.ne, Option.map_map]
  rfl

theorem size_start (b : Builder) (kind : Kind) (pos : ℕ) :
    (b.start kind pos).nodes.size = b.nodes.size + 1 := by
  rw [start, size_link, Array.size_push]

theorem unclosed_start (b : Builder) (kind : Kind) (pos : ℕ) :
    (b.start kind pos).unclosed = b.nodes.size :: b.unclosed := rfl

theorem getElem?_finish (b : Builder) (pos i : ℕ) :
    (b.finish pos).nodes[i]? = b.nodes[i]?.map (b.stopAt pos i) := by
  unfold finish
  cases hu : b.unclosed with
  | nil => cases b.nodes[i]? <;> simp [stopAt, hu]
  | cons k rest =>
    cases h : b.nodes[i]? with
    | none => simp [Array.getElem?_modify, h]
    | some nd =>
      by_cases hk : k = i
      · subst hk
        simp [Array.getElem?_modify, stopAt, hu, h]
      · simp [Array.getElem?_modify, stopAt, hu, h, hk]

theorem unclosed_finish (b : Builder) (pos : ℕ) : (b.finish pos).unclosed = b.unclosed.tail := by
  unfold finish
  cases hu : b.unclosed with
  | nil => exact hu
  | cons i rest => rfl

theorem size_finish (b : Builder) (pos : ℕ) : (b.finish pos).nodes.size = b.nodes.size := by
  unfold finish
  cases b.unclosed with
  | nil => rfl
  | cons i rest => exact Array.size_modify

theorem up_finish (b : Builder) (pos : ℕ) : up (b.finish pos).nodes = up b.nodes := by
  funext i
  rw [up, up, getElem?_finish, Option.bind_map]
  rfl

theorem stopOf_finish (h : b.unclosed.head? ≠ some i) : (b.finish pos).stopOf i = b.stopOf i := by
  rw [stopOf, stopOf, getElem?_finish]
  cases b.nodes[i]? with
  | none => rfl
  | some nd => simp [stopAt, h]

/-! ## Relatives after a start -/

theorem up_start (b : Builder) (kind : Kind) (pos i : ℕ) : up (b.start kind pos).nodes i =
    if i = b.nodes.size then b.unclosed.head? else up b.nodes i := by
  rw [up, getElem?_start, Option.bind_map]
  by_cases hi : i = b.nodes.size
  · simp [hi, fresh, relink]
  · simp only [hi, if_false]
    rfl

theorem path_start (kind : Kind) (pos : ℕ) (hi : i < b.nodes.size) :
    path (up (b.start kind pos).nodes) i = path (up b.nodes) i := by
  refine path_congr fun j hj => ?_
  rw [up_start, if_neg (by omega)]

theorem kids_start (b : Builder) (kind : Kind) (pos i : ℕ) : kids (b.start kind pos).nodes i =
    kids b.nodes i ++ if b.unclosed.head? = some i then [b.nodes.size] else [] := by
  rw [kids, size_start, List.range_succ, List.filter_append]
  congr 1
  · refine List.filter_congr fun j hj => ?_
    rw [up_start, if_neg (List.mem_range.mp hj).ne]
  · simp only [List.filter_singleton, up_start, if_true, Bool.cond_decide]

theorem siblings_start (kind : Kind) (pos : ℕ) (hi : i < b.nodes.size) :
    siblings (b.start kind pos).nodes i = siblings b.nodes i ++
      if ∃ p, b.unclosed.head? = some p ∧ up b.nodes i = some p then [b.nodes.size] else [] := by
  unfold siblings
  rw [up_start, if_neg hi.ne]
  cases up b.nodes i with
  | none => simp
  | some p => simp [kids_start]

theorem younger_start (kind : Kind) (pos : ℕ) (hi : i < b.nodes.size) :
    younger (b.start kind pos).nodes i = younger b.nodes i ++
      if ∃ p, b.unclosed.head? = some p ∧ up b.nodes i = some p then [b.nodes.size] else [] := by
  rw [younger, siblings_start kind pos hi, List.filter_append]
  congr 1
  split_ifs
  · simp [hi]
  · rfl

theorem older_start (kind : Kind) (pos : ℕ) (hi : i < b.nodes.size) :
    older (b.start kind pos).nodes i = older b.nodes i := by
  rw [older, siblings_start kind pos hi, List.filter_append]
  split_ifs
  · simp [older, hi.le]
  · simp [older]

theorem siblings_size (b : Builder) (kind : Kind) (pos : ℕ) : siblings (b.start kind pos).nodes b.nodes.size =
    (b.unclosed.head?.elim [] (kids b.nodes)) ++
      if b.unclosed.head?.isSome then [b.nodes.size] else [] := by
  unfold siblings
  rw [up_start, if_pos rfl]
  cases hp : b.unclosed.head? with
  | none => rfl
  | some p => simp [kids_start, hp]

theorem younger_size (b : Builder) (kind : Kind) (pos : ℕ) :
    younger (b.start kind pos).nodes b.nodes.size = [] := by
  refine List.eq_nil_iff_forall_not_mem.mpr fun j hj => ?_
  obtain ⟨hlt, p, -, hp⟩ := mem_younger.mp hj
  have := lt_size_of_up hp
  rw [size_start] at this
  omega

theorem older_size (b : Builder) (kind : Kind) (pos : ℕ) : older (b.start kind pos).nodes b.nodes.size =
    b.unclosed.head?.elim [] (kids b.nodes) := by
  have hall : (b.unclosed.head?.elim [] (kids b.nodes)).filter (· < b.nodes.size) =
      b.unclosed.head?.elim [] (kids b.nodes) := by
    refine List.filter_eq_self.mpr fun j hj => decide_eq_true ?_
    cases hp : b.unclosed.head? with
    | none => simp [hp] at hj
    | some p =>
      rw [hp, Option.elim_some] at hj
      exact (mem_kids.mp hj).1
  rw [older, siblings_size, List.filter_append, hall]
  split_ifs <;> simp

/-! ## Sound builders -/

structure Sound (b : Builder) : Prop where
  linked : Linked b.nodes
  /-- The unfinished nodes are a node on the path of the last one, and its ancestors. -/
  chain : ∀ p rest, b.unclosed = p :: rest →
    rest = path (up b.nodes) p ∧ ∃ i, i + 1 = b.nodes.size ∧ p ∈ i :: path (up b.nodes) i
  ordered : ∀ (i : ℕ) (nd : Node), b.nodes[i]? = some nd → nd.start ≤ nd.stop
  /-- A finished node ends after its last child, which is finished too. -/
  covered : ∀ (i : ℕ) (nd : Node), b.nodes[i]? = some nd → i ∉ b.unclosed → ∀ c, nd.lastChild = some c →
    c ∉ b.unclosed ∧ b.stopOf c ≤ nd.stop

namespace Sound
variable (h : Sound b)
include h

theorem unclosed_eq (hp : b.unclosed.head? = some p) :
    b.unclosed = p :: path (up b.nodes) p ∧ p < b.nodes.size := by
  obtain ⟨rest, hrest⟩ := List.head?_eq_some_iff.mp hp
  obtain ⟨rfl, i, hi, hpi⟩ := h.chain p rest hrest
  have := le_of_mem_cons_path hpi
  exact ⟨hrest, by omega⟩

/-- Only the innermost of the unfinished nodes can be its number. -/
theorem notMem_tail (hp : b.unclosed.head? = some p) (hi : p ≤ i) : i ∉ b.unclosed.tail := by
  intro hmem
  rw [(h.unclosed_eq hp).1, List.tail_cons] at hmem
  exact absurd (lt_of_mem_path hmem) hi.not_gt

theorem mem_prevOf : b.prevOf = some i ↔
    ∃ p, b.unclosed.head? = some p ∧ up b.nodes i = some p ∧ younger b.nodes i = [] := by
  rw [prevOf, Option.bind_eq_some_iff]
  refine exists_congr fun p => and_congr_right fun hp => ?_
  have hnode := Array.getElem?_eq_getElem (h.unclosed_eq hp).2
  rw [hnode, Option.bind_some, h.linked.last p _ hnode, getLast?_eq_iff (pairwise_kids _ _)]
  simp only [mem_kids_iff_up]
  refine and_congr_right fun hi => ?_
  rw [List.eq_nil_iff_forall_not_mem]
  constructor
  · intro hmax a ha
    obtain ⟨hia, q, hq, ha⟩ := mem_younger.mp ha
    obtain rfl : p = q := Option.some.inj (hi.symm.trans hq)
    exact absurd (hmax a ha) hia.not_ge
  · intro hnone a ha
    by_contra hia
    exact hnone a (mem_younger.mpr ⟨Nat.lt_of_not_le hia, p, hi, ha⟩)

theorem kids_size : kids b.nodes b.nodes.size = [] := by
  refine List.eq_nil_iff_forall_not_mem.mpr fun j hj => ?_
  obtain ⟨hlt, hup⟩ := mem_kids.mp hj
  exact absurd (h.linked.preorder.below j _ hup) hlt.not_gt

theorem prevOf_eq : b.prevOf = (b.unclosed.head?.elim [] (kids b.nodes)).getLast? := by
  unfold prevOf
  cases hp : b.unclosed.head? with
  | none => rfl
  | some p =>
    have hnode := Array.getElem?_eq_getElem (h.unclosed_eq hp).2
    rw [Option.bind_some, hnode, Option.bind_some, h.linked.last p _ hnode, Option.elim_some]

theorem preorder_start (kind : Kind) (pos : ℕ) : Preorder (up (b.start kind pos).nodes) where
  below := by
    intro i p hp
    rw [up_start] at hp
    by_cases hi : i = b.nodes.size
    · rw [if_pos hi] at hp
      exact hi ▸ (h.unclosed_eq hp).2
    · rw [if_neg hi] at hp
      exact h.linked.preorder.below i p hp
  near := by
    intro i p hp
    rw [up_start] at hp
    by_cases hi : i + 1 = b.nodes.size
    · rw [if_pos hi] at hp
      obtain ⟨rest, hrest⟩ := List.head?_eq_some_iff.mp hp
      obtain ⟨-, j, hj, hpj⟩ := h.chain p rest hrest
      obtain rfl : j = i := by omega
      rwa [path_start kind pos (by omega)]
    · rw [if_neg hi] at hp
      have hlt := lt_size_of_up hp
      rw [path_start kind pos (by omega)]
      exact h.linked.preorder.near i p hp

theorem head?_ne_size : b.unclosed.head? ≠ some b.nodes.size := by
  intro hp
  exact absurd (h.unclosed_eq hp).2 (lt_irrefl _)

theorem prevOf_ne_size : b.prevOf ≠ some b.nodes.size := by
  intro hp
  obtain ⟨p, -, hup, -⟩ := h.mem_prevOf.mp hp
  exact absurd (lt_size_of_up hup) (lt_irrefl _)

/-- The new node has no relatives but older siblings, and for the others it is the youngest one. -/
theorem linked_start (kind : Kind) (pos : ℕ) : Linked (b.start kind pos).nodes where
  preorder := h.preorder_start kind pos
  first := by
    intro i nd hnd
    rw [kids_start, List.head?_append]
    rcases cases_start hnd with ⟨rfl, rfl⟩ | ⟨hi, old, hold, rfl⟩
    · simp [relink, h.head?_ne_size, fresh, Node.alone, h.kids_size]
    · simp only [relink, h.linked.first i old hold]
      split_ifs <;> simp
  last := by
    intro i nd hnd
    rw [kids_start, List.getLast?_append]
    rcases cases_start hnd with ⟨rfl, rfl⟩ | ⟨hi, old, hold, rfl⟩
    · simp [relink, h.head?_ne_size, fresh, Node.alone, h.kids_size]
    · simp only [relink, h.linked.last i old hold]
      split_ifs <;> simp
  next := by
    intro i nd hnd
    rcases cases_start hnd with ⟨rfl, rfl⟩ | ⟨hi, old, hold, rfl⟩
    · simp [relink, h.prevOf_ne_size, fresh, Node.alone, younger_size]
    · rw [younger_start kind pos hi, List.head?_append]
      simp only [relink, h.linked.next i old hold]
      by_cases hlast : b.prevOf = some i
      · obtain ⟨p, hp, hup, hnone⟩ := h.mem_prevOf.mp hlast
        rw [if_pos hlast, if_pos ⟨p, hp, hup⟩, hnone]
        rfl
      · rw [if_neg hlast]
        split_ifs with hsib
        · obtain ⟨p, hp, hup⟩ := hsib
          have hsome : younger b.nodes i ≠ [] :=
            fun hnone => hlast (h.mem_prevOf.mpr ⟨p, hp, hup, hnone⟩)
          obtain ⟨y, rest, hy⟩ := List.exists_cons_of_ne_nil hsome
          rw [hy]
          rfl
        · rw [List.head?_nil, Option.or_none]
  prev := by
    intro i nd hnd
    rcases cases_start hnd with ⟨rfl, rfl⟩ | ⟨hi, old, hold, rfl⟩
    · simp [relink, fresh, older_size, h.prevOf_eq]
    · rw [older_start kind pos hi]
      exact h.linked.prev i old hold

theorem chain_start (kind : Kind) (pos : ℕ) : ∀ p rest,
    (b.start kind pos).unclosed = p :: rest → rest = path (up (b.start kind pos).nodes) p ∧
      ∃ i, i + 1 = (b.start kind pos).nodes.size ∧
        p ∈ i :: path (up (b.start kind pos).nodes) i := by
  intro p rest hrest
  rw [unclosed_start] at hrest
  obtain ⟨rfl, rfl⟩ := List.cons.inj hrest
  refine ⟨?_, b.nodes.size, (size_start b kind pos).symm, List.mem_cons_self⟩
  have hup : up (b.start kind pos).nodes b.nodes.size = b.unclosed.head? := by
    rw [up_start, if_pos rfl]
  cases hp : b.unclosed.head? with
  | none => rw [path_of_none (hup.trans hp), List.head?_eq_none_iff.mp hp]
  | some q =>
    obtain ⟨heq, hlt⟩ := h.unclosed_eq hp
    rw [path_of_some (hup.trans hp) hlt, path_start kind pos hlt, heq]

protected theorem start (kind : Kind) (pos : ℕ) : Sound (b.start kind pos) where
  linked := h.linked_start kind pos
  chain := h.chain_start kind pos
  ordered := by
    intro i nd hnd
    rcases cases_start hnd with ⟨rfl, rfl⟩ | ⟨hi, old, hold, rfl⟩
    · exact le_rfl
    · exact h.ordered i old hold
  covered := by
    intro i nd hnd hmem c hc
    rw [unclosed_start, List.mem_cons, not_or] at hmem ⊢
    rcases cases_start hnd with ⟨rfl, -⟩ | ⟨hi, old, hold, rfl⟩
    · exact absurd rfl hmem.1
    · have hhead : b.unclosed.head? ≠ some i := fun hp => hmem.2 (List.mem_of_mem_head? hp)
      have hlast : old.lastChild = some c := by
        simpa only [relink, if_neg hhead] using hc
      obtain ⟨hcu, hle⟩ := h.covered i old hold hmem.2 c hlast
      have hcn : c < b.nodes.size := by
        rw [h.linked.last i old hold, getLast?_eq_iff (pairwise_kids _ _)] at hlast
        exact (mem_kids.mp hlast.1).1
      exact ⟨⟨hcn.ne, hcu⟩, (stopOf_start kind pos hcn).trans_le hle⟩

/-! ### Finishing a node -/

theorem linked_finish (pos : ℕ) : Linked (b.finish pos).nodes := by
  have hkids : kids (b.finish pos).nodes = kids b.nodes := by
    funext i
    rw [kids, kids, up_finish, size_finish]
  have hsib : siblings (b.finish pos).nodes = siblings b.nodes := by
    funext i
    rw [siblings, siblings, up_finish, hkids]
  refine ⟨(up_finish b pos).symm ▸ h.linked.preorder, ?_, ?_, ?_, ?_⟩
  all_goals
    intro i nd hnd
    rw [getElem?_finish] at hnd
    obtain ⟨old, hold, rfl⟩ := Option.map_eq_some_iff.mp hnd
  · exact hkids ▸ h.linked.first i old hold
  · exact hkids ▸ h.linked.last i old hold
  · rw [younger, hsib]
    exact h.linked.next i old hold
  · rw [older, hsib]
    exact h.linked.prev i old hold

theorem chain_finish (pos : ℕ) : ∀ p rest, (b.finish pos).unclosed = p :: rest →
    rest = path (up (b.finish pos).nodes) p ∧ ∃ i, i + 1 = (b.finish pos).nodes.size ∧
      p ∈ i :: path (up (b.finish pos).nodes) i := by
  intro p rest hrest
  rw [up_finish, size_finish]
  cases hu : b.unclosed with
  | nil => simp [unclosed_finish, hu] at hrest
  | cons k tail =>
    obtain ⟨htail, i, hi, hki⟩ := h.chain k tail hu
    rw [unclosed_finish, hu, List.tail_cons, htail] at hrest
    have hpk : p ∈ path (up b.nodes) k := hrest ▸ List.mem_cons_self
    obtain ⟨q, hq, hqk, -⟩ := mem_path.mp hpk
    rw [path_of_some hq hqk] at hrest
    obtain ⟨rfl, rfl⟩ := List.cons.inj hrest
    refine ⟨rfl, i, hi, ?_⟩
    rcases List.mem_cons.mp hki with rfl | hki
    · exact List.mem_cons_of_mem _ hpk
    · exact List.mem_cons_of_mem _ (mem_path_trans hpk hki)

protected theorem finish (pos : ℕ) : Sound (b.finish pos) where
  linked := h.linked_finish pos
  chain := h.chain_finish pos
  ordered := by
    intro i nd hnd
    rw [getElem?_finish] at hnd
    obtain ⟨old, hold, rfl⟩ := Option.map_eq_some_iff.mp hnd
    have := h.ordered i old hold
    simp only [stopAt]
    split_ifs <;> omega
  covered := by
    intro i nd hnd hmem c hc
    rw [getElem?_finish] at hnd
    rw [unclosed_finish] at hmem ⊢
    obtain ⟨old, hold, rfl⟩ := Option.map_eq_some_iff.mp hnd
    have hlast : old.lastChild = some c := hc
    have hic : i < c := by
      rw [h.linked.last i old hold, getLast?_eq_iff (pairwise_kids _ _)] at hlast
      exact h.linked.preorder.below c i (mem_kids_iff_up.mp hlast.1)
    by_cases hi : b.unclosed.head? = some i
    · have hstop : (b.finish pos).stopOf c = b.stopOf c :=
        stopOf_finish fun hp => hic.ne (Option.some.inj (hi.symm.trans hp))
      refine ⟨h.notMem_tail hi hic.le, ?_⟩
      simp only [stopAt, if_pos hi, hlast, Option.map_some, Option.getD_some, hstop]
      exact le_max_right _ _
    · have hiu : i ∉ b.unclosed := by
        intro hiu
        cases hu : b.unclosed with
        | nil => simp [hu] at hiu
        | cons k tail =>
          rw [hu] at hiu hmem hi
          rcases List.mem_cons.mp hiu with rfl | hiu
          · exact hi rfl
          · exact hmem hiu
      obtain ⟨hcu, hle⟩ := h.covered i old hold hiu c hlast
      have hstop : (b.finish pos).stopOf c = b.stopOf c :=
        stopOf_finish fun hp => hcu (List.mem_of_mem_head? hp)
      simp only [stopAt, if_neg hi, hstop]
      exact ⟨fun hct => hcu (List.mem_of_mem_tail hct), hle⟩

/-! ### Whole runs -/

protected theorem leaf (kind : Kind) (start stop : ℕ) : Sound (b.leaf kind start stop) :=
  (h.start kind start).finish stop

protected theorem apply (e : Event) : Sound (b.apply e) := by
  cases e with
  | start kind pos => exact h.start kind pos
  | leaf kind start stop => exact h.leaf kind start stop
  | error pos => exact h.leaf .error pos pos
  | finish pos => exact h.finish pos

theorem foldl_apply (events : List Event) : Sound (events.foldl apply b) := by
  induction events generalizing b with
  | nil => exact h
  | cons e rest ih => exact ih (h.apply e)

theorem finishAll : Sound b.finishAll ∧ b.finishAll.unclosed = [] := by
  unfold Builder.finishAll
  -- each step of the fold takes one node off
  generalize hu : b.unclosed = left
  induction left generalizing b with
  | nil => exact ⟨h, hu⟩
  | cons i rest ih => exact ih (h.finish (b.stopOf i)) (by rw [unclosed_finish, hu, List.tail_cons])

end Sound

theorem sound_new : Sound new where
  linked := by
    refine ⟨⟨?_, ?_⟩, ?_, ?_, ?_, ?_⟩ <;> intro i x hx <;> simp [new, up] at hx
  chain := by
    intro p rest hrest
    simp [new] at hrest
  ordered := by
    intro i nd hnd
    simp [new] at hnd
  covered := by
    intro i nd hnd
    simp [new] at hnd

theorem toTree_cases {P : Builder → Prop} (hall : P b.finishAll)
    (hempty : P (new.leaf .sourceFile 0 0)) : ∃ done, P done ∧ b.toTree.nodes = done.nodes := by
  unfold Builder.toTree
  by_cases hsize : 0 < b.finishAll.nodes.size
  · refine ⟨b.finishAll, hall, ?_⟩
    simp only [hsize, dif_pos]
  · refine ⟨new.leaf .sourceFile 0 0, hempty, ?_⟩
    simp only [hsize, dif_neg, not_false_eq_true]
    rfl

/-- Every tree built stands for a sound builder that has finished all its nodes. -/
theorem Sound.toTree (h : Sound b) :
    ∃ done : Builder, Sound done ∧ done.unclosed = [] ∧ b.toTree.nodes = done.nodes := by
  obtain ⟨done, ⟨hdone, hnil⟩, hnodes⟩ :=
    toTree_cases (P := fun d => Sound d ∧ d.unclosed = []) h.finishAll
      ⟨sound_new.leaf .sourceFile 0 0, rfl⟩
  exact ⟨done, hdone, hnil, hnodes⟩

end SchemaAssist.Syntax.Builder

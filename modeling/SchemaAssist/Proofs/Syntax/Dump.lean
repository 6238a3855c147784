import SchemaAssist.Proofs.Syntax.WellLinked

/-! # What the written form tells

Each node has a line of its own, as quoting leaves no line break in a text. The line tells the depth,
the kind and the span, in signs that cannot run into each other. In a preorder the depths tell the
parents, and the parents all other links, so the written form tells the whole tree.
-/
namespace SchemaAssist.Syntax

/-! ## Depths -/

section
variable {up up' : ℕ → Option ℕ} {n : ℕ}

theorem Preorder.path_zero (h : Preorder up) : path up 0 = [] := by
  refine path_of_none ?_
  cases hp : up 0 with
  | none => rfl
  | some p => exact absurd (h.below 0 p hp) (Nat.not_lt_zero p)

/-- The path of a node goes on with the rest of the path of the node before it. -/
theorem Preorder.path_succ_suffix (h : Preorder up) (i : ℕ) : path up (i + 1) <:+ i :: path up i := by
  cases hp : up (i + 1) with
  | none =>
    rw [path_of_none hp]
    exact List.nil_suffix
  | some p =>
    obtain ⟨front, heq, -⟩ := cons_path_eq_append (h.near i p hp)
    rw [h.path_eq hp]
    exact ⟨front, heq.symm⟩

theorem Preorder.head?_path (h : Preorder up) (i : ℕ) : (path up i).head? = up i := by
  cases hp : up i with
  | none => rw [path_of_none hp, List.head?_nil]
  | some p => rw [h.path_eq hp, List.head?_cons]

theorem Preorder.path_eq_path (h : Preorder up) (h' : Preorder up')
    (hdepth : ∀ i < n, (path up i).length = (path up' i).length) :
    ∀ i < n, path up i = path up' i := by
  intro i hi
  induction i with
  | zero => rw [h.path_zero, h'.path_zero]
  | succ i ih =>
    have hsuffix := h.path_succ_suffix i
    rw [ih (by omega)] at hsuffix
    have hlength := hdepth (i + 1) hi
    exact (List.suffix_of_suffix_length_le hsuffix (h'.path_succ_suffix i) hlength.le).eq_of_length
      hlength

end

/-! ## Links -/

section
variable {nodes nodes' : Array Node}

theorem up_of_size_le {i : ℕ} (hi : nodes.size ≤ i) : up nodes i = none := by
  rw [up, Array.getElem?_eq_none hi, Option.bind_none]

theorem Linked.ext (h : Linked nodes) (h' : Linked nodes') (hsize : nodes.size = nodes'.size)
    (hup : up nodes = up nodes')
    (hspan : ∀ (i : ℕ) (nd nd' : Node), nodes[i]? = some nd → nodes'[i]? = some nd' →
      nd.kind = nd'.kind ∧ nd.start = nd'.start ∧ nd.stop = nd'.stop) : nodes = nodes' := by
  have hkids : kids nodes = kids nodes' := by
    funext i
    rw [kids, kids, hup, hsize]
  have hsiblings : siblings nodes = siblings nodes' := by
    funext i
    rw [siblings, siblings, hup, hkids]
  refine Array.ext hsize fun i hi hi' => ?_
  have hnd := Array.getElem?_eq_getElem hi
  have hnd' := Array.getElem?_eq_getElem hi'
  generalize nodes[i] = nd at hnd ⊢
  generalize nodes'[i] = nd' at hnd' ⊢
  obtain ⟨hkind, hstart, hstop⟩ := hspan i nd nd' hnd hnd'
  have hparent : nd.parent = nd'.parent := by
    have := congrFun hup i
    rwa [up, up, hnd, hnd'] at this
  have hfirst : nd.firstChild = nd'.firstChild := by
    rw [h.first i nd hnd, h'.first i nd' hnd', hkids]
  have hlast : nd.lastChild = nd'.lastChild := by
    rw [h.last i nd hnd, h'.last i nd' hnd', hkids]
  have hnext : nd.nextSibling = nd'.nextSibling := by
    rw [h.next i nd hnd, h'.next i nd' hnd', younger, younger, hsiblings]
  have hprev : nd.prevSibling = nd'.prevSibling := by
    rw [h.prev i nd hnd, h'.prev i nd' hnd', older, older, hsiblings]
  cases nd
  cases nd'
  simp_all

end

/-! ## Signs -/

section
variable {α : Type} {p : α → Bool} {a a' r r' : List α}

theorem takeWhile_append_eq (ha : ∀ x ∈ a, p x) (hr : ∀ x ∈ r.head?, p x = false) :
    (a ++ r).takeWhile p = a := by
  rw [List.takeWhile_append_of_pos ha]
  cases r with
  | nil => rw [List.takeWhile_nil, List.append_nil]
  | cons x r =>
    have hx : ¬p x := by simp [hr x rfl]
    rw [List.takeWhile_cons_of_neg hx, List.append_nil]

/-- Texts that go on with another kind of sign are cut there. -/
theorem append_inj_of_head? (ha : ∀ x ∈ a, p x) (ha' : ∀ x ∈ a', p x)
    (hr : ∀ x ∈ r.head?, p x = false) (hr' : ∀ x ∈ r'.head?, p x = false)
    (h : a ++ r = a' ++ r') : a = a' ∧ r = r' := by
  have heq : a = a' := by rw [← takeWhile_append_eq ha hr, h, takeWhile_append_eq ha' hr']
  subst heq
  exact ⟨rfl, List.append_cancel_left h⟩

end

theorem lines_inj {lines lines' : List (List Char)} (hl : ∀ l ∈ lines, '\n' ∉ l)
    (hl' : ∀ l ∈ lines', '\n' ∉ l)
    (h : lines.flatMap (· ++ ['\n']) = lines'.flatMap (· ++ ['\n'])) : lines = lines' := by
  induction lines generalizing lines' with
  | nil =>
    cases lines' with
    | nil => rfl
    | cons l' rest' => simp at h
  | cons l rest ih =>
    cases lines' with
    | nil => simp at h
    | cons l' rest' =>
      obtain ⟨hl, hrest⟩ := List.forall_mem_cons.mp hl
      obtain ⟨hl', hrest'⟩ := List.forall_mem_cons.mp hl'
      simp only [List.flatMap_cons, List.append_assoc, List.singleton_append] at h
      obtain ⟨rfl, htail⟩ := append_inj_of_head? (p := fun c => c ≠ '\n')
        (fun c hc => decide_eq_true (ne_of_mem_of_not_mem hc hl))
        (fun c hc => decide_eq_true (ne_of_mem_of_not_mem hc hl')) (by simp) (by simp) h
      rw [ih hrest hrest' (List.cons.inj htail).2]

theorem Kind.name_inj {k k' : Kind} (h : k.name = k'.name) : k = k' := by
  have hfind : ∀ k : Kind, Kind.all.find? (·.name = k.name) = some k := by
    intro k
    cases k <;> decide
  have := hfind k
  rw [h, hfind k'] at this
  exact (Option.some.inj this).symm

theorem Kind.notMem_name (k : Kind) : ∀ c ∈ k.name.toList, c ≠ '@' ∧ c ≠ ' ' ∧ c ≠ '\n' := by
  have hall : k.name.toList.all (fun c => c != '@' && c != ' ' && c != '\n') = true := by
    cases k <;> decide
  simpa [and_assoc] using hall

/-! ## Lines -/

theorem newline_notMem_toDigits (n : ℕ) : '\n' ∉ Nat.toDigits 16 n := by
  induction n using Nat.strong_induction_on with
  | _ n ih =>
    rw [Nat.toDigits_eq_if (by decide)]
    split_ifs with hn
    · simp
    · have hdiv := ih (n / 16) (by omega)
      simp [hdiv]

theorem newline_notMem_escapeChar (c : Char) : '\n' ∉ Text.escapeChar c := by
  by_cases hc : c = '\n'
  · subst hc
    decide
  · unfold Text.escapeChar Text.codePointEscape
    split_ifs <;> simp [newline_notMem_toDigits, Ne.symm hc]

theorem newline_notMem_quoteChars (cs : List Char) : '\n' ∉ Text.quoteChars cs := by
  simp [Text.quoteChars, newline_notMem_escapeChar]

namespace Tree
variable {t u : Tree} {source source' : String} {i j : ℕ}

/-- What the line of a node shows of its text. -/
def shownChars (t : Tree) (source : String) (i : ℕ) : List Char :=
  if (t.node i).firstChild.isNone && decide (t.start i < t.stop i) then
    ' ' :: Text.quoteChars (t.text source i).toList
  else []

/-- The line of a node without its end. -/
def lineChars (t : Tree) (source : String) (i : ℕ) : List Char :=
  List.replicate (2 * t.depth i) ' ' ++ ((t.kind i).name.toList ++ '@' ::
    (Nat.toDigits 10 (t.start i) ++ '.' :: '.' ::
      (Nat.toDigits 10 (t.stop i) ++ t.shownChars source i)))

theorem toList_dumpLine (t : Tree) (source : String) (i : ℕ) :
    (t.dumpLine source i).toList = t.lineChars source i ++ ['\n'] := by
  simp only [dumpLine, lineChars, shownChars, labelOf, String.toList_append, String.toList_ofList,
    Nat.toString_eq_ofList_toDigits]
  split_ifs <;> simp [Text.quote]

theorem toList_dump (t : Tree) (source : String) :
    (t.dump source).toList = (t.ids.map (t.lineChars source)).flatMap (· ++ ['\n']) := by
  rw [dump, String.toList_join, List.flatMap_map, List.flatMap_map]
  exact List.flatMap_congr fun i _ => t.toList_dumpLine source i

theorem newline_notMem_lineChars (t : Tree) (source : String) (i : ℕ) :
    '\n' ∉ t.lineChars source i := by
  have hname : '\n' ∉ (t.kind i).name.toList := fun h => ((t.kind i).notMem_name _ h).2.2 rfl
  have hdigits : ∀ n, '\n' ∉ Nat.toDigits 10 n := by
    intro n h
    exact absurd (Nat.isDigit_of_mem_toDigits (by decide) (by decide) h) (by decide)
  have hshown : '\n' ∉ t.shownChars source i := by
    unfold shownChars
    split_ifs <;> simp [newline_notMem_quoteChars]
  simp [lineChars, hname, hdigits, hshown]

theorem head?_name_append (k : Kind) (rest : List Char) :
    ∀ c ∈ (k.name.toList ++ '@' :: rest).head?, decide (c = ' ') = false := by
  intro c hc
  cases hname : k.name.toList with
  | nil =>
    rw [hname, List.nil_append, List.head?_cons] at hc
    obtain rfl := Option.some.inj hc
    rfl
  | cons d ds =>
    rw [hname, List.cons_append, List.head?_cons] at hc
    obtain rfl := Option.some.inj hc
    exact decide_eq_false (k.notMem_name d (hname ▸ List.mem_cons_self)).2.1

theorem takeWhile_lineChars (t : Tree) (source : String) (i : ℕ) :
    ((t.lineChars source i).takeWhile (· = ' ')).length = 2 * t.depth i := by
  rw [lineChars, takeWhile_append_eq (by simp) (head?_name_append _ _), List.length_replicate]

theorem head?_shownChars (t : Tree) (source : String) (i : ℕ) :
    ∀ c ∈ (t.shownChars source i).head?, c.isDigit = false := by
  unfold shownChars
  split_ifs <;> simp

theorem lineChars_inj (h : t.lineChars source i = u.lineChars source' j) :
    t.depth i = u.depth j ∧ t.kind i = u.kind j ∧ t.start i = u.start j ∧ t.stop i = u.stop j := by
  have hat : ∀ k : Kind, ∀ c ∈ k.name.toList, decide (c ≠ '@') = true := fun k c hc =>
    decide_eq_true (k.notMem_name c hc).1
  have hdigits : ∀ n, ∀ c ∈ Nat.toDigits 10 n, c.isDigit = true := fun n c =>
    Nat.isDigit_of_mem_toDigits (by decide) (by decide)
  have hnumber : ∀ m n, Nat.toDigits 10 m = Nat.toDigits 10 n → m = n := fun m n heq => by
    rw [← Nat.ofDigitChars_ten_toDigits (n := m), heq, Nat.ofDigitChars_ten_toDigits]
  unfold lineChars at h
  obtain ⟨hindent, h⟩ := append_inj_of_head? (p := fun c => c = ' ') (by simp) (by simp)
    (head?_name_append _ _) (head?_name_append _ _) h
  obtain ⟨hname, h⟩ := append_inj_of_head? (hat _) (hat _) (by simp) (by simp) h
  obtain ⟨hstart, h⟩ := append_inj_of_head? (hdigits _) (hdigits _) (by simp) (by simp)
    (List.cons.inj h).2
  obtain ⟨hstop, -⟩ := append_inj_of_head? (hdigits _) (hdigits _) (t.head?_shownChars source i)
    (u.head?_shownChars source' j) (List.cons.inj (List.cons.inj h).2).2
  have hdepth := congrArg List.length hindent
  rw [List.length_replicate, List.length_replicate] at hdepth
  exact ⟨by omega, Kind.name_inj (String.toList_inj.mp hname), hnumber _ _ hstart, hnumber _ _ hstop⟩

end Tree

/-! ## Whole trees -/

theorem Linked.eq_of_dump {t u : Tree} (h : Linked t.nodes) (h' : Linked u.nodes)
    {source source' : String} (hdump : t.dump source = u.dump source') : t = u := by
  have hchars := congrArg String.toList hdump
  rw [Tree.toList_dump, Tree.toList_dump] at hchars
  have hlines := lines_inj (by simp [Tree.newline_notMem_lineChars])
    (by simp [Tree.newline_notMem_lineChars]) hchars
  have hsize : t.size = u.size := by
    simpa [Tree.ids] using congrArg List.length hlines
  have hline : ∀ i < t.size, t.lineChars source i = u.lineChars source' i := by
    intro i hi
    have := congrArg (·[i]?) hlines
    simpa [Tree.ids, hi, hsize ▸ hi] using this
  have hpath : ∀ i < t.size, path (up t.nodes) i = path (up u.nodes) i := by
    refine h.preorder.path_eq_path h'.preorder fun i hi => ?_
    rw [← h.ancestors_eq, ← h'.ancestors_eq]
    exact (Tree.lineChars_inj (hline i hi)).1
  have hup : up t.nodes = up u.nodes := by
    funext i
    by_cases hi : i < t.size
    · rw [← h.preorder.head?_path, hpath i hi, h'.preorder.head?_path]
    · have hi' : ¬i < u.size := hsize ▸ hi
      rw [up_of_size_le (Nat.le_of_not_lt hi), up_of_size_le (Nat.le_of_not_lt hi')]
  have hnodes : t.nodes = u.nodes := by
    refine h.ext h' hsize hup fun i nd nd' hnd hnd' => ?_
    have hi : i < t.size := (Array.getElem?_eq_some_iff.mp hnd).1
    rw [Tree.getElem?_nodes hi] at hnd
    rw [Tree.getElem?_nodes (hsize ▸ hi)] at hnd'
    obtain rfl := Option.some.inj hnd
    obtain rfl := Option.some.inj hnd'
    exact (Tree.lineChars_inj (hline i hi)).2
  cases t
  cases u
  cases hnodes
  rfl

/-- The written form has one line for each node, indented by its depth, whatever the text is, and
tells the tree. -/
theorem dump_determines (events : List Event) (source : String) :
    let t := Tree.ofEvents events
    (∃ lines : List (List Char), lines.length = t.size ∧
      (t.dump source).toList = lines.flatMap (· ++ ['\n']) ∧
      ∀ i line, lines[i]? = some line →
        '\n' ∉ line ∧ (line.takeWhile (· = ' ')).length = 2 * t.depth i) ∧
    ∀ events' source', (Tree.ofEvents events').dump source' = t.dump source →
      Tree.ofEvents events' = t := by
  intro t
  refine ⟨⟨t.ids.map (t.lineChars source), by simp [Tree.ids], t.toList_dump source, ?_⟩, ?_⟩
  · intro i line hline
    obtain ⟨hi, rfl⟩ := List.getElem?_eq_some_iff.mp hline
    simp only [Tree.ids, List.getElem_map, List.getElem_range]
    exact ⟨t.newline_notMem_lineChars source i, t.takeWhile_lineChars source i⟩
  · exact fun events' source' => (linked_ofEvents events').eq_of_dump (linked_ofEvents events)

/-- A text of two lines, a second root, and finishes that change nothing. -/
theorem dump_determines_two_roots :
    let source := "a\nb"
    let events : List Event := [.start .sourceFile 0, .leaf .string 0 3, .finish 3, .error 5]
    let events' : List Event :=
      [.finish 7, .start .sourceFile 0, .start .string 0, .finish 3, .finish 1, .start .error 5]
    (Tree.ofEvents events).dump source =
        "SourceFile@0..3\n  String@0..3 \"a\\nb\"\n⚠@5..5\n" ∧
      (Tree.ofEvents events').dump source = (Tree.ofEvents events).dump source ∧
      Tree.ofEvents events' = Tree.ofEvents events := by
  intro source events events'
  have hdump : (Tree.ofEvents events').dump source = (Tree.ofEvents events).dump source := by
    decide +kernel
  exact ⟨by decide +kernel, hdump, (dump_determines events source).2 events' source hdump⟩

end SchemaAssist.Syntax

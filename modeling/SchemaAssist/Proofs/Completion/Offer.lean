import Mathlib.Data.List.Induction
import Mathlib.Data.List.Nodup
import SchemaAssist.Completion.Resolver

/-! # What is offered

A result lists its candidates in order, without those whose label came before. What a context offers
are snippets, then words, or else the columns of a table; only the look of the words depends on the
letter case.
-/
namespace SchemaAssist.Completion
open Syntax

namespace Result

variable {r : Result} {it : Item} {items rest : List Item} {label : String}

theorem admits_iff : r.admits it = true ↔ it.label ∉ r.labels := by
  simp [admits]

theorem push_of_mem (h : it.label ∈ r.labels) : r.push it = r :=
  if_neg fun hfree => admits_iff.mp hfree h

theorem push_of_notMem (h : it.label ∉ r.labels) :
    r.push it = { r with items := r.items ++ [it] } :=
  if_pos (admits_iff.mpr h)

@[simp] theorem extend_nil (r : Result) : r.extend [] = r := rfl

theorem extend_concat (r : Result) (items : List Item) (it : Item) :
    r.extend (items ++ [it]) = (r.extend items).push it := by
  rw [extend, List.foldl_append]
  rfl

theorem extend_append (r : Result) (items rest : List Item) :
    r.extend (items ++ rest) = (r.extend items).extend rest :=
  List.foldl_append

theorem replaceFrom_push (r : Result) (it : Item) : (r.push it).replaceFrom = r.replaceFrom := by
  unfold push
  split <;> rfl

@[simp] theorem replaceFrom_extend (r : Result) (items : List Item) :
    (r.extend items).replaceFrom = r.replaceFrom := by
  induction items using List.reverseRecOn with
  | nil => rfl
  | append_singleton items it ih => rw [extend_concat, replaceFrom_push, ih]

theorem mem_labels_push :
    label ∈ (r.push it).labels ↔ label ∈ r.labels ∨ label = it.label := by
  by_cases h : it.label ∈ r.labels
  · rw [push_of_mem h]
    exact ⟨.inl, fun hl => hl.elim id fun heq => heq ▸ h⟩
  · simp [push_of_notMem h, labels]

theorem mem_labels_extend :
    label ∈ (r.extend items).labels ↔ label ∈ r.labels ∨ label ∈ items.map (·.label) := by
  induction items using List.reverseRecOn with
  | nil => simp
  | append_singleton items it ih =>
    rw [extend_concat, mem_labels_push, ih, List.map_append, List.mem_append, or_assoc]
    simp

/-- The first of the items with each label. -/
def distinct (items : List Item) : List Item := ((new 0).extend items).items

theorem mem_labels_distinct :
    label ∈ (distinct items).map (·.label) ↔ label ∈ items.map (·.label) :=
  (mem_labels_extend (r := new 0)).trans (or_iff_right List.not_mem_nil)

theorem distinct_concat_of_mem (h : it.label ∈ items.map (·.label)) :
    distinct (items ++ [it]) = distinct items := by
  rw [distinct, extend_concat, push_of_mem (mem_labels_distinct.mpr h), distinct]

theorem distinct_concat_of_notMem (h : it.label ∉ items.map (·.label)) :
    distinct (items ++ [it]) = distinct items ++ [it] := by
  rw [distinct, extend_concat, push_of_notMem (mt mem_labels_distinct.mp h), distinct]

theorem mem_of_mem_distinct (h : it ∈ distinct items) : it ∈ items := by
  induction items using List.reverseRecOn with
  | nil => exact h
  | append_singleton items x ih =>
    by_cases hx : x.label ∈ items.map (·.label)
    · rw [distinct_concat_of_mem hx] at h
      exact List.mem_append_left _ (ih h)
    · rw [distinct_concat_of_notMem hx] at h
      exact (List.mem_append.mp h).elim (fun h => List.mem_append_left _ (ih h))
        fun h => List.mem_append_right _ h

theorem nodup_labels_distinct (items : List Item) : ((distinct items).map (·.label)).Nodup := by
  induction items using List.reverseRecOn with
  | nil => exact List.nodup_nil
  | append_singleton items it ih =>
    by_cases h : it.label ∈ items.map (·.label)
    · rwa [distinct_concat_of_mem h]
    · rw [distinct_concat_of_notMem h, List.map_append, List.map_singleton, ← List.concat_eq_append]
      exact List.Nodup.concat (mt mem_labels_distinct.mp h) ih

theorem distinct_sublist (items : List Item) : (distinct items).Sublist items := by
  induction items using List.reverseRecOn with
  | nil => exact .slnil
  | append_singleton items it ih =>
    by_cases h : it.label ∈ items.map (·.label)
    · rw [distinct_concat_of_mem h]
      exact ih.trans (List.sublist_append_left _ _)
    · rw [distinct_concat_of_notMem h]
      exact ih.append (List.Sublist.refl _)

theorem distinct_eq_self (h : (items.map (·.label)).Nodup) : distinct items = items := by
  refine (distinct_sublist items).eq_of_length ?_
  have hlabels : ((distinct items).map (·.label)).Perm (items.map (·.label)) :=
    (List.perm_ext_iff_of_nodup (nodup_labels_distinct items) h).mpr fun _ => mem_labels_distinct
  simpa using hlabels.length_eq

theorem items_extend (r : Result) (items : List Item) : (r.extend items).items =
    r.items ++ (distinct items).filter fun it => decide (it.label ∉ r.labels) := by
  induction items using List.reverseRecOn with
  | nil => exact (List.append_nil _).symm
  | append_singleton items it ih =>
    rw [extend_concat]
    by_cases hitems : it.label ∈ items.map (·.label)
    · rw [push_of_mem (mem_labels_extend.mpr (.inr hitems)), distinct_concat_of_mem hitems, ih]
    · rw [distinct_concat_of_notMem hitems, List.filter_append]
      by_cases hr : it.label ∈ r.labels
      · rw [push_of_mem (mem_labels_extend.mpr (.inl hr)), ih]
        simp [hr]
      · have hnew : it.label ∉ (r.extend items).labels :=
          fun h => (mem_labels_extend.mp h).elim hr hitems
        rw [push_of_notMem hnew, ih]
        simp [hr]

theorem distinct_append (items rest : List Item) : distinct (items ++ rest) =
    distinct items ++
      (distinct rest).filter fun it => decide (it.label ∉ items.map (·.label)) := by
  rw [distinct, extend_append, items_extend]
  congr 1
  refine List.filter_congr fun it _ => decide_eq_decide.mpr (not_congr ?_)
  exact mem_labels_distinct

theorem distinct_map {f : Item → Item}
    (hf : ∀ a ∈ items, ∀ b ∈ items, (f a).label = (f b).label ↔ a.label = b.label) :
    distinct (items.map f) = (distinct items).map f := by
  induction items using List.reverseRecOn with
  | nil => rfl
  | append_singleton items it ih =>
    have hit : it ∈ items ++ [it] := List.mem_append_right _ (List.mem_singleton_self it)
    have hmem : (f it).label ∈ (items.map f).map (·.label) ↔ it.label ∈ items.map (·.label) := by
      simp only [List.map_map, List.mem_map, Function.comp_apply]
      refine exists_congr fun x => and_congr_right fun hx => ?_
      exact hf x (List.mem_append_left _ hx) it hit
    have ih := ih fun a ha b hb => hf a (List.mem_append_left _ ha) b (List.mem_append_left _ hb)
    rw [List.map_append, List.map_singleton]
    by_cases h : it.label ∈ items.map (·.label)
    · rw [distinct_concat_of_mem h, distinct_concat_of_mem (hmem.mpr h), ih]
    · rw [distinct_concat_of_notMem h, distinct_concat_of_notMem (mt hmem.mp h), ih,
        List.map_append, List.map_singleton]

end Result

/-! ## The offer of a context -/

/-- The parts of a result before words get their letter case and labels that repeat are left out. -/
structure Offer where
  replaceFrom : ℕ
  snippets : List Snippet
  words : List WordSet
  /-- Columns of a table, with their priorities. -/
  columns : List Item

def Offer.items (o : Offer) (upperCase : Bool) : List Item :=
  snippetItems o.snippets ++ o.words.flatMap (wordItems upperCase) ++ o.columns

def Offer.result (o : Offer) (upperCase : Bool) : Result :=
  (Result.new o.replaceFrom).extend (o.items upperCase)

/-- Names of columns with priorities that count down. -/
def columnItems (names : WordSet) : List Item :=
  names.words.zipIdx.map fun w => .keyword w.1 (columnPriority - w.2)

/-- Different names are all taken in, so the priority goes down with each. -/
theorem foldl_pushColumn {words : List String} (hwords : words.Nodup) (start priority : ℕ) :
    words.foldl pushColumn (.new start, priority) =
      ((Result.new start).extend (words.zipIdx.map fun w => .keyword w.1 (priority - w.2)),
        priority - words.length) := by
  induction words using List.reverseRecOn with
  | nil => rfl
  | append_singleton words word ih =>
    obtain ⟨hinit, -, hnew⟩ := List.nodup_append.mp hwords
    have hfree : word ∉ words := fun hmem => hnew word hmem word List.mem_cons_self rfl
    have hadmits : ((Result.new start).extend
        (words.zipIdx.map fun w => Item.keyword w.1 (priority - w.2))).admits
          (.keyword word (priority - words.length)) = true := by
      rw [Result.admits_iff, Result.mem_labels_extend]
      simpa [Result.new, Result.labels, Item.keyword, Function.comp_def, ← List.unzip_fst]
        using hfree
    rw [List.foldl_append, ih hinit, List.foldl_cons, List.foldl_nil, pushColumn, if_pos hadmits,
      List.zipIdx_append, List.map_append]
    simp [Result.extend_concat, Nat.sub_sub]

theorem columnResult_eq (text : String) (t : Tree) (block table offset : ℕ) :
    columnResult text t block table offset = (Result.new (indexNameStart t block offset)).extend
      (columnItems ((tableColumns text t table).exclude (indexColumns text t block))) := by
  rw [columnResult, foldl_pushColumn (WordSet.nodup _), columnItems]

/-- What of an index type is written already. -/
def writtenWords (hasUnique hasMethod : Bool) : List String :=
  (if hasUnique then [uniqueWord] else []) ++ if hasMethod then indexMethods else []

def offer (d : Dialect) (text : String) (t : Tree) (offset : ℕ) : Context → Option Offer
  | .topLevel e => some ⟨t.start e, scriptSnippets, [], []⟩
  | .dataType e => some ⟨t.start e, dataTypeSnippets, [dataTypeSet d], []⟩
  | .options e => some ⟨t.start e, [], [optionSet], []⟩
  | .indexType _ replaceFrom hasUnique hasMethod =>
    if hasUnique && hasMethod then none
    else some ⟨replaceFrom, [], [indexTypeSet.exclude (writtenWords hasUnique hasMethod)], []⟩
  | .indexColumns block table =>
    some ⟨indexNameStart t block offset, [], [],
      columnItems ((tableColumns text t table).exclude (indexColumns text t block))⟩
  | .column _ => some ⟨wordStart text offset, dataTypeSnippets, [dataTypeSet d, dialectSet d], []⟩
  | .tableBody _ => some ⟨wordStart text offset, tableSnippets, [], []⟩
  | .script => some ⟨wordStart text offset, scriptSnippets, [], []⟩

/-- A result is that of an offer in which only the words know the letter case. -/
theorem suggest_eq (d : Dialect) (upperCase : Bool) (text : String) (t : Tree) (offset : ℕ)
    (c : Context) : suggest d upperCase text t offset c =
      (offer d text t offset c).map (·.result upperCase) := by
  cases c with
  | indexType index replaceFrom hasUnique hasMethod =>
    simp only [suggest, indexTypeResult, offer]
    split
    · rfl
    · simp [Offer.result, Offer.items, snippetItems, writtenWords]
  | _ => simp [suggest, offer, Offer.result, Offer.items, dataTypeResult, columnResult_eq,
      snippetItems, Result.extend_append]

theorem replaceFrom_result (o : Offer) (upperCase : Bool) :
    (o.result upperCase).replaceFrom = o.replaceFrom :=
  Result.replaceFrom_extend _ _

theorem items_result (o : Offer) (upperCase : Bool) :
    (o.result upperCase).items = Result.distinct (o.items upperCase) := by
  rw [Offer.result, Result.items_extend]
  simp [Result.new, Result.labels]

theorem labels_result {o : Offer} {upperCase : Bool} {label : String} :
    label ∈ (o.result upperCase).labels ↔ label ∈ (o.items upperCase).map (·.label) := by
  rw [Result.labels, items_result, Result.mem_labels_distinct]

/-! ## Snippets, words and columns -/

theorem labels_snippetItems (snippets : List Snippet) :
    (snippetItems snippets).map (·.label) = snippets.map (·.label) := by
  conv_rhs => rw [← List.zipIdx_map_fst 0 snippets]
  rw [snippetItems, List.map_map, List.map_map]
  rfl

theorem labels_wordItems (s : WordSet) : (wordItems false s).map (·.label) = s.words := by
  simp [wordItems, Item.keyword, Function.comp_def, ← List.unzip_fst]

theorem labels_columnItems (names : WordSet) : (columnItems names).map (·.label) = names.words := by
  simp [columnItems, Item.keyword, Function.comp_def, ← List.unzip_fst]

theorem labels_items (o : Offer) : (o.items false).map (·.label) =
    o.snippets.map (·.label) ++ o.words.flatMap WordSet.words ++ o.columns.map (·.label) := by
  rw [Offer.items, List.map_append, List.map_append, labels_snippetItems, List.map_flatMap,
    funext labels_wordItems]

theorem kind_of_mem_snippetItems {snippets : List Snippet} {it : Item}
    (h : it ∈ snippetItems snippets) : it.kind = .snippet := by
  obtain ⟨sn, -, rfl⟩ := List.mem_map.mp h
  rfl

theorem kind_of_mem_columnItems {names : WordSet} {it : Item} (h : it ∈ columnItems names) :
    it.kind = .keyword := by
  obtain ⟨w, -, rfl⟩ := List.mem_map.mp h
  rfl

theorem mem_dataTypeSet {d : Dialect} {w : String} :
    w ∈ (dataTypeSet d).words ↔ w ∈ dataTypes ∨ w ∈ d.wordsOf .type := by
  rw [dataTypeSet, WordSet.mem_extend, WordSet.mem_ofList]

theorem mem_wordsOf {d : Dialect} {cls : WordClass} {w : String} (h : w ∈ d.wordsOf cls) :
    w ∈ d.words.entries.map (·.1) := by
  obtain ⟨e, he, rfl⟩ := List.mem_map.mp h
  exact List.mem_map_of_mem (List.mem_filter.mp he).1

/-! ## Resolving an offset -/

theorem detect_min (text : String) (t : Tree) (offset : ℕ) :
    detect text t (min offset (Text.size text)) = detect text t offset := by
  unfold detect
  rw [Nat.min_assoc, Nat.min_self]

theorem resolve_eq (d : Dialect) (upperCase : Bool) (text : String) (t : Tree) (offset : ℕ) :
    resolve d upperCase text t offset = ((detect text t offset).bind
      (offer d text t (min offset (Text.size text)))).map (·.result upperCase) := by
  simp only [resolve, detect_min, Option.map_bind]
  congr 1
  funext c
  exact suggest_eq d upperCase text t _ c

end SchemaAssist.Completion

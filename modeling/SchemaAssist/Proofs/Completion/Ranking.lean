import SchemaAssist.Syntax.Builder
import SchemaAssist.Proofs.Completion.Offer

/-! # The ranking of suggestions

A result has one item for each label, and ranked are these items in the only order that goes by
priority and then by label. Snippets stand before words and before columns, as listed and as ranked,
for the priorities of snippets are below those of words and no snippet is offered with columns.
-/
namespace SchemaAssist.Completion
open Syntax

variable {it a b c : Item} {items : List Item} {r : Result}

/-! ## The order of items -/

namespace Item

theorem ranksBefore_iff : a.ranksBefore b = true ↔
    a.priority < b.priority ∨ a.priority = b.priority ∧ a.label ≤ b.label := by
  simp [ranksBefore]

theorem ranksBefore_trans (hab : a.ranksBefore b = true) (hbc : b.ranksBefore c = true) :
    a.ranksBefore c = true := by
  rw [ranksBefore_iff] at hab hbc ⊢
  rcases hab with hab | ⟨hab, hlab⟩ <;> rcases hbc with hbc | ⟨hbc, hlbc⟩
  · exact .inl (by omega)
  · exact .inl (by omega)
  · exact .inl (by omega)
  · exact .inr ⟨hab.trans hbc, String.le_trans hlab hlbc⟩

theorem ranksBefore_total (a b : Item) : (a.ranksBefore b || b.ranksBefore a) = true := by
  rw [Bool.or_eq_true, ranksBefore_iff, ranksBefore_iff]
  rcases Nat.lt_trichotomy a.priority b.priority with h | h | h
  · exact .inl (.inl h)
  · exact (String.le_total a.label b.label).imp (fun hl => .inr ⟨h, hl⟩) fun hl => .inr ⟨h.symm, hl⟩
  · exact .inr (.inl h)

theorem priority_le (h : a.ranksBefore b = true) : a.priority ≤ b.priority := by
  rcases ranksBefore_iff.mp h with h | ⟨h, -⟩
  · exact Nat.le_of_lt h
  · exact Nat.le_of_eq h

theorem label_eq (hab : a.ranksBefore b = true) (hba : b.ranksBefore a = true) :
    a.label = b.label := by
  have hle := priority_le hab
  have hge := priority_le hba
  rcases ranksBefore_iff.mp hab with h | ⟨-, h⟩
  · omega
  rcases ranksBefore_iff.mp hba with h' | ⟨-, h'⟩
  · omega
  exact String.le_antisymm h h'

end Item

namespace Result

theorem pairwise_sorted (r : Result) : r.sorted.Pairwise fun a b => a.ranksBefore b = true := by
  refine List.pairwise_mergeSort ?_ Item.ranksBefore_total r.items
  exact fun _ _ _ hab hbc => Item.ranksBefore_trans hab hbc

theorem perm_sorted (r : Result) : r.sorted.Perm r.items := List.mergeSort_perm _ _

/-- Items with different labels have only one order by rank. -/
theorem sorted_eq (h : r.labels.Nodup) (hperm : items.Perm r.items)
    (hitems : items.Pairwise fun a b => a.ranksBefore b = true) : r.sorted = items := by
  refine List.Perm.eq_of_pairwise (fun a b ha hb hab hba => ?_) r.pairwise_sorted hitems
    (r.perm_sorted.trans hperm.symm)
  exact List.inj_on_of_nodup_map h (r.perm_sorted.mem_iff.mp ha) (hperm.mem_iff.mp hb)
    (Item.label_eq hab hba)

theorem nodup_labels (o : Offer) (upperCase : Bool) : (o.result upperCase).labels.Nodup := by
  rw [labels, items_result]
  exact nodup_labels_distinct _

end Result

/-! ## Snippets first -/

/-- No word and no column stands before a snippet. -/
def SnippetsFirst (items : List Item) : Prop :=
  items.Pairwise fun a b => b.kind = .snippet → a.kind = .snippet

theorem priority_lt_of_mem_snippetItems {snippets : List Snippet} (h : it ∈ snippetItems snippets) :
    it.priority < snippets.length := by
  obtain ⟨⟨sn, k⟩, hmem, rfl⟩ := List.mem_map.mp h
  have hk := List.snd_lt_of_mem_zipIdx hmem
  rwa [Nat.add_zero] at hk

theorem of_mem_wordItems {upperCase : Bool} {s : WordSet} (h : it ∈ wordItems upperCase s) :
    it = .keyword it.label it.priority ∧ wordPriority ≤ it.priority := by
  obtain ⟨w, -, rfl⟩ := List.mem_map.mp h
  exact ⟨rfl, Nat.le_add_right _ _⟩

theorem of_mem_columnItems {names : WordSet} (h : it ∈ columnItems names) :
    it = .keyword it.label it.priority := by
  obtain ⟨w, -, rfl⟩ := List.mem_map.mp h
  rfl

/-- What the order of an offer relies on. -/
structure Offer.Ordered (o : Offer) : Prop where
  /-- The priorities of snippets do not reach those of words. -/
  few : o.snippets.length ≤ wordPriority
  columns : ∀ it ∈ o.columns, it = .keyword it.label it.priority
  apart : o.columns = [] ∨ o.snippets = []

namespace Offer.Ordered
variable {o : Offer} (h : o.Ordered) {upperCase : Bool}
include h

theorem keyword_of_mem (hit : it ∈ o.words.flatMap (wordItems upperCase) ++ o.columns) :
    it = .keyword it.label it.priority ∧ ∀ sn ∈ snippetItems o.snippets, sn.priority < it.priority := by
  rcases List.mem_append.mp hit with hit | hit
  · obtain ⟨set, -, hit⟩ := List.mem_flatMap.mp hit
    obtain ⟨hkeyword, hle⟩ := of_mem_wordItems hit
    refine ⟨hkeyword, fun sn hsn => ?_⟩
    have hlt := priority_lt_of_mem_snippetItems hsn
    exact Nat.lt_of_lt_of_le hlt (Nat.le_trans h.few hle)
  · refine ⟨h.columns it hit, ?_⟩
    rcases h.apart with hnone | hnone
    · rw [hnone] at hit
      exact absurd hit List.not_mem_nil
    · rw [hnone]
      exact List.forall_mem_nil _

theorem template_eq (hit : it ∈ o.items upperCase) (hk : it.kind = .keyword) :
    it.template = it.label := by
  rw [Offer.items, List.append_assoc] at hit
  rcases List.mem_append.mp hit with hsn | hit
  · rw [kind_of_mem_snippetItems hsn] at hk
    cases hk
  · rw [(h.keyword_of_mem hit).1]
    rfl

theorem priority_lt (ha : a ∈ o.items upperCase) (hb : b ∈ o.items upperCase)
    (hak : a.kind = .snippet) (hbk : b.kind ≠ .snippet) : a.priority < b.priority := by
  rw [Offer.items, List.append_assoc] at ha hb
  rcases List.mem_append.mp hb with hb | hb
  · exact absurd (kind_of_mem_snippetItems hb) hbk
  · rcases List.mem_append.mp ha with ha | ha
    · exact (h.keyword_of_mem hb).2 a ha
    · rw [(h.keyword_of_mem ha).1] at hak
      cases hak

theorem snippetsFirst_items : SnippetsFirst (o.result upperCase).items := by
  rw [items_result]
  refine List.Pairwise.sublist (Result.distinct_sublist _) ?_
  rw [Offer.items, List.append_assoc]
  refine List.pairwise_append.mpr ⟨?_, ?_, fun a ha _ _ _ => kind_of_mem_snippetItems ha⟩
  · exact List.pairwise_of_forall_mem_list fun a ha _ _ _ => kind_of_mem_snippetItems ha
  · refine List.pairwise_of_forall_mem_list fun a _ b hb hbk => ?_
    rw [(h.keyword_of_mem hb).1] at hbk
    cases hbk

theorem snippetsFirst_sorted : SnippetsFirst (o.result upperCase).sorted := by
  have hmem : ∀ it ∈ (o.result upperCase).sorted, it ∈ o.items upperCase := by
    intro it hit
    rw [(Result.perm_sorted _).mem_iff, items_result] at hit
    exact Result.mem_of_mem_distinct hit
  refine (Result.pairwise_sorted _).imp_of_mem fun {a b} ha hb hab hbk => ?_
  by_contra hak
  have hlt := h.priority_lt (hmem b hb) (hmem a ha) hbk hak
  exact absurd (Item.priority_le hab) (Nat.not_le_of_lt hlt)

end Offer.Ordered

section
variable {d : Dialect} {text : String} {t : Tree} {offset : ℕ} {c : Context} {o : Offer}

theorem ordered_offer (ho : offer d text t offset c = some o) : o.Ordered := by
  cases c with
  | indexColumns block table =>
    cases ho
    exact ⟨Nat.zero_le _, fun _ => of_mem_columnItems, .inr rfl⟩
  | indexType index replaceFrom hasUnique hasMethod =>
    rw [offer] at ho
    split at ho
    · cases ho
    · cases ho
      exact ⟨Nat.zero_le _, List.forall_mem_nil _, .inl rfl⟩
  | _ =>
    cases ho
    exact ⟨Nat.le_of_ble_eq_true rfl, List.forall_mem_nil _, .inl rfl⟩

end

/-- Labels never repeat, snippets stand first in either order, and a word inserts its label. In lower
case the labels are, in a column, those of the snippets for data types with all words of the dialect
and the data types of every dialect. After a column name they are the same with only those words of
the dialect that are types. -/
theorem ranked_suggestions (d : Dialect) (text : String) (t : Tree) (offset : ℕ) :
    (∀ upperCase r, resolve d upperCase text t offset = some r →
      r.labels.Nodup ∧ SnippetsFirst r.items ∧ SnippetsFirst r.sorted ∧
        ∀ it ∈ r.items, it.kind = .keyword → it.template = it.label) ∧
    (∀ i, detect text t offset = some (.column i) →
      ∃ r, resolve d false text t offset = some r ∧ ∀ label, label ∈ r.labels ↔
        label ∈ dataTypeSnippets.map (·.label) ∨ label ∈ dataTypes ∨
          label ∈ d.words.entries.map (·.1)) ∧
    ∀ e, detect text t offset = some (.dataType e) →
      ∃ r, resolve d false text t offset = some r ∧ ∀ label, label ∈ r.labels ↔
        label ∈ dataTypeSnippets.map (·.label) ∨ label ∈ dataTypes ∨ label ∈ d.wordsOf .type := by
  refine ⟨fun upperCase r hr => ?_, fun i hi => ?_, fun e he => ?_⟩
  · rw [resolve_eq, Option.map_eq_some_iff] at hr
    obtain ⟨o, ho, rfl⟩ := hr
    obtain ⟨c, -, ho⟩ := Option.bind_eq_some_iff.mp ho
    have h := ordered_offer ho
    refine ⟨Result.nodup_labels o upperCase, h.snippetsFirst_items, h.snippetsFirst_sorted, ?_⟩
    intro it hit
    rw [items_result] at hit
    exact h.template_eq (Result.mem_of_mem_distinct hit)
  · refine ⟨_, by rw [resolve_eq, hi]; rfl, fun label => ?_⟩
    rw [labels_result, labels_items]
    simp only [List.flatMap_cons, List.flatMap_nil, List.append_nil, List.map_nil, List.mem_append]
    rw [mem_dataTypeSet, dialectSet, WordSet.mem_ofList, or_assoc]
    exact or_congr_right (or_congr_right (or_iff_right_of_imp mem_wordsOf))
  · refine ⟨_, by rw [resolve_eq, he]; rfl, fun label => ?_⟩
    rw [labels_result, labels_items]
    simp only [List.flatMap_cons, List.flatMap_nil, List.append_nil, List.map_nil, List.mem_append]
    rw [mem_dataTypeSet]

/-- A keyword of the dialect is offered in a column, but not behind the name of the column. -/
theorem ranked_suggestions_keyword :
    let d := Dialect.define { Dialect.Spec.named "d" with keywords := some "pk", types := some "uuid" }
    let t := Tree.ofEvents [.start .sourceFile 0, .start .column 0, .leaf .columnName 0 2, .error 3]
    detect "id " t 2 = some (.column 1) ∧ detect "id " t 3 = some (.dataType 3) ∧
      (∃ r, resolve d false "id " t 2 = some r ∧ "pk" ∈ r.labels ∧ "uuid" ∈ r.labels) ∧
      ∃ r, resolve d false "id " t 3 = some r ∧ "pk" ∉ r.labels ∧ "uuid" ∈ r.labels ∧
        r.labels.Nodup ∧ SnippetsFirst r.sorted := by
  intro d t
  have hcolumn : detect "id " t 2 = some (.column 1) := by
    decide +kernel
  have hbehind : detect "id " t 3 = some (.dataType 3) := by
    decide +kernel
  obtain ⟨r, hr, hlabels⟩ := (ranked_suggestions d "id " t 2).2.1 1 hcolumn
  obtain ⟨r', hr', hlabels'⟩ := (ranked_suggestions d "id " t 3).2.2 3 hbehind
  obtain ⟨hnodup, -, hsorted, -⟩ := (ranked_suggestions d "id " t 3).1 false r' hr'
  refine ⟨hcolumn, hbehind, ⟨r, hr, ?_, ?_⟩, r', hr', ?_, ?_, hnodup, hsorted⟩
  · rw [hlabels]
    decide +kernel
  · rw [hlabels]
    decide +kernel
  · rw [hlabels']
    decide +kernel
  · rw [hlabels']
    decide +kernel

end SchemaAssist.Completion

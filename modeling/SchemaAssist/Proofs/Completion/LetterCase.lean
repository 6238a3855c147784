import SchemaAssist.Proofs.Completion.Offer
import SchemaAssist.Syntax.Builder

/-! # Letter case of suggestions

Words are listed in either letter case, snippets and names of columns as they are. The case decides
more than the look of the words: one that is the label of a snippet is left out in lower case, and
in upper case it is listed behind the snippet. Without such words both lists agree.
-/
namespace SchemaAssist.Completion
open Syntax Text

/-- The item as it looks in upper case. Snippets have no letter case. -/
def Item.upper (it : Item) : Item :=
  match it.kind with
  | .keyword => { it with label := upperAscii it.label, template := upperAscii it.template }
  | .snippet => it

namespace Result

def upper (r : Result) : Result := { r with items := r.items.map Item.upper }

/-- The result of a context as it looks in upper case. Names of columns have no letter case. -/
def recase (r : Result) : Context → Result
  | .indexColumns .. => r
  | _ => r.upper

def snippetLabels (r : Result) : List String :=
  (r.items.filter fun it => it.kind = .snippet).map (·.label)

/-- Whether an item is a word that in lower case is the label of a snippet. -/
def repeats (r : Result) (it : Item) : Bool :=
  it.kind = .keyword && r.snippetLabels.contains (lowerAscii it.label)

def withoutRepeats (r : Result) : Result :=
  { r with items := r.items.filter fun it => !r.repeats it }

theorem eq_of_items {a b : Result} (hfrom : a.replaceFrom = b.replaceFrom)
    (hitems : a.items = b.items) : a = b := by
  cases a
  cases b
  cases hfrom
  cases hitems
  rfl

end Result

/-- The words that a context takes from the dialect. -/
def Context.dialectWords (d : Dialect) : Context → List String
  | .dataType _ => d.wordsOf .type
  | .column _ => d.words.entries.map (·.1)
  | _ => []

/-! ## Words in lower case -/

theorem lowerAscii_of_mem_classifyAll {cls : WordClass} {list : String} {t : WordTable}
    (ht : ∀ e ∈ t.entries, lowerAscii e.1 = e.1) :
    ∀ e ∈ (Dialect.classifyAll cls list t).entries, lowerAscii e.1 = e.1 := by
  rw [Dialect.classifyAll]
  induction words list using List.reverseRecOn with
  | nil => exact ht
  | append_singleton list word ih =>
    intro e he
    rw [List.foldl_append] at he
    rcases WordTable.mem_insertEntry he with rfl | he
    · exact lowerAscii_lowerAscii word
    · exact ih e he

theorem lowerAscii_of_mem_define (s : Dialect.Spec) :
    ∀ e ∈ (Dialect.define s).words.entries, lowerAscii e.1 = e.1 := by
  refine lowerAscii_of_mem_classifyAll (lowerAscii_of_mem_classifyAll
    (lowerAscii_of_mem_classifyAll ?_))
  decide +kernel

theorem upperAscii_inj {a b : String} (ha : lowerAscii a = a) (hb : lowerAscii b = b) :
    upperAscii a = upperAscii b ↔ a = b := by
  refine ⟨fun h => ?_, congrArg upperAscii⟩
  rw [← ha, ← hb, ← lowerAscii_upperAscii a, ← lowerAscii_upperAscii b, h]

/-! ## Both cases of an offer -/

/-- What both letter cases rely on: words are in lower case, and the label of a snippet is not a
word in upper case. -/
structure Offer.Cased (o : Offer) : Prop where
  columns : o.columns = []
  words : ∀ set ∈ o.words, ∀ w ∈ set.words, lowerAscii w = w
  snippets : ∀ sn ∈ o.snippets, upperAscii sn.label ≠ sn.label

theorem wordItems_true (s : WordSet) : wordItems true s = (wordItems false s).map Item.upper := by
  simp [wordItems, Item.keyword, Item.upper]

theorem map_upper_snippetItems (snippets : List Snippet) :
    (Result.distinct (snippetItems snippets)).map Item.upper =
      Result.distinct (snippetItems snippets) := by
  refine (List.map_congr_left fun it hit => ?_).trans (List.map_id _)
  rw [Item.upper, kind_of_mem_snippetItems (Result.mem_of_mem_distinct hit), id]

namespace Offer.Cased
variable {o : Offer} (h : o.Cased) {it : Item} {label : String}
include h

theorem mem_words (hit : it ∈ o.words.flatMap (wordItems false)) :
    it.kind = .keyword ∧ lowerAscii it.label = it.label := by
  obtain ⟨set, hset, hit⟩ := List.mem_flatMap.mp hit
  have hlabel : it.label ∈ set.words := labels_wordItems set ▸ List.mem_map_of_mem hit
  obtain ⟨w, -, rfl⟩ := List.mem_map.mp hit
  exact ⟨rfl, h.words set hset _ hlabel⟩

theorem label_upper (hit : it ∈ o.words.flatMap (wordItems false)) :
    it.upper.label = upperAscii it.label := by
  rw [Item.upper, (h.mem_words hit).1]

theorem distinct_upper : Result.distinct (o.words.flatMap (wordItems true)) =
    (Result.distinct (o.words.flatMap (wordItems false))).map Item.upper := by
  have hmap : o.words.flatMap (wordItems true) =
      (o.words.flatMap (wordItems false)).map Item.upper := by
    rw [List.map_flatMap, funext wordItems_true]
  rw [hmap]
  refine Result.distinct_map fun a ha b hb => ?_
  rw [h.label_upper ha, h.label_upper hb]
  exact upperAscii_inj (h.mem_words ha).2 (h.mem_words hb).2

/-- In upper case no word is taken for a snippet. -/
theorem items_true : (o.result true).items = Result.distinct (snippetItems o.snippets) ++
    (Result.distinct (o.words.flatMap (wordItems false))).map Item.upper := by
  rw [items_result, Offer.items, h.columns, List.append_nil, Result.distinct_append,
    h.distinct_upper, List.filter_eq_self.mpr]
  intro it hit
  obtain ⟨x, hx, rfl⟩ := List.mem_map.mp hit
  rw [h.label_upper (Result.mem_of_mem_distinct hx), labels_snippetItems, decide_eq_true_iff]
  intro hlabel
  obtain ⟨sn, hsn, hlabel⟩ := List.mem_map.mp hlabel
  apply h.snippets sn hsn
  rw [hlabel, upperAscii_upperAscii]

/-- In lower case words that are labels of snippets are left out. -/
theorem items_false : (o.result false).items = Result.distinct (snippetItems o.snippets) ++
    (Result.distinct (o.words.flatMap (wordItems false))).filter
      fun it => decide (it.label ∉ o.snippets.map (·.label)) := by
  rw [items_result, Offer.items, h.columns, List.append_nil, Result.distinct_append,
    labels_snippetItems]

theorem items_upper : (o.result false).upper.items = Result.distinct (snippetItems o.snippets) ++
    ((Result.distinct (o.words.flatMap (wordItems false))).filter
      fun it => decide (it.label ∉ o.snippets.map (·.label))).map Item.upper := by
  change (o.result false).items.map Item.upper = _
  rw [h.items_false, List.map_append, map_upper_snippetItems]

theorem mem_snippetLabels :
    label ∈ (o.result true).snippetLabels ↔ label ∈ o.snippets.map (·.label) := by
  have hsnippets : (Result.distinct (snippetItems o.snippets)).filter (fun it => it.kind = .snippet) =
      Result.distinct (snippetItems o.snippets) := by
    refine List.filter_eq_self.mpr fun it hit => ?_
    exact decide_eq_true (kind_of_mem_snippetItems (Result.mem_of_mem_distinct hit))
  have hwords : ((Result.distinct (o.words.flatMap (wordItems false))).map Item.upper).filter
      (fun it => it.kind = .snippet) = [] := by
    refine List.filter_eq_nil_iff.mpr fun it hit => ?_
    obtain ⟨x, hx, rfl⟩ := List.mem_map.mp hit
    have hkind := (h.mem_words (Result.mem_of_mem_distinct hx)).1
    simp [Item.upper, hkind]
  rw [Result.snippetLabels, h.items_true, List.filter_append, hsnippets, hwords, List.append_nil,
    Result.mem_labels_distinct, labels_snippetItems]

/-- The upper case adds the words that repeat labels of snippets, and nothing else. -/
theorem withoutRepeats_result : (o.result true).withoutRepeats = (o.result false).upper := by
  have hsnippets : ∀ it ∈ Result.distinct (snippetItems o.snippets),
      (!(o.result true).repeats it) = true := by
    intro it hit
    simp [Result.repeats, kind_of_mem_snippetItems (Result.mem_of_mem_distinct hit)]
  have hwords : ∀ it ∈ Result.distinct (o.words.flatMap (wordItems false)),
      (!(o.result true).repeats it.upper) = decide (it.label ∉ o.snippets.map (·.label)) := by
    intro it hit
    have hmem := Result.mem_of_mem_distinct hit
    have hlabel : lowerAscii it.upper.label = it.label := by
      rw [h.label_upper hmem, lowerAscii_upperAscii, (h.mem_words hmem).2]
    have hkind : it.upper.kind = .keyword := by
      simp [Item.upper, (h.mem_words hmem).1]
    rw [Result.repeats, hkind, hlabel, Bool.eq_iff_iff]
    simp [h.mem_snippetLabels]
  refine Result.eq_of_items
    ((replaceFrom_result o true).trans (replaceFrom_result o false).symm) ?_
  change (o.result true).items.filter _ = _
  rw [h.items_upper, h.items_true, List.filter_append, List.filter_eq_self.mpr hsnippets,
    List.filter_map]
  congr 2
  exact List.filter_congr hwords

theorem result_true_iff : o.result true = (o.result false).upper ↔
    ∀ set ∈ o.words, ∀ w ∈ set.words, w ∉ o.snippets.map (·.label) := by
  have hlabels {label : String} :
      label ∈ (Result.distinct (o.words.flatMap (wordItems false))).map (·.label) ↔
        ∃ set ∈ o.words, label ∈ set.words := by
    rw [Result.mem_labels_distinct, List.map_flatMap, funext labels_wordItems, List.mem_flatMap]
  constructor
  · intro heq set hset w hw
    have hitems := congrArg Result.items heq
    rw [h.items_true, h.items_upper, List.append_cancel_left_eq] at hitems
    have hlength := congrArg List.length hitems
    rw [List.length_map, List.length_map] at hlength
    obtain ⟨it, hit, rfl⟩ := List.mem_map.mp (hlabels.mpr ⟨set, hset, hw⟩)
    exact of_decide_eq_true (List.length_filter_eq_length_iff.mp hlength.symm it hit)
  · intro hwords
    refine Result.eq_of_items
      ((replaceFrom_result o true).trans (replaceFrom_result o false).symm) ?_
    rw [h.items_true, h.items_upper, List.filter_eq_self.mpr]
    intro it hit
    obtain ⟨set, hset, hw⟩ := hlabels.mp (List.mem_map_of_mem hit)
    exact decide_eq_true (hwords set hset _ hw)

end Offer.Cased

/-! ## Both cases of a context -/

variable {s : Dialect.Spec} {text : String} {t : Tree} {offset : ℕ} {c : Context} {o : Offer}

theorem lowerAscii_of_mem_dialectSet {w : String} (hw : w ∈ (dialectSet (.define s)).words) :
    lowerAscii w = w := by
  obtain ⟨e, he, rfl⟩ := List.mem_map.mp (WordSet.mem_ofList.mp hw)
  exact lowerAscii_of_mem_define s e he

theorem lowerAscii_of_mem_dataTypeSet {w : String} (hw : w ∈ (dataTypeSet (.define s)).words) :
    lowerAscii w = w := by
  have htypes : ∀ w ∈ dataTypes, lowerAscii w = w := by
    decide +kernel
  rcases mem_dataTypeSet.mp hw with hw | hw
  · exact htypes w hw
  · exact lowerAscii_of_mem_dialectSet (WordSet.mem_ofList.mpr (mem_wordsOf hw))

theorem cased_offer (hoffer : offer (.define s) text t offset c = some o) :
    (∃ block table, c = .indexColumns block table) ∨ o.Cased ∧ ∀ r, Result.recase r c = r.upper := by
  have hscript : ∀ sn ∈ scriptSnippets, upperAscii sn.label ≠ sn.label := by
    decide +kernel
  have htable : ∀ sn ∈ tableSnippets, upperAscii sn.label ≠ sn.label := by
    decide +kernel
  have htype : ∀ sn ∈ dataTypeSnippets, upperAscii sn.label ≠ sn.label := by
    decide +kernel
  have hoptions : ∀ w ∈ optionSet.words, lowerAscii w = w := by
    decide +kernel
  have hindex : ∀ w ∈ indexTypeSet.words, lowerAscii w = w := by
    decide +kernel
  cases c with
  | topLevel e =>
    cases hoffer
    exact .inr ⟨⟨rfl, List.forall_mem_nil _, hscript⟩, fun _ => rfl⟩
  | dataType e =>
    cases hoffer
    refine .inr ⟨⟨rfl, List.forall_mem_singleton.mpr fun w hw => ?_, htype⟩, fun _ => rfl⟩
    exact lowerAscii_of_mem_dataTypeSet hw
  | options e =>
    cases hoffer
    exact .inr ⟨⟨rfl, List.forall_mem_singleton.mpr hoptions, List.forall_mem_nil _⟩, fun _ => rfl⟩
  | indexType index replaceFrom hasUnique hasMethod =>
    rw [offer] at hoffer
    split at hoffer
    · cases hoffer
    · cases hoffer
      refine .inr ⟨⟨rfl, List.forall_mem_singleton.mpr fun w hw => ?_, List.forall_mem_nil _⟩,
        fun _ => rfl⟩
      exact hindex w (WordSet.mem_exclude.mp hw).1
  | indexColumns block table => exact .inl ⟨block, table, rfl⟩
  | column i =>
    cases hoffer
    refine .inr ⟨⟨rfl, List.forall_mem_cons.mpr ⟨fun w hw => ?_,
      List.forall_mem_singleton.mpr fun w hw => ?_⟩, htype⟩, fun _ => rfl⟩
    · exact lowerAscii_of_mem_dataTypeSet hw
    · exact lowerAscii_of_mem_dialectSet hw
  | tableBody i =>
    cases hoffer
    exact .inr ⟨⟨rfl, List.forall_mem_nil _, htable⟩, fun _ => rfl⟩
  | script =>
    cases hoffer
    exact .inr ⟨⟨rfl, List.forall_mem_nil _, hscript⟩, fun _ => rfl⟩

/-- Only words of the dialect can repeat labels of snippets. -/
theorem forall_words_iff {d : Dialect} (hoffer : offer d text t offset c = some o) :
    (∀ set ∈ o.words, ∀ w ∈ set.words, w ∉ o.snippets.map (·.label)) ↔
      ∀ w ∈ c.dialectWords d, w ∉ dataTypeSnippets.map (·.label) := by
  have htypes : ∀ w ∈ dataTypes, w ∉ dataTypeSnippets.map (·.label) := by
    decide +kernel
  have hset (h : ∀ w ∈ d.wordsOf .type, w ∉ dataTypeSnippets.map (·.label)) :
      ∀ w ∈ (dataTypeSet d).words, w ∉ dataTypeSnippets.map (·.label) :=
    fun w hw => (mem_dataTypeSet.mp hw).elim (htypes w) (h w)
  cases c with
  | indexType index replaceFrom hasUnique hasMethod =>
    rw [offer] at hoffer
    split at hoffer
    · cases hoffer
    · cases hoffer
      simp [Context.dialectWords]
  | dataType e =>
    cases hoffer
    rw [List.forall_mem_singleton]
    exact ⟨fun h w hw => h w (mem_dataTypeSet.mpr (.inr hw)), hset⟩
  | column i =>
    cases hoffer
    rw [List.forall_mem_cons, List.forall_mem_singleton]
    constructor
    · rintro ⟨-, h⟩ w hw
      exact h w (WordSet.mem_ofList.mpr hw)
    · intro h
      exact ⟨hset fun w hw => h w (mem_wordsOf hw), fun w hw => h w (WordSet.mem_ofList.mp hw)⟩
  | _ =>
    cases hoffer
    simp [Context.dialectWords]

theorem dialectWords_of_offer {d : Dialect} (hoffer : offer d text t offset c = none) :
    c.dialectWords d = [] := by
  cases c with
  | indexType => rfl
  | _ => cases hoffer

theorem withoutRepeats_of_keywords {r : Result} (h : ∀ it ∈ r.items, it.kind = .keyword) :
    r.withoutRepeats = r := by
  have hlabels : r.snippetLabels = [] := by
    rw [Result.snippetLabels, List.filter_eq_nil_iff.mpr, List.map_nil]
    intro it hit
    simp [h it hit]
  refine Result.eq_of_items rfl (List.filter_eq_self.mpr fun it _ => ?_)
  simp [Result.repeats, hlabels]

/-- The result in upper case is the one in lower case with its words in upper case, and with words
added that are labels of snippets. None is added exactly if no word that the context takes from the
dialect is such a label. -/
theorem letter_case_up_to_repeats (s : Dialect.Spec) (text : String) (t : Tree) (offset : ℕ) :
    (detect text t offset = none →
      ∀ upperCase, resolve (.define s) upperCase text t offset = none) ∧
    ∀ c, detect text t offset = some c →
      (resolve (.define s) true text t offset).map Result.withoutRepeats =
        (resolve (.define s) false text t offset).map (·.recase c) ∧
      (resolve (.define s) true text t offset =
          (resolve (.define s) false text t offset).map (·.recase c) ↔
        ∀ w ∈ c.dialectWords (.define s), w ∉ dataTypeSnippets.map (·.label)) := by
  constructor
  · intro hnone upperCase
    rw [resolve_eq, hnone]
    rfl
  · intro c hc
    rw [resolve_eq, resolve_eq, hc, Option.bind_some]
    cases hoffer : offer (.define s) text t (min offset (size text)) c with
    | none => simp [dialectWords_of_offer hoffer]
    | some o =>
      simp only [Option.map_some, Option.some.injEq]
      rw [← forall_words_iff hoffer]
      rcases cased_offer hoffer with ⟨block, table, rfl⟩ | ⟨h, hrecase⟩
      · cases hoffer
        refine ⟨withoutRepeats_of_keywords fun it hit => ?_, ?_⟩
        · rw [items_result] at hit
          exact kind_of_mem_columnItems (Result.mem_of_mem_distinct hit)
        · exact iff_of_true rfl (List.forall_mem_nil _)
      · rw [hrecase]
        exact ⟨h.withoutRepeats_result, h.result_true_iff⟩

/-- No snippet offers the one type of this dialect, so the letter case decides nothing more. -/
theorem letter_case_up_to_repeats_uuid :
    let d := Dialect.define { Dialect.Spec.named "d" with keywords := some "", types := some "uuid" }
    let t := Tree.ofEvents [.start .sourceFile 0, .start .column 0, .finish 2, .finish 2]
    detect "id" t 2 = some (.column 1) ∧
      resolve d true "id" t 2 = (resolve d false "id" t 2).map (·.recase (.column 1)) := by
  intro d t
  have hcontext : detect "id" t 2 = some (.column 1) := by
    decide +kernel
  have hwords : ∀ w ∈ (Context.column 1).dialectWords d, w ∉ dataTypeSnippets.map (·.label) := by
    decide +kernel
  exact ⟨hcontext, ((letter_case_up_to_repeats _ "id" t 2).2 _ hcontext).2.mpr hwords⟩

/-- A type that a snippet offers too is listed behind the snippet, but only in upper case. -/
theorem upper_case_lists_more :
    let d := Dialect.define { Dialect.Spec.named "d" with keywords := some "", types := some "int" }
    let t := Tree.ofEvents [.start .sourceFile 0, .start .column 0, .finish 2, .finish 2]
    detect "id" t 2 = some (.column 1) ∧
      (resolve d false "id" t 2).map (·.items.length) = some 45 ∧
      (resolve d true "id" t 2).map (·.items.length) = some 46 ∧
      resolve d true "id" t 2 ≠ (resolve d false "id" t 2).map (·.recase (.column 1)) := by
  intro d t
  have hlower : (resolve d false "id" t 2).map (·.items.length) = some 45 := by
    decide +kernel
  have hupper : (resolve d true "id" t 2).map (·.items.length) = some 46 := by
    decide +kernel
  refine ⟨by decide +kernel, hlower, hupper, fun h => ?_⟩
  have hcount : (fun r : Result => (r.recase (.column 1)).items.length) = fun r => r.items.length :=
    funext fun r => List.length_map _
  rw [h, Option.map_map, Function.comp_def, hcount, hlower] at hupper
  cases hupper

end SchemaAssist.Completion

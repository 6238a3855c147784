import SchemaAssist.Proofs.Completion.Ranking

/-! # Bounds on priorities

The words of a set count up from the priority of the first one, so the priorities of a result stay
below what the number of words of the dialect allows.
-/
namespace SchemaAssist.Completion
open Syntax

namespace WordSet

theorem size_add_le (s : WordSet) (word : String) : (s.add word).size ≤ s.size + 1 := by
  unfold add
  split
  · exact Nat.le_succ _
  · simp [size]

theorem size_extend_le (s : WordSet) (words : List String) :
    (s.extend words).size ≤ s.size + words.length := by
  induction words generalizing s with
  | nil => exact Nat.le_refl _
  | cons word words ih =>
    have hadd := s.size_add_le word
    have hrest := ih (s.add word)
    rw [extend, List.foldl_cons, ← extend, List.length_cons]
    omega

theorem size_ofList_le (words : List String) : (ofList words).size ≤ words.length := by
  have h := size_extend_le empty words
  rwa [show empty.size = 0 from rfl, Nat.zero_add] at h

theorem size_exclude_le (s : WordSet) (words : List String) : (s.exclude words).size ≤ s.size :=
  List.length_filter_le _ _

end WordSet

section
variable {d : Dialect} {upperCase : Bool} {text : String} {t : Tree} {offset : ℕ} {c : Context}
  {o : Offer} {r : Result} {it : Item}

theorem size_dataTypeSet_le (d : Dialect) :
    (dataTypeSet d).size ≤ dataTypes.length + d.words.entries.length := by
  have hfixed := WordSet.size_ofList_le dataTypes
  have htypes : (d.wordsOf .type).length ≤ d.words.entries.length := by
    rw [Dialect.wordsOf, List.length_map]
    exact List.length_filter_le _ _
  have hextend := WordSet.size_extend_le (.ofList dataTypes) (d.wordsOf .type)
  rw [dataTypeSet]
  omega

theorem size_dialectSet_le (d : Dialect) : (dialectSet d).size ≤ d.words.entries.length := by
  have h := WordSet.size_ofList_le (d.words.entries.map (·.1))
  rwa [List.length_map] at h

theorem size_le_of_offer (ho : offer d text t offset c = some o) :
    ∀ set ∈ o.words, set.size ≤ dataTypes.length + d.words.entries.length := by
  have hfixed : dataTypes.length = 33 := rfl
  have htypes := size_dataTypeSet_le d
  have hwords := size_dialectSet_le d
  have hoptions : optionSet.size ≤ 10 := WordSet.size_ofList_le optionWords
  have hindex : indexTypeSet.size ≤ 3 := by decide
  cases c with
  | indexType index replaceFrom hasUnique hasMethod =>
    have hexclude := WordSet.size_exclude_le indexTypeSet (writtenWords hasUnique hasMethod)
    rw [offer] at ho
    split at ho
    · cases ho
    · cases ho
      rw [List.forall_mem_singleton]
      omega
  | dataType e =>
    cases ho
    exact List.forall_mem_singleton.mpr htypes
  | options e =>
    cases ho
    exact List.forall_mem_singleton.mpr (by omega)
  | column i =>
    cases ho
    exact List.forall_mem_cons.mpr ⟨htypes, List.forall_mem_singleton.mpr (by omega)⟩
  | _ =>
    cases ho
    exact List.forall_mem_nil _

theorem priority_lt_of_mem_wordItems {s : WordSet} (h : it ∈ wordItems upperCase s) :
    it.priority < wordPriority + s.size := by
  obtain ⟨w, hw, rfl⟩ := List.mem_map.mp h
  have hlt := List.snd_lt_of_mem_zipIdx hw
  rw [Nat.add_zero] at hlt
  exact Nat.add_lt_add_left hlt _

theorem priority_le_of_offer (ho : offer d text t offset c = some o) (hit : it ∈ o.columns) :
    it.priority ≤ columnPriority := by
  cases c with
  | indexColumns block table =>
    cases ho
    obtain ⟨w, -, rfl⟩ := List.mem_map.mp hit
    exact Nat.sub_le _ _
  | indexType index replaceFrom hasUnique hasMethod =>
    rw [offer] at ho
    split at ho <;> cases ho
    cases hit
  | _ =>
    cases ho
    cases hit

theorem priority_lt_of_resolve (hr : resolve d upperCase text t offset = some r)
    (hit : it ∈ r.items) :
    it.priority < wordPriority + (dataTypes.length + d.words.entries.length) := by
  rw [resolve_eq, Option.map_eq_some_iff] at hr
  obtain ⟨o, ho, rfl⟩ := hr
  obtain ⟨c, -, ho⟩ := Option.bind_eq_some_iff.mp ho
  rw [items_result] at hit
  have hit := Result.mem_of_mem_distinct hit
  rw [Offer.items] at hit
  rcases List.mem_append.mp hit with hit | hit
  · rcases List.mem_append.mp hit with hit | hit
    · have hlt := priority_lt_of_mem_snippetItems hit
      have hfew := (ordered_offer ho).few
      omega
    · obtain ⟨set, hset, hit⟩ := List.mem_flatMap.mp hit
      have hlt := priority_lt_of_mem_wordItems hit
      have hsize := size_le_of_offer ho set hset
      omega
  · have hle := priority_le_of_offer ho hit
    have hcolumn : columnPriority < wordPriority := by decide
    omega

end

end SchemaAssist.Completion

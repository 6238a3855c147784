import Mathlib.Data.String.Basic
import SchemaAssist.Protocol.Render
import SchemaAssist.Proofs.Completion.Priorities
import SchemaAssist.Proofs.Text.ByteOrder

/-! # The order an editor shows

An editor sorts suggestions by the bytes of their keys and labels. Keys have five digits, so they have
the order of the priorities as long as these need no more, which is so for every dialect of no more
than 99,000 words. So the editor shows the order of the ranking.
-/
namespace SchemaAssist

/-! ## Digits -/

namespace Protocol

variable {w n k : ℕ}

theorem append_lt_append_of_length_eq {α : Type} [LT α] {l l' : List α} (hlength : l.length = l'.length)
    (h : l < l') (s t : List α) : l ++ s < l' ++ t := by
  induction l generalizing l' with
  | nil =>
    rw [List.eq_nil_of_length_eq_zero hlength.symm] at h
    exact absurd h (List.not_lt_nil _)
  | cons x l ih =>
    cases l' with
    | nil => cases hlength
    | cons y l' =>
      rw [List.cons_append, List.cons_append]
      rcases List.cons_lt_cons_iff.mp h with hxy | ⟨rfl, hll⟩
      · exact List.cons_lt_cons_iff.mpr (.inl hxy)
      · exact List.cons_lt_cons_iff.mpr (.inr ⟨rfl, ih (Nat.succ.inj hlength) hll⟩)

/-- The decimal digits of a number, with zeros in front up to a width. -/
def padded (width n : ℕ) : List Char :=
  let digits := Nat.toDigits 10 n
  List.replicate (width - digits.length) '0' ++ digits

theorem toList_sortKey (n : ℕ) : (sortKey n).toList = padded 5 n := String.toList_ofList

theorem padded_one (h : n < 10) : padded 1 n = [Nat.digitChar n] := by
  rw [padded, Nat.toDigits_of_lt_base h]
  rfl

theorem padded_succ (hw : 0 < w) (n : ℕ) :
    padded (w + 1) n = padded w (n / 10) ++ [Nat.digitChar (n % 10)] := by
  rw [padded, padded, List.append_assoc]
  by_cases h : n < 10
  · obtain ⟨w, rfl⟩ : ∃ v, w = v + 1 := ⟨w - 1, by omega⟩
    rw [Nat.toDigits_of_lt_base h, Nat.div_eq_of_lt h, Nat.mod_eq_of_lt h, Nat.toDigits_zero]
    simp [List.replicate_succ']
  · rw [Nat.toDigits_of_base_le (by decide) (Nat.le_of_not_lt h), List.length_append,
      List.length_singleton, Nat.add_sub_add_right]

theorem length_padded (hw : 0 < w) (h : n < 10 ^ w) : (padded w n).length = w := by
  have hdigits := (Nat.length_toDigits_le_iff (by decide) hw).mpr h
  rw [padded, List.length_append, List.length_replicate]
  omega

theorem digitChar_lt : ∀ b < 10, ∀ a < b, Nat.digitChar a < Nat.digitChar b := by
  decide

theorem padded_lt_padded (hw : 0 < w) (hnk : n < k) (hk : k < 10 ^ w) : padded w n < padded w k := by
  induction w, hw using Nat.le_induction generalizing n k with
  | base =>
    rw [padded_one (by omega), padded_one (by omega)]
    exact List.cons_lt_cons_iff.mpr (.inl (digitChar_lt k (by omega) n hnk))
  | succ w hw ih =>
    rw [padded_succ hw, padded_succ hw]
    rw [Nat.pow_succ] at hk
    have hbound : k / 10 < 10 ^ w := by omega
    rcases Nat.lt_or_ge (n / 10) (k / 10) with hlt | hge
    · have hlength := (length_padded hw (hlt.trans hbound)).trans (length_padded hw hbound).symm
      exact append_lt_append_of_length_eq hlength (ih hlt hbound) _ _
    · have heq : n / 10 = k / 10 := by omega
      rw [heq]
      refine List.append_left_lt (List.cons_lt_cons_iff.mpr (.inl ?_))
      exact digitChar_lt _ (Nat.mod_lt _ (by decide)) _ (by omega)

/-! ## Keys -/

/-- The bytes of a text. -/
def bytes (text : String) : List UInt8 := Text.utf8 text.toList

/-- The order of suggestions by the bytes of their keys, and by those of their labels where the keys
are the same. -/
def CompletionItem.sortsBefore (a b : CompletionItem) : Bool :=
  decide (bytes a.sortText < bytes b.sortText) ||
    (bytes a.sortText = bytes b.sortText && decide (bytes a.label ≤ bytes b.label))

theorem bytes_sortKey_lt (hnk : n < k) (hk : k < 10 ^ 5) :
    bytes (sortKey n) < bytes (sortKey k) := by
  rw [bytes, bytes, Text.utf8_lt_utf8_iff, toList_sortKey, toList_sortKey]
  exact padded_lt_padded (by decide) hnk hk

theorem bytes_sortKey_lt_iff (hn : n < 10 ^ 5) (hk : k < 10 ^ 5) :
    bytes (sortKey n) < bytes (sortKey k) ↔ n < k := by
  refine ⟨fun h => ?_, fun h => bytes_sortKey_lt h hk⟩
  rcases Nat.lt_trichotomy n k with hlt | rfl | hgt
  · exact hlt
  · exact absurd h (List.lt_irrefl _)
  · exact absurd h (List.lt_asymm (bytes_sortKey_lt hgt hn))

theorem bytes_sortKey_inj (hn : n < 10 ^ 5) (hk : k < 10 ^ 5) :
    bytes (sortKey n) = bytes (sortKey k) ↔ n = k := by
  refine ⟨fun h => ?_, fun h => by rw [h]⟩
  have hlt := bytes_sortKey_lt_iff hn hk
  have hgt := bytes_sortKey_lt_iff hk hn
  rw [h, iff_false_left (List.lt_irrefl _)] at hlt
  rw [h, iff_false_left (List.lt_irrefl _)] at hgt
  omega

open Completion (Item Result)

theorem sortsBefore_completionItem {a b : Item} (ha : a.priority < 10 ^ 5) (hb : b.priority < 10 ^ 5)
    (text : String) (replaceFrom cursor : ℕ) (snippetSupport : Bool) :
    (completionItem text a replaceFrom cursor snippetSupport).sortsBefore
      (completionItem text b replaceFrom cursor snippetSupport) = a.ranksBefore b := by
  rw [Bool.eq_iff_iff, Item.ranksBefore_iff]
  simp only [CompletionItem.sortsBefore, completionItem, Bool.or_eq_true, Bool.and_eq_true,
    decide_eq_true_iff, bytes_sortKey_lt_iff ha hb, bytes_sortKey_inj ha hb]
  rw [bytes, bytes, Text.utf8_le_utf8_iff]

section
variable {r : Result} (hpriority : ∀ it ∈ r.items, it.priority < 10 ^ 5) (text : String)
  (cursor : ℕ) (snippetSupport : Bool)
include hpriority

theorem mergeSort_completionList :
    (completionList text r cursor snippetSupport).mergeSort CompletionItem.sortsBefore =
      r.sorted.map fun it => completionItem text it r.replaceFrom cursor snippetSupport := by
  rw [completionList, Result.sorted]
  refine (List.map_mergeSort fun a ha b hb => ?_).symm
  rw [sortsBefore_completionItem (hpriority a ha) (hpriority b hb)]

theorem eq_mergeSort_completionList (hlabels : r.labels.Nodup) {shown : List CompletionItem}
    (hperm : shown.Perm (completionList text r cursor snippetSupport))
    (hshown : shown.Pairwise fun a b => a.sortsBefore b = true) :
    shown = r.sorted.map fun it => completionItem text it r.replaceFrom cursor snippetSupport := by
  have hsorted : (r.sorted.map fun it =>
      completionItem text it r.replaceFrom cursor snippetSupport).Pairwise
        fun a b => a.sortsBefore b = true := by
    rw [List.pairwise_map]
    refine r.pairwise_sorted.imp_of_mem fun {a b} ha hb hab => ?_
    rw [r.perm_sorted.mem_iff] at ha hb
    rwa [sortsBefore_completionItem (hpriority a ha) (hpriority b hb)]
  have hmem (x : CompletionItem) (hx : x ∈ shown) : ∃ it ∈ r.items,
      completionItem text it r.replaceFrom cursor snippetSupport = x :=
    List.mem_map.mp (hperm.mem_iff.mp hx)
  refine (hperm.trans (r.perm_sorted.map _).symm).eq_of_pairwise ?_ hshown hsorted
  intro x y hx hy hxy hyx
  obtain ⟨a, ha, rfl⟩ := hmem x hx
  obtain ⟨b, hb, rfl⟩ := List.mem_map.mp hy
  rw [r.perm_sorted.mem_iff] at hb
  rw [sortsBefore_completionItem (hpriority a ha) (hpriority b hb)] at hxy
  rw [sortsBefore_completionItem (hpriority b hb) (hpriority a ha)] at hyx
  rw [List.inj_on_of_nodup_map hlabels ha hb (Item.label_eq hxy hyx)]

end

end Protocol

open Protocol Completion Syntax

/-- For a dialect of no more than 99,000 words the keys of suggestions have the order of their
priorities. Sorted by keys and then by labels, byte by byte, the suggestions that an editor is sent
have their ranking, and that is the only way to sort them. -/
theorem ranked_by_sortText (d : Dialect) (hwords : d.words.entries.length ≤ 99000) (upperCase : Bool)
    (text : String) (t : Tree) (offset : ℕ) (r : Result)
    (hr : resolve d upperCase text t offset = some r) :
    (∀ a ∈ r.items, ∀ b ∈ r.items,
      bytes (sortKey a.priority) < bytes (sortKey b.priority) ↔ a.priority < b.priority) ∧
    ∀ cursor snippetSupport,
      let sent := completionList text r cursor snippetSupport
      (sent.mergeSort CompletionItem.sortsBefore).map (·.label) = r.sorted.map (·.label) ∧
      ∀ shown : List CompletionItem, shown.Perm sent →
        shown.Pairwise (fun a b => a.sortsBefore b = true) → shown.map (·.label) = r.sorted.map (·.label) := by
  have hpriority : ∀ it ∈ r.items, it.priority < 10 ^ 5 := by
    intro it hit
    have hlt := priority_lt_of_resolve hr hit
    have hfixed : wordPriority + dataTypes.length = 133 := rfl
    omega
  have hlabels : r.labels.Nodup := by
    rw [resolve_eq, Option.map_eq_some_iff] at hr
    obtain ⟨o, -, rfl⟩ := hr
    exact Result.nodup_labels o upperCase
  refine ⟨fun a ha b hb => bytes_sortKey_lt_iff (hpriority a ha) (hpriority b hb),
    fun cursor snippetSupport => ⟨?_, fun shown hperm hshown => ?_⟩⟩
  · rw [mergeSort_completionList hpriority, List.map_map]
    rfl
  · rw [eq_mergeSort_completionList hpriority text cursor snippetSupport hlabels hperm hshown,
      List.map_map]
    rfl

/-- Columns whose priorities have fewer digits than those of words. -/
theorem ranked_by_sortText_columns :
    let t := Tree.ofEvents [.start .sourceFile 0, .start .tableBlock 0,
      .start .column 0, .leaf .columnName 0 1, .finish 1,
      .start .column 2, .leaf .columnName 2 3, .finish 3,
      .start .index 4, .start .indexColumnBlock 4, .finish 6]
    let d := Dialect.define { Dialect.Spec.named "d" with keywords := some "pk", types := some "" }
    let r : Result := ⟨[.keyword "a" 99, .keyword "b" 98], 5⟩
    d.words.entries.length ≤ 99000 ∧ resolve d true "a b ()" t 5 = some r ∧
      ((completionList "a b ()" r 5 true).mergeSort CompletionItem.sortsBefore).map (·.label) =
        ["b", "a"] := by
  intro t d r
  have hwords : d.words.entries.length ≤ 99000 := by
    decide +kernel
  have hr : resolve d true "a b ()" t 5 = some r := by
    decide +kernel
  have hsorted : r.sorted = [.keyword "b" 98, .keyword "a" 99] :=
    Result.sorted_eq (by decide) (.swap _ _ _) (by decide +kernel)
  refine ⟨hwords, hr, ((ranked_by_sortText d hwords true _ t 5 r hr).2 5 true).1.trans ?_⟩
  rw [hsorted]
  rfl

end SchemaAssist

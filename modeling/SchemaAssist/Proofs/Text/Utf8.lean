import Mathlib.Data.List.TakeWhile
import SchemaAssist.Token.Lexer

/-! # Bytes and characters

The bytes of a text are read as characters one by one. A character of ASCII is its own only byte,
and no byte of another character is one of ASCII.
-/
namespace SchemaAssist.Text
open Token

@[simp] theorem utf8_nil : utf8 [] = [] := rfl

@[simp] theorem utf8_cons (c : Char) (cs : List Char) :
    utf8 (c :: cs) = String.utf8EncodeChar c ++ utf8 cs := rfl

@[simp] theorem length_utf8 (cs : List Char) : (utf8 cs).length = byteLength cs := by
  induction cs with
  | nil => rfl
  | cons c rest ih => simp [ih]

/-- The bytes of a character, each read as the character with its number. -/
def units (c : Char) : List Char := (String.utf8EncodeChar c).map Char.ofUInt8

@[simp] theorem length_units (c : Char) : (units c).length = c.utf8Size := by simp [units]

theorem units_ne_nil (c : Char) : units c ≠ [] := by
  intro h
  have hc := Char.utf8Size_pos c
  rw [← length_units, h] at hc
  exact Nat.lt_irrefl 0 hc

theorem map_ofUInt8_utf8 (cs : List Char) : (utf8 cs).map Char.ofUInt8 = cs.flatMap units :=
  List.map_flatMap

theorem toNat_ofUInt8 (b : UInt8) : (Char.ofUInt8 b).toNat = b.toNat := rfl

theorem units_of_isAscii {c : Char} (h : isAscii c = true) : units c = [c] := by
  have hc : c.val.toNat ≤ 0x7f := by
    have := of_decide_eq_true h
    change c.toNat ≤ 0x7f
    omega
  have he : String.utf8EncodeChar c = [UInt8.ofNat c.val.toNat] := by
    rw [String.utf8EncodeChar]
    exact if_pos hc
  rw [units, he, List.map_singleton]
  congr 1
  apply Char.ext
  apply UInt32.toNat_inj.mp
  change (UInt8.ofNat c.val.toNat).toNat = c.val.toNat
  rw [UInt8.toNat_ofNat']
  omega

theorem utf8Size_of_isAscii {c : Char} (h : isAscii c = true) : c.utf8Size = 1 := by
  rw [← length_units, units_of_isAscii h]
  rfl

theorem byteLength_of_forall_isAscii {cs : List Char} (h : ∀ c ∈ cs, isAscii c = true) :
    byteLength cs = cs.length := by
  induction cs with
  | nil => rfl
  | cons c rest ih =>
    rw [byteLength_cons, utf8Size_of_isAscii (h c List.mem_cons_self),
      ih fun x hx => h x (List.mem_cons_of_mem _ hx), List.length_cons, Nat.add_comm]

theorem not_isAscii_of_mem_units {c u : Char} (h : isAscii c = false) (hu : u ∈ units c) :
    isAscii u = false := by
  have hc : ¬ c.val.toNat ≤ 0x7f := by
    have := of_decide_eq_false h
    change ¬ c.toNat ≤ 0x7f
    omega
  obtain ⟨b, hb, rfl⟩ := List.mem_map.mp hu
  have hbyte : 0x80 ≤ b.toNat := by
    simp only [String.utf8EncodeChar, if_neg hc] at hb
    split at hb
    · simp only [List.mem_cons, List.not_mem_nil, or_false] at hb
      rcases hb with rfl | rfl <;> (rw [UInt8.toNat_ofNat']; omega)
    · split at hb
      · simp only [List.mem_cons, List.not_mem_nil, or_false] at hb
        rcases hb with rfl | rfl | rfl <;> (rw [UInt8.toNat_ofNat']; omega)
      · simp only [List.mem_cons, List.not_mem_nil, or_false] at hb
        rcases hb with rfl | rfl | rfl | rfl <;> (rw [UInt8.toNat_ofNat']; omega)
  apply decide_eq_false
  rw [toNat_ofUInt8]
  omega

/-! ## Boundaries -/

/-- An offset at which a character of the text starts or the text ends. -/
def IsBoundary (text : String) (offset : Nat) : Prop :=
  ∃ pre post, text.toList = pre ++ post ∧ byteLength pre = offset

theorem isBoundary_iff_splitAt? {text : String} {offset : Nat} :
    IsBoundary text offset ↔ (splitAt? offset text.toList).isSome = true := by
  constructor
  · rintro ⟨pre, post, htext, rfl⟩
    rw [htext, splitAt?_byteLength, Option.isSome_some]
  · intro h
    obtain ⟨⟨pre, post⟩, hcut⟩ := Option.isSome_iff_exists.mp h
    obtain ⟨happend, hlen⟩ := append_of_splitAt? hcut
    exact ⟨pre, post, happend.symm, hlen⟩

theorem exists_around_of_splitAt? {cs : List Char} {offset : Nat} (h : offset ≤ byteLength cs)
    (hcut : splitAt? offset cs = none) : ∃ pre c post, cs = pre ++ c :: post ∧
      byteLength pre < offset ∧ offset < byteLength pre + c.utf8Size := by
  induction cs generalizing offset with
  | nil =>
    obtain rfl : offset = 0 := Nat.le_zero.mp h
    cases hcut
  | cons c rest ih =>
    cases offset with
    | zero => cases hcut
    | succ n =>
      rw [splitAt?] at hcut
      rw [byteLength_cons] at h
      by_cases hc : c.utf8Size ≤ n + 1
      · rw [if_pos hc, Option.map_eq_none_iff] at hcut
        obtain ⟨pre, x, post, hrest, hlow, hhigh⟩ := ih (by omega) hcut
        refine ⟨c :: pre, x, post, by rw [hrest, List.cons_append], ?_, ?_⟩ <;>
          (rw [byteLength_cons]; omega)
      · exact ⟨[], c, rest, rfl, Nat.succ_pos n, by rw [byteLength_nil]; omega⟩

theorem exists_floorBoundary (cs : List Char) (offset : Nat) :
    ∃ pre post, cs = pre ++ post ∧ byteLength pre = floorBoundary cs offset := by
  induction cs generalizing offset with
  | nil => exact ⟨[], [], rfl, rfl⟩
  | cons c rest ih =>
    rw [floorBoundary]
    by_cases hc : c.utf8Size ≤ offset
    · obtain ⟨pre, post, hrest, hlen⟩ := ih (offset - c.utf8Size)
      exact ⟨c :: pre, post, by rw [hrest, List.cons_append], by rw [if_pos hc, byteLength_cons, hlen]⟩
    · exact ⟨[], c :: rest, rfl, by rw [if_neg hc, byteLength_nil]⟩

theorem floorBoundary_append (pre post : List Char) :
    floorBoundary (pre ++ post) (byteLength pre) = byteLength pre := by
  induction pre with
  | nil =>
    have := floorBoundary_le post 0
    rw [List.nil_append, byteLength_nil]
    omega
  | cons c rest ih =>
    rw [List.cons_append, byteLength_cons, floorBoundary, if_pos (Nat.le_add_right _ _),
      Nat.add_sub_cancel_left, ih]

theorem byteLength_le_floorBoundary {pre post : List Char} {offset : Nat}
    (h : byteLength pre ≤ offset) : byteLength pre ≤ floorBoundary (pre ++ post) offset := by
  induction pre generalizing offset with
  | nil => exact Nat.zero_le _
  | cons c rest ih =>
    rw [byteLength_cons] at h
    have hle : byteLength rest ≤ offset - c.utf8Size := by omega
    have hrest := ih hle
    rw [List.cons_append, byteLength_cons, floorBoundary, if_pos (by omega)]
    omega

theorem floorBoundary_of_isBoundary {text : String} {offset : Nat} (h : IsBoundary text offset) :
    floorBoundary text.toList offset = offset := by
  obtain ⟨pre, post, htext, rfl⟩ := h
  rw [htext, floorBoundary_append]

theorem slice?_eq {text : String} {a b c : List Char} (h : text.toList = a ++ b ++ c) :
    slice? text (byteLength a) (byteLength a + byteLength b) = some (String.ofList b) := by
  rw [slice?, sliceChars?, if_pos (Nat.le_add_right _ _), h, List.append_assoc,
    splitAt?_byteLength, Option.bind_some, Nat.add_sub_cancel_left, splitAt?_byteLength]
  rfl

theorem append_of_slice? {text : String} {first last : Nat} {piece : String}
    (h : slice? text first last = some piece) : ∃ a c, text.toList = a ++ piece.toList ++ c ∧
      byteLength a = first ∧ first + byteLength piece.toList = last := by
  obtain ⟨cs, hcs, rfl⟩ := Option.map_eq_some_iff.mp h
  unfold sliceChars? at hcs
  split_ifs at hcs with hle
  obtain ⟨⟨a, rest⟩, ha, hcs⟩ := Option.bind_eq_some_iff.mp hcs
  obtain ⟨⟨b, c⟩, hb, rfl⟩ := Option.map_eq_some_iff.mp hcs
  obtain ⟨htext, hfirst⟩ := append_of_splitAt? ha
  obtain ⟨hrest, hlen⟩ := append_of_splitAt? hb
  refine ⟨a, c, ?_, hfirst, ?_⟩
  · simpa [hrest] using htext.symm
  · rw [String.toList_ofList, hlen]
    omega

end SchemaAssist.Text

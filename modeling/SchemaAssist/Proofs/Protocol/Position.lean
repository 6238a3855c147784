import SchemaAssist.Protocol.Position
import SchemaAssist.Proofs.Text.Utf8

/-! # Offsets and positions

The position of an offset is where the characters before it lead from the start of the text. In a
text whose length fits 32 bits, reading that position gives the boundary at or below the offset,
and larger offsets have no smaller positions.
-/
namespace SchemaAssist.Protocol
open Text

namespace Position

/-- The order of the text: by lines, and by columns within a line. -/
instance : LE Position := ⟨fun p q => p.line < q.line ∨ p.line = q.line ∧ p.character ≤ q.character⟩

instance (p q : Position) : Decidable (p ≤ q) := inferInstanceAs (Decidable (_ ∨ _))

theorem le_iff {p q : Position} :
    p ≤ q ↔ p.line < q.line ∨ p.line = q.line ∧ p.character ≤ q.character := Iff.rfl

theorem le_refl (p : Position) : p ≤ p := .inr ⟨rfl, Nat.le_refl _⟩

theorem le_trans {p q r : Position} (hpq : p ≤ q) (hqr : q ≤ r) : p ≤ r := by
  rw [le_iff] at *
  omega

theorem le_after (p : Position) (c : Char) : p ≤ p.after c := by
  rw [le_iff, after]
  split
  · exact .inl (Nat.lt_succ_self _)
  · exact .inr ⟨rfl, Nat.le_add_right _ _⟩

/-- The position behind some characters. -/
def advance (p : Position) (cs : List Char) : Position := cs.foldl after p

@[simp] theorem advance_nil (p : Position) : p.advance [] = p := rfl

@[simp] theorem advance_cons (p : Position) (c : Char) (cs : List Char) :
    p.advance (c :: cs) = (p.after c).advance cs := rfl

theorem after_of_eq {p : Position} {c : Char} (hc : c = '\n') : p.after c = ⟨p.line + 1, 0⟩ :=
  if_pos hc

theorem after_of_ne {p : Position} {c : Char} (hc : c ≠ '\n') :
    p.after c = ⟨p.line, p.character + units c⟩ :=
  if_neg hc

theorem le_advance (p : Position) (cs : List Char) : p ≤ p.advance cs := by
  induction cs generalizing p with
  | nil => exact le_refl p
  | cons c rest ih => exact le_trans (le_after p c) (ih (p.after c))

theorem advance_eq (line character : Nat) (cs : List Char) :
    (⟨line, character⟩ : Position).advance cs =
      let q := (⟨0, 0⟩ : Position).advance cs
      ⟨line + q.line, if q.line = 0 then character + q.character else q.character⟩ := by
  induction cs generalizing line character with
  | nil => rfl
  | cons c rest ih =>
    by_cases hc : c = '\n'
    · simp only [advance_cons, after_of_eq hc, ih (line + 1), ih (0 + 1), Position.mk.injEq]
      constructor
      · omega
      · split_ifs <;> omega
    · simp only [advance_cons, after_of_ne hc, ih line (character + units c), ih 0 (0 + units c),
        Position.mk.injEq]
      constructor
      · omega
      · split_ifs <;> omega

end Position

/-! ## Positions in 32 bits -/

theorem units_pos (c : Char) : 0 < units c := by
  rw [units]
  split <;> decide

theorem units_le_utf8Size (c : Char) : units c ≤ c.utf8Size := by
  have hpos := c.utf8Size_pos
  rw [units]
  split
  · exact hpos
  · next hlarge =>
    have hne : c.utf8Size ≠ 1 := by
      intro hone
      have hval : c.toNat ≤ 0x7f := UInt32.le_iff_toNat_le.mp (Char.utf8Size_eq_one_iff.mp hone)
      omega
    omega

theorem advance_le (p : Position) (cs : List Char) :
    (p.advance cs).line ≤ p.line + byteLength cs ∧
      (p.advance cs).character ≤ p.character + byteLength cs := by
  induction cs generalizing p with
  | nil => simp
  | cons c rest ih =>
    obtain ⟨hline, hcharacter⟩ := ih (p.after c)
    have hunits := units_le_utf8Size c
    have hsize := c.utf8Size_pos
    rw [Position.advance_cons, byteLength_cons]
    by_cases hc : c = '\n'
    · rw [Position.after_of_eq hc] at *
      dsimp only at *
      omega
    · rw [Position.after_of_ne hc] at *
      dsimp only at *
      omega

/-! ## From offsets to positions -/

theorem positionFrom_append (p : Position) (pre post : List Char) :
    positionFrom p (pre ++ post) (byteLength pre) = p.advance pre := by
  induction pre generalizing p with
  | nil =>
    cases post with
    | nil => rfl
    | cons c rest =>
      have hpos := c.utf8Size_pos
      rw [List.nil_append, byteLength_nil, positionFrom, if_neg (by omega), Position.advance_nil]
  | cons c rest ih =>
    rw [List.cons_append, byteLength_cons, positionFrom, if_pos (Nat.le_add_right _ _),
      Nat.add_sub_cancel_left, ih, Position.advance_cons]

theorem positionFrom_floorBoundary (p : Position) (cs : List Char) (offset : Nat) :
    positionFrom p cs (floorBoundary cs offset) = positionFrom p cs offset := by
  induction cs generalizing p offset with
  | nil => rfl
  | cons c rest ih =>
    have hpos := c.utf8Size_pos
    rw [floorBoundary]
    by_cases hc : c.utf8Size ≤ offset
    · rw [if_pos hc, positionFrom, positionFrom, if_pos (Nat.le_add_right _ _), if_pos hc,
        Nat.add_sub_cancel_left, ih]
    · rw [if_neg hc, positionFrom, positionFrom, if_neg (by omega), if_neg hc]

theorem positionFrom_mono (p : Position) (cs : List Char) {a b : Nat} (hab : a ≤ b) :
    positionFrom p cs a ≤ positionFrom p cs b := by
  induction cs generalizing p a b with
  | nil => exact Position.le_refl p
  | cons c rest ih =>
    rw [positionFrom, positionFrom]
    by_cases ha : c.utf8Size ≤ a
    · rw [if_pos ha, if_pos (Nat.le_trans ha hab)]
      exact ih (p.after c) (Nat.sub_le_sub_right hab _)
    · rw [if_neg ha]
      split
      · obtain ⟨pre, post, rfl, hlen⟩ := exists_floorBoundary rest (b - c.utf8Size)
        rw [← positionFrom_floorBoundary, ← hlen, positionFrom_append]
        exact Position.le_trans (Position.le_after p c) (Position.le_advance _ pre)
      · exact Position.le_refl p

section
variable {text : String} (h : size text < UInt32.size)
include h

theorem positionAt_eq (offset : Nat) :
    positionAt text offset = positionFrom ⟨0, 0⟩ text.toList offset := by
  obtain ⟨pre, post, htext, hlen⟩ := exists_floorBoundary text.toList offset
  have hsize : byteLength pre ≤ size text := by
    rw [size, htext, byteLength_append]
    exact Nat.le_add_right _ _
  have hpos : positionFrom ⟨0, 0⟩ text.toList offset = (⟨0, 0⟩ : Position).advance pre := by
    rw [← positionFrom_floorBoundary, ← hlen, htext, positionFrom_append]
  obtain ⟨hline, hcharacter⟩ := advance_le ⟨0, 0⟩ pre
  rw [Nat.zero_add] at hline hcharacter
  rw [positionAt, hpos, Position.truncate,
    Nat.mod_eq_of_lt (Nat.lt_of_le_of_lt (Nat.le_trans hline hsize) h),
    Nat.mod_eq_of_lt (Nat.lt_of_le_of_lt (Nat.le_trans hcharacter hsize) h)]

theorem positionAt_mono {a b : Nat} (hab : a ≤ b) : positionAt text a ≤ positionAt text b := by
  rw [positionAt_eq h, positionAt_eq h]
  exact positionFrom_mono _ _ hab

end

/-! ## From positions to offsets -/

theorem offsetAt?_lineEnd (cs : List Char) (p : Position) :
    offsetAt? (String.ofList ('\n' :: cs)) ⟨p.line + 1, p.character⟩ =
      (offsetAt? (String.ofList cs) p).map ('\n'.utf8Size + ·) := by
  simp only [offsetAt?, String.toList_ofList, lineAt?, if_true, Option.map_map]
  congr 1
  funext l
  exact Nat.add_assoc _ _ _

theorem offsetAt?_below {c : Char} (hc : c ≠ '\n') (cs : List Char) (line character : Nat) :
    offsetAt? (String.ofList (c :: cs)) ⟨line + 1, character⟩ =
      (offsetAt? (String.ofList cs) ⟨line + 1, character⟩).map (c.utf8Size + ·) := by
  simp only [offsetAt?, String.toList_ofList, lineAt?, if_neg hc, Option.map_map]
  congr 1
  funext l
  exact Nat.add_assoc _ _ _

theorem offsetAt?_inside {c : Char} (hc : c ≠ '\n') (cs : List Char) (character : Nat) :
    offsetAt? (String.ofList (c :: cs)) ⟨0, units c + character⟩ =
      (offsetAt? (String.ofList cs) ⟨0, character⟩).map (c.utf8Size + ·) := by
  have hunits := units_pos c
  have hgo : (decide (units c + character = 0) || decide (c = '\n')) = false := by
    simp only [hc, decide_false, Bool.or_false, decide_eq_false_iff_not]
    omega
  simp only [offsetAt?, String.toList_ofList, lineAt?, Option.map_some, columnOffset, hgo,
    Bool.false_eq_true, if_false, Nat.add_sub_cancel_left, Nat.zero_add]

theorem offsetAt?_advance (pre post : List Char) :
    offsetAt? (String.ofList (pre ++ post)) ((⟨0, 0⟩ : Position).advance pre) =
      some (byteLength pre) := by
  induction pre with
  | nil => cases post <;> simp [offsetAt?, lineAt?, columnOffset]
  | cons c rest ih =>
    rw [List.cons_append, byteLength_cons, Position.advance_cons]
    generalize hq : (⟨0, 0⟩ : Position).advance rest = q at ih
    by_cases hc : c = '\n'
    · rw [Position.after_of_eq hc, Position.advance_eq, hq, hc]
      simp only [Nat.zero_add, ite_self, Nat.add_comm 1]
      rw [offsetAt?_lineEnd, ih, Option.map_some]
    · rw [Position.after_of_ne hc, Position.advance_eq, hq]
      obtain ⟨line, character⟩ := q
      cases line with
      | zero =>
        simp only [Nat.zero_add, if_true]
        rw [offsetAt?_inside hc, ih, Option.map_some]
      | succ line =>
        simp only [Nat.zero_add, Nat.succ_ne_zero, if_false]
        rw [offsetAt?_below hc, ih, Option.map_some]

/-- The position of an offset leads back to the boundary below the offset. -/
theorem offsetAt?_positionAt {text : String} (h : size text < UInt32.size) (offset : Nat) :
    offsetAt? text (positionAt text offset) = some (floorBoundary text.toList offset) := by
  obtain ⟨pre, post, htext, hlen⟩ := exists_floorBoundary text.toList offset
  have hcut : text = String.ofList (pre ++ post) := by
    rw [← htext, String.ofList_toList]
  rw [positionAt_eq h, ← positionFrom_floorBoundary, ← hlen, htext, positionFrom_append, hcut,
    offsetAt?_advance]

end SchemaAssist.Protocol

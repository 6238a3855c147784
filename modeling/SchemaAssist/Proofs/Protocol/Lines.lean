import Mathlib.Order.Bounds.Basic
import Mathlib.Order.Monotone.Basic
import SchemaAssist.Proofs.Protocol.Position

/-! # Lines and columns

A line starts with the text or behind a line end, and goes on to the next line end or the end of the
text. The boundaries of a text have positions that go up with them. The offset of a position is the
first boundary of its line that is not before its column, and the end of the line if there is none.
-/
namespace SchemaAssist.Protocol
open Text

/-- Units of some characters. -/
def columns : List Char → ℕ
  | [] => 0
  | c :: rest => units c + columns rest

@[simp] theorem columns_nil : columns [] = 0 := rfl

@[simp] theorem columns_cons (c : Char) (cs : List Char) : columns (c :: cs) = units c + columns cs :=
  rfl

@[simp] theorem columns_append (a b : List Char) : columns (a ++ b) = columns a + columns b := by
  induction a with
  | nil => rw [List.nil_append, columns_nil, Nat.zero_add]
  | cons c rest ih => rw [List.cons_append, columns_cons, columns_cons, ih, Nat.add_assoc]

/-- A text cut around the line with a number: what is before the line, the line without its end, and
the rest. -/
structure IsLine (text : String) (number : ℕ) (before line after : List Char) : Prop where
  text_eq : text.toList = before ++ (line ++ after)
  number_eq : before.count '\n' = number
  starts : before = [] ∨ ∃ init, before = init ++ ['\n']
  unbroken : '\n' ∉ line
  ends : after = [] ∨ ∃ rest, after = '\n' :: rest

variable {text : String} {before line after u v cs : List Char} {p : Position} {n column : ℕ}

/-! ## Positions of boundaries -/

instance : PartialOrder Position where
  lt p q := p.line < q.line ∨ p.line = q.line ∧ p.character < q.character
  le_refl := Position.le_refl
  le_trans _ _ _ := Position.le_trans
  lt_iff_le_not_ge p q := by
    rw [Position.le_iff, Position.le_iff]
    omega
  le_antisymm p q hpq hqp := by
    rw [Position.le_iff] at hpq hqp
    obtain ⟨line, character⟩ := p
    obtain ⟨line', character'⟩ := q
    rw [Position.mk.injEq]
    dsimp only at *
    omega

namespace Position

theorem advance_append (p : Position) (a b : List Char) :
    p.advance (a ++ b) = (p.advance a).advance b :=
  List.foldl_append

theorem line_advance (p : Position) (cs : List Char) :
    (p.advance cs).line = p.line + cs.count '\n' := by
  induction cs generalizing p with
  | nil => rfl
  | cons c rest ih =>
    rw [advance_cons, ih]
    by_cases hc : c = '\n'
    · rw [after_of_eq hc, hc, List.count_cons_self, Nat.add_assoc, Nat.add_comm 1]
    · rw [after_of_ne hc, List.count_cons_of_ne hc]

theorem character_advance (h : cs = [] ∨ ∃ init, cs = init ++ ['\n']) :
    ((⟨0, 0⟩ : Position).advance cs).character = 0 := by
  rcases h with rfl | ⟨init, rfl⟩
  · rfl
  · rw [advance_append, advance_cons, advance_nil, after_of_eq rfl]

theorem advance_of_notMem (h : '\n' ∉ cs) (p : Position) :
    p.advance cs = ⟨p.line, p.character + columns cs⟩ := by
  induction cs generalizing p with
  | nil => rfl
  | cons c rest ih =>
    rw [List.mem_cons, not_or] at h
    rw [advance_cons, after_of_ne (Ne.symm h.1), ih h.2, columns_cons, Nat.add_assoc]

end Position

theorem positionAt_byteLength (hsize : size text < UInt32.size) {pre post : List Char}
    (htext : text.toList = pre ++ post) :
    positionAt text (byteLength pre) = (⟨0, 0⟩ : Position).advance pre := by
  rw [positionAt_eq hsize, htext, positionFrom_append]

theorem IsLine.positionAt (h : IsLine text n before (u ++ v) after)
    (hsize : size text < UInt32.size) :
    positionAt text (byteLength (before ++ u)) = ⟨n, columns u⟩ := by
  have htext : text.toList = (before ++ u) ++ (v ++ after) := by
    rw [h.text_eq, List.append_assoc, List.append_assoc]
  have hunbroken : '\n' ∉ u := fun hu => h.unbroken (List.mem_append_left _ hu)
  rw [positionAt_byteLength hsize htext, Position.advance_append,
    Position.advance_of_notMem hunbroken, Position.line_advance,
    Position.character_advance h.starts, h.number_eq, Nat.zero_add, Nat.zero_add]

/-- Different boundaries have different positions, for each position leads back. -/
theorem strictMonoOn_positionAt (hsize : size text < UInt32.size) :
    StrictMonoOn (positionAt text) {b | IsBoundary text b} := by
  refine MonotoneOn.strictMonoOn_of_injOn (fun a _ b _ hab => positionAt_mono hsize hab) ?_
  intro a ha b hb hab
  have hoffset := congrArg (offsetAt? text) hab
  rwa [offsetAt?_positionAt hsize, offsetAt?_positionAt hsize, floorBoundary_of_isBoundary ha,
    floorBoundary_of_isBoundary hb, Option.some.injEq] at hoffset

theorem isGreatest_floorBoundary (text : String) (offset : ℕ) :
    IsGreatest {b | IsBoundary text b ∧ b ≤ min offset (size text)}
      (floorBoundary text.toList offset) := by
  constructor
  · obtain ⟨pre, post, htext, hlen⟩ := exists_floorBoundary text.toList offset
    refine ⟨⟨pre, post, htext, hlen⟩, Nat.le_min.mpr ⟨floorBoundary_le _ _, ?_⟩⟩
    rw [← hlen, size, htext, byteLength_append]
    exact Nat.le_add_right _ _
  · rintro b ⟨⟨pre, post, htext, rfl⟩, hle⟩
    rw [htext]
    exact byteLength_le_floorBoundary (Nat.le_min.mp hle).1

/-! ## Offsets of positions -/

theorem lineAt?_eq_none_iff : lineAt? n cs = none ↔ cs.count '\n' < n := by
  induction cs generalizing n with
  | nil => cases n <;> simp [lineAt?]
  | cons c rest ih =>
    cases n with
    | zero => simp [lineAt?]
    | succ n =>
      rw [lineAt?, Option.map_eq_none_iff, ih]
      by_cases hc : c = '\n'
      · rw [if_pos hc, hc, List.count_cons_self]
        omega
      · rw [if_neg hc, List.count_cons_of_ne hc]

theorem exists_init_cons {c : Char} (hc : before = [] → c = '\n')
    (h : before = [] ∨ ∃ init, before = init ++ ['\n']) : ∃ init, c :: before = init ++ ['\n'] := by
  rcases h with rfl | ⟨init, rfl⟩
  · exact ⟨[], by rw [hc rfl, List.nil_append]⟩
  · exact ⟨c :: init, rfl⟩

theorem exists_lineStart (h : n ≤ cs.count '\n') : ∃ before rest, cs = before ++ rest ∧
    before.count '\n' = n ∧ (before = [] ∨ ∃ init, before = init ++ ['\n']) := by
  induction cs generalizing n with
  | nil => exact ⟨[], [], rfl, (Nat.le_zero.mp h).symm, .inl rfl⟩
  | cons c cs ih =>
    cases n with
    | zero => exact ⟨[], c :: cs, rfl, rfl, .inl rfl⟩
    | succ n =>
      by_cases hc : c = '\n'
      · rw [hc, List.count_cons_self] at h
        obtain ⟨before, rest, hcs, hcount, hstarts⟩ := ih (Nat.le_of_succ_le_succ h)
        refine ⟨c :: before, rest, by rw [hcs, List.cons_append], ?_, .inr ?_⟩
        · rw [hc, List.count_cons_self, hcount]
        · exact exists_init_cons (fun _ => hc) hstarts
      · rw [List.count_cons_of_ne hc] at h
        obtain ⟨before, rest, hcs, hcount, hstarts⟩ := ih h
        refine ⟨c :: before, rest, by rw [hcs, List.cons_append], ?_, .inr ?_⟩
        · rw [List.count_cons_of_ne hc, hcount]
        · refine exists_init_cons (fun hnil => ?_) hstarts
          rw [hnil] at hcount
          cases hcount

theorem exists_isLine (h : n ≤ text.toList.count '\n') :
    ∃ before line after, IsLine text n before line after := by
  obtain ⟨before, rest, htext, hcount, hstarts⟩ := exists_lineStart h
  refine ⟨before, rest.takeWhile (· ≠ '\n'), rest.dropWhile (· ≠ '\n'), ?_, hcount, hstarts, ?_, ?_⟩
  · rw [List.takeWhile_append_dropWhile, htext]
  · intro hmem
    simpa using List.mem_takeWhile_imp hmem
  · cases hafter : rest.dropWhile (· ≠ '\n') with
    | nil => exact .inl rfl
    | cons c after =>
      have hne : rest.dropWhile (· ≠ '\n') ≠ [] := hafter ▸ List.cons_ne_nil c after
      have hc := List.head_dropWhile_not (· ≠ '\n') hne
      simp only [hafter, List.head_cons] at hc
      obtain rfl : c = '\n' := by simpa using hc
      exact .inr ⟨after, rfl⟩

theorem lineAt?_lineEnd (init rest : List Char) :
    lineAt? (init.count '\n' + 1) (init ++ '\n' :: rest) =
      some (byteLength (init ++ ['\n']), rest) := by
  induction init with
  | nil => simp [lineAt?]
  | cons c init ih =>
    by_cases hc : c = '\n'
    · rw [List.cons_append, hc, List.count_cons_self, lineAt?, if_pos rfl, ih]
      rfl
    · rw [List.cons_append, List.count_cons_of_ne hc, lineAt?, if_neg hc, ih]
      rfl

theorem IsLine.offsetAt? (h : IsLine text p.line before line after) : offsetAt? text p =
    some (byteLength before + columnOffset (line ++ after) p.character) := by
  rw [Protocol.offsetAt?, h.text_eq, ← h.number_eq]
  rcases h.starts with rfl | ⟨init, rfl⟩
  · simp [lineAt?]
  · rw [List.append_assoc, List.singleton_append, List.count_append, List.count_singleton_self,
      lineAt?_lineEnd, Option.map_some]

theorem exists_columnOffset (hline : '\n' ∉ line) (hafter : after = [] ∨ ∃ rest, after = '\n' :: rest)
    (column : ℕ) : ∃ u v, line = u ++ v ∧ columnOffset (line ++ after) column = byteLength u ∧
      (v = [] ∨ column ≤ columns u) ∧
      ∀ u' v', line = u' ++ v' → column ≤ columns u' → byteLength u ≤ byteLength u' := by
  induction line generalizing column with
  | nil =>
    refine ⟨[], [], rfl, ?_, .inl rfl, fun _ _ _ _ => Nat.zero_le _⟩
    rcases hafter with rfl | ⟨rest, rfl⟩ <;> simp [columnOffset]
  | cons c line ih =>
    rw [List.mem_cons, not_or] at hline
    by_cases hcolumn : column = 0
    · refine ⟨[], c :: line, rfl, ?_, .inr ?_, fun _ _ _ _ => Nat.zero_le _⟩
      · simp [columnOffset, hcolumn]
      · rw [hcolumn, columns_nil]
    · obtain ⟨u, v, hsplit, hoffset, hreach, hleast⟩ := ih hline.2 (column - units c)
      refine ⟨c :: u, v, by rw [hsplit, List.cons_append], ?_, ?_, ?_⟩
      · simp [columnOffset, hcolumn, Ne.symm hline.1, hoffset]
      · rw [columns_cons]
        exact hreach.imp_right fun h => by omega
      · intro u' v' hsplit' hreach'
        cases u' with
        | nil => exact absurd (Nat.le_zero.mp hreach') hcolumn
        | cons d u' =>
          rw [List.cons_append, List.cons.injEq] at hsplit'
          obtain ⟨rfl, hsplit'⟩ := hsplit'
          rw [columns_cons] at hreach'
          have hle := hleast u' v' hsplit' (by omega)
          rw [byteLength_cons, byteLength_cons]
          omega

/-- Boundaries of a line that are not before a column. -/
def reaching (before line : List Char) (column : ℕ) : Set ℕ :=
  {b | ∃ u v, line = u ++ v ∧ column ≤ columns u ∧ b = byteLength (before ++ u)}

theorem IsLine.exists_offsetAt? (h : IsLine text p.line before line after) :
    ∃ u v, line = u ++ v ∧ Protocol.offsetAt? text p = some (byteLength (before ++ u)) ∧
      (v = [] ∨ p.character ≤ columns u) ∧
      ∀ b ∈ reaching before line p.character, byteLength (before ++ u) ≤ b := by
  obtain ⟨u, v, hsplit, hoffset, hreach, hleast⟩ :=
    exists_columnOffset h.unbroken h.ends p.character
  refine ⟨u, v, hsplit, by rw [h.offsetAt?, hoffset, byteLength_append], hreach, ?_⟩
  rintro b ⟨u', v', hsplit', hreach', rfl⟩
  rw [byteLength_append, byteLength_append]
  exact Nat.add_le_add_left (hleast u' v' hsplit' hreach') _

theorem IsLine.column_cases (h : IsLine text p.line before line after) :
    ∃ u v, line = u ++ v ∧ Protocol.offsetAt? text p = some (byteLength (before ++ u)) ∧
      (columns u = p.character ∨ v = [] ∧ columns u < p.character ∨
        ∃ w c, u = w ++ [c] ∧ columns w < p.character ∧ p.character < columns w + units c) := by
  obtain ⟨u, v, hsplit, hoffset, hreach, hleast⟩ := h.exists_offsetAt?
  refine ⟨u, v, hsplit, hoffset, ?_⟩
  rcases Nat.lt_trichotomy (columns u) p.character with hlt | heq | hgt
  · exact .inr (.inl ⟨hreach.resolve_right (Nat.not_le_of_lt hlt), hlt⟩)
  · exact .inl heq
  · rcases List.eq_nil_or_concat u with rfl | ⟨w, c, rfl⟩
    · exact absurd hgt (Nat.not_lt_zero _)
    · rw [List.concat_eq_append] at hsplit hleast hgt ⊢
      refine .inr (.inr ⟨w, c, rfl, ?_, ?_⟩)
      · -- otherwise the boundary before the character would do
        by_contra hle
        have hb := hleast _ ⟨w, [c] ++ v, by rw [hsplit, List.append_assoc], Nat.le_of_not_lt hle, rfl⟩
        have hc := c.utf8Size_pos
        simp only [byteLength_append, byteLength_cons] at hb
        omega
      · rwa [columns_append, columns_cons, columns_nil] at hgt

theorem IsLine.offset_cases (h : IsLine text p.line before line after) :
    ∃ b, Protocol.offsetAt? text p = some b ∧
      (IsLeast (reaching before line p.character) b ∨
        reaching before line p.character = ∅ ∧ b = byteLength (before ++ line)) := by
  obtain ⟨u, v, hsplit, hoffset, hreach, hleast⟩ := h.exists_offsetAt?
  refine ⟨_, hoffset, ?_⟩
  by_cases hcolumn : p.character ≤ columns u
  · exact .inl ⟨⟨u, v, hsplit, hcolumn, rfl⟩, hleast⟩
  · obtain rfl : v = [] := hreach.resolve_right hcolumn
    rw [List.append_nil] at hsplit
    refine .inr ⟨Set.eq_empty_iff_forall_notMem.mpr ?_, by rw [hsplit]⟩
    rintro b ⟨u', v', hsplit', hreach', -⟩
    rw [← hsplit, hsplit', columns_append] at hcolumn
    omega

/-- The position of an offset leads back to the largest boundary up to the offset. Positions do not go
down when offsets go up, and they go up from boundary to boundary. A position has no offset just if its
line is past the last one. Otherwise its offset is the first boundary of the line that is not before
its column, or the end of the line if there is none. -/
theorem positions_and_offsets (text : String) (hsize : size text < UInt32.size) :
    (∀ offset, ∃ b, offsetAt? text (positionAt text offset) = some b ∧
      IsGreatest {b | IsBoundary text b ∧ b ≤ min offset (size text)} b) ∧
    Monotone (positionAt text) ∧ StrictMonoOn (positionAt text) {b | IsBoundary text b} ∧
    ∀ p : Position, (offsetAt? text p = none ↔ text.toList.count '\n' < p.line) ∧
      (p.line ≤ text.toList.count '\n' →
        ∃ before line after, IsLine text p.line before line after) ∧
      ∀ before line after, IsLine text p.line before line after →
        ∃ b, offsetAt? text p = some b ∧
          (IsLeast (reaching before line p.character) b ∨
            reaching before line p.character = ∅ ∧ b = byteLength (before ++ line)) := by
  refine ⟨fun offset => ?_, fun a b hab => positionAt_mono hsize hab, strictMonoOn_positionAt hsize,
    fun p => ⟨?_, exists_isLine, fun before line after h => h.offset_cases⟩⟩
  · exact ⟨_, offsetAt?_positionAt hsize offset, isGreatest_floorBoundary text offset⟩
  · rw [offsetAt?, Option.map_eq_none_iff, lineAt?_eq_none_iff]

/-- A character of two units, with an offset and a column inside it. -/
theorem positions_and_offsets_pair :
    let text := "a𝄞b\n"
    let line := ['a', '𝄞', 'b']
    size text < UInt32.size ∧ IsGreatest {b | IsBoundary text b ∧ b ≤ min 3 (size text)} 1 ∧
      positionAt text 1 < positionAt text 5 ∧ offsetAt? text ⟨2, 0⟩ = none ∧
      IsLine text 0 [] line ['\n'] ∧ offsetAt? text ⟨0, 2⟩ = some 5 ∧
      IsLeast (reaching [] line 2) 5 := by
  intro text line
  have hsize : size text < UInt32.size := by
    decide +kernel
  obtain ⟨hgreatest, -, hmono, hoffset⟩ := positions_and_offsets text hsize
  have hinside : offsetAt? text (positionAt text 3) = some 1 := by
    decide +kernel
  obtain ⟨b, hb, hgreatest⟩ := hgreatest 3
  obtain rfl : 1 = b := Option.some.inj (hinside.symm.trans hb)
  have hbefore : IsBoundary text 1 := ⟨['a'], ['𝄞', 'b', '\n'], by decide +kernel, by decide⟩
  have hbehind : IsBoundary text 5 := ⟨['a', '𝄞'], ['b', '\n'], by decide +kernel, by decide⟩
  have hline : IsLine text 0 [] line ['\n'] :=
    ⟨by decide +kernel, rfl, .inl rfl, by decide, .inr ⟨[], rfl⟩⟩
  have hcolumn : offsetAt? text ⟨0, 2⟩ = some 5 := by
    decide +kernel
  refine ⟨hsize, hgreatest, hmono hbefore hbehind (by decide), ?_, hline, hcolumn, ?_⟩
  · exact (hoffset ⟨2, 0⟩).1.mpr (by decide +kernel)
  · obtain ⟨b, hb, hleast | ⟨-, hend⟩⟩ := (hoffset ⟨0, 2⟩).2.2 _ _ _ hline
    · rwa [← Option.some.inj (hcolumn.symm.trans hb)] at hleast
    · rw [← Option.some.inj (hcolumn.symm.trans hb)] at hend
      exact absurd hend (by decide)

end SchemaAssist.Protocol

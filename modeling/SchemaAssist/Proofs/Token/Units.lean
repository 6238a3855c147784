import SchemaAssist.Proofs.Text.Utf8

/-! # Lengths in bytes

A length measured over the bytes of a text is the byte length of the characters it covers. This
needs only that the signs a rule looks for are signs of ASCII.
-/
namespace SchemaAssist.Token
open Text

/-- A class of characters that holds ASCII characters only. -/
def WithinAscii (p : Char → Bool) : Prop := ∀ c, p c = true → isAscii c = true

theorem WithinAscii.eq_false {p : Char → Bool} (hp : WithinAscii p) {c : Char}
    (hc : isAscii c = false) : p c = false := by
  cases h : p c with
  | false => rfl
  | true => rw [← hc, hp c h]

theorem WithinAscii.units_eq {p : Char → Bool} (hp : WithinAscii p) (c : Char) :
    ∀ u ∈ units c, p u = p c := by
  intro u hu
  cases hc : isAscii c with
  | true =>
    rw [units_of_isAscii hc, List.mem_singleton] at hu
    rw [hu]
  | false => rw [hp.eq_false hc, hp.eq_false (not_isAscii_of_mem_units hc hu)]

theorem withinAscii_of_eq {x : Char} (hx : isAscii x = true) : WithinAscii (· = x) := by
  intro c hc
  rw [of_decide_eq_true hc]
  exact hx

theorem withinAscii_of_toNat_lt {p : Char → Bool} (h : ∀ c, p c = true → c.toNat < 0x80) :
    WithinAscii p := fun c hc => decide_eq_true (h c hc)

theorem withinAscii_and_left {p : Char → Bool} : WithinAscii (fun c => isAscii c && p c) :=
  fun _ hc => (Bool.and_eq_true_iff.mp hc).1

theorem toNat_lt_of_le {a b : Char} {n : Nat} (h : a ≤ b) (hb : b.toNat < n) : a.toNat < n := by
  have : a.toNat ≤ b.toNat := h
  omega

theorem withinAscii_isDigit : WithinAscii Char.isDigit := by
  refine withinAscii_of_toNat_lt fun c hc => ?_
  simp only [Char.isDigit, Bool.and_eq_true, decide_eq_true_eq] at hc
  exact toNat_lt_of_le (b := '9') hc.2 (by decide)

theorem withinAscii_isAlphanum : WithinAscii Char.isAlphanum := by
  refine withinAscii_of_toNat_lt fun c hc => ?_
  rcases Bool.or_eq_true_iff.mp hc with h | h
  · rcases Bool.or_eq_true_iff.mp h with h | h
    · exact toNat_lt_of_le (b := 'Z') (of_decide_eq_true h).2 (by decide)
    · exact toNat_lt_of_le (b := 'z') (of_decide_eq_true (Bool.and_eq_true_iff.mp h).2) (by decide)
  · exact toNat_lt_of_le (b := '9') (of_decide_eq_true (Bool.and_eq_true_iff.mp h).2) (by decide)

theorem withinAscii_isWordChar : WithinAscii isWordChar := by
  intro c hc
  rcases Bool.or_eq_true_iff.mp hc with h | h
  · exact withinAscii_of_eq (x := '_') (by decide) c h
  · exact withinAscii_isAlphanum c h

theorem withinAscii_isSpace : WithinAscii isSpace := by
  intro c hc
  simp only [isSpace, Bool.or_eq_true, decide_eq_true_eq] at hc
  rcases hc with ((rfl | rfl) | rfl) | rfl <;> decide

theorem withinAscii_isBinaryDigit : WithinAscii isBinaryDigit := by
  intro c hc
  simp only [isBinaryDigit, Bool.or_eq_true, decide_eq_true_eq] at hc
  rcases hc with rfl | rfl <;> decide

theorem withinAscii_isHexDigit : WithinAscii isHexDigit := by
  intro c hc
  simp only [isHexDigit, Bool.or_eq_true, Bool.and_eq_true, decide_eq_true_eq] at hc
  rcases hc with (h | h) | h
  · exact withinAscii_isDigit c h
  · exact decide_eq_true (toNat_lt_of_le (b := 'f') h.2 (by decide))
  · exact decide_eq_true (toNat_lt_of_le (b := 'F') h.2 (by decide))

theorem WithinAscii.any_utf8_eq {p : Char → Bool} (hp : WithinAscii p) {a b c cs : List Char}
    {i : Nat} {v : Bool} (hcs : cs = a ++ b ++ c) (hb : ∀ x ∈ b, p x = v) (hfirst : byteLength a ≤ i)
    (hlast : i < byteLength a + byteLength b) :
    ((utf8 cs)[i]?.any fun byte => p (Char.ofUInt8 byte)) = v := by
  obtain ⟨k, rfl⟩ := Nat.exists_eq_add_of_le hfirst
  have hk : k < (utf8 b).length := by
    rw [length_utf8]
    omega
  have hbytes : utf8 cs = utf8 a ++ (utf8 b ++ utf8 c) := by
    simp only [hcs, utf8, List.flatMap_append, List.append_assoc]
  have hget : (utf8 cs)[byteLength a + k]? = some (utf8 b)[k] := by
    rw [hbytes, ← length_utf8, List.getElem?_append_right (Nat.le_add_right _ _),
      Nat.add_sub_cancel_left, List.getElem?_append_left hk, List.getElem?_eq_getElem hk]
  obtain ⟨x, hx, hbyte⟩ := List.mem_flatMap.mp (List.getElem_mem hk)
  rw [hget, Option.any_some, ← hb x hx]
  exact hp.units_eq x _ (List.mem_map_of_mem hbyte)

theorem WithinAscii.any_utf8_pred {p : Char → Bool} (hp : WithinAscii p) {a c cs : List Char}
    {x : Char} {i : Nat} {v : Bool} (hcs : cs = a ++ [x] ++ c) (hx : p x = v)
    (hi : i + 1 = byteLength (a ++ [x])) :
    ((utf8 cs)[i]?.any fun byte => p (Char.ofUInt8 byte)) = v := by
  have hsize := x.utf8Size_pos
  rw [byteLength_append, byteLength_cons, byteLength_nil] at hi
  refine hp.any_utf8_eq hcs (List.forall_mem_singleton.mpr hx) (by omega) ?_
  rw [byteLength_cons, byteLength_nil]
  omega

/-! ## Runs -/

theorem take_runLength (p : Char → Bool) (cs : List Char) :
    cs.take (runLength p cs) = cs.takeWhile p :=
  (List.prefix_iff_eq_take.mp (List.takeWhile_prefix p)).symm

theorem drop_runLength (p : Char → Bool) (cs : List Char) :
    cs.drop (runLength p cs) = cs.dropWhile p := by
  have hsplit := List.take_append_drop (runLength p cs) cs
  rw [take_runLength] at hsplit
  exact List.append_cancel_left (hsplit.trans List.takeWhile_append_dropWhile.symm)

theorem runLength_append {p : Char → Bool} {us : List Char} (hu : ∀ u ∈ us, p u = true)
    (rest : List Char) : runLength p (us ++ rest) = us.length + runLength p rest := by
  rw [runLength, List.takeWhile_append_of_pos hu, List.length_append, runLength]

theorem runLength_units {p q : Char → Bool} (h : ∀ c, ∀ u ∈ units c, p u = q c) (cs : List Char) :
    runLength p (cs.flatMap units) = byteLength (cs.take (runLength q cs)) := by
  induction cs with
  | nil => rfl
  | cons c rest ih =>
    rw [List.flatMap_cons]
    cases hc : q c with
    | true =>
      have hu : ∀ u ∈ units c, p u = true := fun u hu => (h c u hu).trans hc
      have hq : runLength q (c :: rest) = runLength q rest + 1 := by simp [runLength, hc]
      rw [runLength_append hu, ih, hq, List.take_succ_cons, byteLength_cons, length_units]
    | false =>
      obtain ⟨u, us, hus⟩ := List.exists_cons_of_ne_nil (units_ne_nil c)
      have hu : p u = false := (h c u (hus ▸ List.mem_cons_self)).trans hc
      simp [runLength, hus, hu, hc]

/-! ## Literals, comments and numbers -/

theorem ne_of_isAscii {u x : Char} (hu : isAscii u = false) (hx : isAscii x = true) : u ≠ x := by
  rintro rfl
  simp [hu] at hx

theorem literalLength_append {quote : Char} (hq : isAscii quote = true) (escapes hidden : Bool)
    {us : List Char} (hne : us ≠ []) (hu : ∀ u ∈ us, isAscii u = false) (rest : List Char) :
    literalLength quote escapes hidden (us ++ rest) =
      us.length + literalLength quote escapes false rest := by
  induction us generalizing hidden with
  | nil => exact absurd rfl hne
  | cons u us ih =>
    have hascii := hu u List.mem_cons_self
    have hquote : u ≠ quote := ne_of_isAscii hascii hq
    have hslash : u ≠ '\\' := ne_of_isAscii hascii (by decide)
    have hstep : literalLength quote escapes hidden (u :: (us ++ rest)) =
        1 + literalLength quote escapes false (us ++ rest) := by
      simp [literalLength, hquote, hslash]
    rw [List.cons_append, hstep]
    cases us with
    | nil => rfl
    | cons v vs =>
      rw [ih false (by simp) fun w hw => hu w (List.mem_cons_of_mem _ hw)]
      simp only [List.length_cons]
      omega

theorem literalLength_units {quote : Char} (hq : isAscii quote = true) (escapes hidden : Bool)
    (cs : List Char) : literalLength quote escapes hidden (cs.flatMap units) =
      byteLength (cs.take (literalLength quote escapes hidden cs)) := by
  induction cs generalizing hidden with
  | nil => rfl
  | cons c rest ih =>
    rw [List.flatMap_cons]
    cases hc : isAscii c with
    | true =>
      rw [units_of_isAscii hc, List.singleton_append]
      simp only [literalLength]
      split
      · simp [utf8Size_of_isAscii hc]
      · rw [ih, Nat.add_comm 1, Nat.add_comm 1, List.take_succ_cons, byteLength_cons,
          utf8Size_of_isAscii hc, Nat.add_comm]
    | false =>
      rw [literalLength_append hq _ _ (units_ne_nil c) fun u => not_isAscii_of_mem_units hc, ih]
      have hstep : literalLength quote escapes hidden (c :: rest) =
          literalLength quote escapes false rest + 1 := by
        have hquote : c ≠ quote := ne_of_isAscii hc hq
        have hslash : c ≠ '\\' := ne_of_isAscii hc (by decide)
        simp [literalLength, hquote, hslash, Nat.add_comm]
      rw [hstep, List.take_succ_cons, byteLength_cons, length_units]

theorem commentLength_cons {outer : Nat} {c : Char} {rest : List Char}
    (hclose : c = '*' → rest.head? ≠ some '/') (hopen : c = '/' → rest.head? ≠ some '*') :
    commentLength outer (c :: rest) = 1 + commentLength outer rest := by
  rw [commentLength.eq_def]
  split
  · rename_i h
    cases h
  · rename_i h
    cases h
    simp at hclose
  · rename_i h
    cases h
    simp at hopen
  · rename_i h
    cases h
    rfl

theorem commentLength_append (outer : Nat) {us : List Char} (hu : ∀ u ∈ us, isAscii u = false)
    (rest : List Char) :
    commentLength outer (us ++ rest) = us.length + commentLength outer rest := by
  induction us with
  | nil => simp
  | cons u us ih =>
    have hascii := hu u List.mem_cons_self
    have hstar : u ≠ '*' := ne_of_isAscii hascii (by decide)
    have hslash : u ≠ '/' := ne_of_isAscii hascii (by decide)
    rw [List.cons_append, commentLength_cons (absurd · hstar) (absurd · hslash),
      ih fun w hw => hu w (List.mem_cons_of_mem _ hw), List.length_cons]
    omega

theorem head?_units {cs : List Char} {x : Char} (hx : isAscii x = true) :
    (cs.flatMap units).head? = some x ↔ cs.head? = some x := by
  cases cs with
  | nil => simp
  | cons c rest =>
    rw [List.flatMap_cons, List.head?_cons]
    cases hc : isAscii c with
    | true => rw [units_of_isAscii hc, List.singleton_append, List.head?_cons]
    | false =>
      obtain ⟨u, us, hus⟩ := List.exists_cons_of_ne_nil (units_ne_nil c)
      have hu : u ≠ x :=
        ne_of_isAscii (not_isAscii_of_mem_units hc (hus ▸ List.mem_cons_self)) hx
      rw [hus, List.cons_append, List.head?_cons]
      simp [hu, ne_of_isAscii hc hx]

theorem commentLength_units (outer : Nat) (cs : List Char) :
    commentLength outer (cs.flatMap units) = byteLength (cs.take (commentLength outer cs)) := by
  have hstar : units '*' = ['*'] := units_of_isAscii (by decide)
  have hslash : units '/' = ['/'] := units_of_isAscii (by decide)
  have hsize : ('*').utf8Size = 1 ∧ ('/').utf8Size = 1 := by decide
  fun_induction commentLength outer cs with
  | case1 => rfl
  | case2 rest => simp [hstar, hslash, hsize, commentLength]
  | case3 n rest ih =>
    simp [hstar, hslash, hsize, commentLength, ih, Nat.add_comm 2]
    omega
  | case4 outer rest ih =>
    simp [hstar, hslash, hsize, commentLength, ih, Nat.add_comm 2]
    omega
  | case5 outer c rest hclose hopen ih =>
    have hclose' : c = '*' → rest.head? ≠ some '/' := by
      rintro rfl h
      obtain ⟨r, rfl⟩ := List.head?_eq_some_iff.mp h
      exact hclose r rfl rfl
    have hopen' : c = '/' → rest.head? ≠ some '*' := by
      rintro rfl h
      obtain ⟨r, rfl⟩ := List.head?_eq_some_iff.mp h
      exact hopen r rfl rfl
    rw [List.flatMap_cons, Nat.add_comm 1, List.take_succ_cons, byteLength_cons, ← ih]
    cases hc : isAscii c with
    | true =>
      rw [units_of_isAscii hc, List.singleton_append, utf8Size_of_isAscii hc]
      apply commentLength_cons
      · exact fun h => mt (head?_units (by decide)).mp (hclose' h)
      · exact fun h => mt (head?_units (by decide)).mp (hopen' h)
    | false =>
      -- none of the bytes is a sign of a comment
      rw [commentLength_append _ fun u => not_isAscii_of_mem_units hc, length_units]

theorem mantissaLength_units (sawDot : Bool) (cs : List Char) :
    mantissaLength sawDot (cs.flatMap units) =
      byteLength (cs.take (mantissaLength sawDot cs)) := by
  induction cs generalizing sawDot with
  | nil => rfl
  | cons c rest ih =>
    rw [List.flatMap_cons]
    cases hc : isAscii c with
    | true =>
      rw [units_of_isAscii hc, List.singleton_append]
      simp only [mantissaLength]
      split
      · split
        · rfl
        · rw [ih, Nat.add_comm 1, Nat.add_comm 1, List.take_succ_cons, byteLength_cons,
            utf8Size_of_isAscii hc, Nat.add_comm]
      · split
        · rw [ih, Nat.add_comm 1, Nat.add_comm 1, List.take_succ_cons, byteLength_cons,
            utf8Size_of_isAscii hc, Nat.add_comm]
        · rfl
    | false =>
      obtain ⟨u, us, hus⟩ := List.exists_cons_of_ne_nil (units_ne_nil c)
      have hstop : ∀ v, isAscii v = false → ∀ vs, mantissaLength sawDot (v :: vs) = 0 := by
        intro v hv vs
        have hdot : v ≠ '.' := ne_of_isAscii hv (by decide)
        simp [mantissaLength, hdot, withinAscii_isDigit.eq_false hv]
      rw [hus, List.cons_append, hstop c hc, hstop u
        (not_isAscii_of_mem_units hc (hus ▸ List.mem_cons_self))]
      rfl

end SchemaAssist.Token

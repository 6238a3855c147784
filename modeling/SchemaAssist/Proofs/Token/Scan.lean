import SchemaAssist.Token.Scanner
import SchemaAssist.Proofs.Token.Units

/-! # The scan by bytes is the scan by characters

Each reader of the scanner goes as far as the length of its rule says, first over bytes and from
there over characters. So every token ends where a character ends, and no cut fails.
-/
namespace SchemaAssist.Source
open Text Token
variable {s : Source}

/-- The bytes of a text, each read as a character. -/
def units (s : Source) : List Char := s.bytes.toList.map Char.ofUInt8

theorem units_eq (s : Source) : s.units = s.chars.flatMap Text.units := by
  rw [units, s.bytes_eq, map_ofUInt8_utf8]

theorem size_bytes (s : Source) : s.bytes.size = byteLength s.chars := by
  rw [← Array.length_toList, s.bytes_eq, length_utf8]

theorem drop_units {i : Nat} (h : i < s.bytes.size) :
    s.units.drop i = Char.ofUInt8 s.bytes[i] :: s.units.drop (i + 1) := by
  have hlen : i < s.units.length := by simpa [units] using h
  rw [List.drop_eq_getElem_cons hlen]
  simp [units]

theorem drop_units_of_le {i : Nat} (h : ¬ i < s.bytes.size) : s.units.drop i = [] := by
  apply List.drop_eq_nil_of_le
  simpa [units] using Nat.le_of_not_lt h

theorem peek_eq (s : Source) (i : Nat) : s.peek i = (s.units.drop i).head? := by
  simp [peek, units, List.head?_drop]

/-! ## Readers over bytes -/

theorem eatWhile_eq (s : Source) (p : Char → Bool) (i : Nat) :
    s.eatWhile p i = i + runLength p (s.units.drop i) := by
  fun_induction eatWhile s p i with
  | case1 i h hp ih =>
    rw [ih, drop_units h]
    simp only [runLength, List.takeWhile_cons, hp, if_true, List.length_cons]
    omega
  | case2 i h hp => simp [drop_units h, runLength, hp]
  | case3 i h => simp [drop_units_of_le h, runLength]

theorem readLiteral_eq (s : Source) (quote : Char) (escapes hidden : Bool) (i : Nat) :
    s.readLiteral quote escapes hidden i =
      i + literalLength quote escapes hidden (s.units.drop i) := by
  fun_induction readLiteral s quote escapes hidden i with
  | case1 hidden i h c hc =>
    rw [drop_units h, literalLength, if_pos hc]
  | case2 hidden i h c hc ih =>
    rw [ih, drop_units h, literalLength, if_neg hc]
    exact Nat.add_assoc _ _ _
  | case3 hidden i h => simp [drop_units_of_le h, literalLength]

theorem readMantissa_eq (s : Source) (sawDot : Bool) (i : Nat) :
    s.readMantissa sawDot i = i + mantissaLength sawDot (s.units.drop i) := by
  fun_induction readMantissa s sawDot i with
  | case1 i h c hc => simp [drop_units h, mantissaLength, c, hc]
  | case2 sawDot i h c hc hdot ih =>
    rw [ih, drop_units h, mantissaLength, if_pos hc, if_neg hdot]
    omega
  | case3 sawDot i h c hc hdigit ih =>
    rw [ih, drop_units h, mantissaLength, if_neg hc, if_pos hdigit]
    omega
  | case4 sawDot i h c hc hdigit =>
    rw [drop_units h, mantissaLength, if_neg hc, if_neg hdigit, Nat.add_zero]
  | case5 sawDot i h => simp [drop_units_of_le h, mantissaLength]

theorem drop_of_hasAt {i : Nat} {c : Char} (h : s.hasAt i c = true) :
    s.units.drop i = c :: s.units.drop (i + 1) := by
  have hpeek : (s.units.drop i).head? = some c := by
    rw [← peek_eq]
    exact of_decide_eq_true h
  obtain ⟨rest, hrest⟩ := List.head?_eq_some_iff.mp hpeek
  have htail : s.units.drop (i + 1) = rest := by
    rw [← List.drop_drop, hrest]
    rfl
  rw [hrest, htail]

theorem drop_of_hasAt₂ {i : Nat} {a b : Char} (h : (s.hasAt i a && s.hasAt (i + 1) b) = true) :
    s.units.drop i = a :: b :: s.units.drop (i + 2) := by
  obtain ⟨ha, hb⟩ := Bool.and_eq_true_iff.mp h
  rw [drop_of_hasAt ha, drop_of_hasAt hb]

theorem hasAt_iff (i : Nat) (c : Char) : s.hasAt i c = true ↔ (s.units.drop i).head? = some c := by
  rw [hasAt, decide_eq_true_iff, peek_eq]

/-- Closing signs never outnumber the open comments. -/
theorem readComment_eq (s : Source) (outer i : Nat) :
    s.readComment (outer + 1) i = some (i + commentLength outer (s.units.drop i)) := by
  generalize hdepth : outer + 1 = depth
  fun_induction readComment s depth i generalizing outer with
  | case1 i h hclose => omega
  | case2 i h hclose =>
    obtain rfl : outer = 0 := by omega
    rw [drop_of_hasAt₂ hclose, commentLength]
  | case3 i h hclose n ih =>
    obtain rfl : outer = n + 1 := by omega
    rw [ih n rfl, drop_of_hasAt₂ hclose, commentLength]
    congr 1
    omega
  | case4 depth i h hclose hopen ih =>
    subst hdepth
    rw [ih (outer + 1) rfl, drop_of_hasAt₂ hopen, commentLength]
    congr 1
    omega
  | case5 depth i h hclose hopen ih =>
    have hhead : s.hasAt i (Char.ofUInt8 s.bytes[i]) = true := by
      rw [hasAt_iff, drop_units h, List.head?_cons]
    have hstep : commentLength outer (Char.ofUInt8 s.bytes[i] :: s.units.drop (i + 1)) =
        1 + commentLength outer (s.units.drop (i + 1)) := by
      apply commentLength_cons
      · exact fun hc hn => hclose (Bool.and_eq_true_iff.mpr ⟨hc ▸ hhead, (hasAt_iff _ _).mpr hn⟩)
      · exact fun hc hn => hopen (Bool.and_eq_true_iff.mpr ⟨hc ▸ hhead, (hasAt_iff _ _).mpr hn⟩)
    rw [ih outer hdepth, drop_units h, hstep]
    congr 1
    omega
  | case6 depth i h => simp [drop_units_of_le h, commentLength]

/-! ## Readers at a boundary -/

/-- The characters before a position and from it on. -/
structure At (s : Source) (i : Nat) (pre post : List Char) : Prop where
  chars : s.chars = pre ++ post
  pos : i = byteLength pre

variable {i : Nat} {pre post : List Char}

theorem At.drop_units (h : At s i pre post) : s.units.drop i = post.flatMap Text.units := by
  have hlen : (pre.flatMap Text.units).length = i := by
    rw [← map_ofUInt8_utf8, List.length_map, length_utf8, h.pos]
  rw [units_eq, h.chars, List.flatMap_append, List.drop_append_of_le_length (by omega),
    List.drop_eq_nil_of_le (by omega), List.nil_append]

theorem At.skip (h : At s i pre post) (n : Nat) :
    At s (i + byteLength (post.take n)) (pre ++ post.take n) (post.drop n) where
  chars := by rw [List.append_assoc, List.take_append_drop, h.chars]
  pos := by rw [byteLength_append, h.pos]

theorem At.next {c : Char} {rest : List Char} (h : At s i pre (c :: rest))
    (hc : isAscii c = true) : At s (i + 1) (pre ++ [c]) rest := by
  have hskip := h.skip 1
  simpa [utf8Size_of_isAscii hc] using hskip

theorem At.lt_size {c : Char} {rest : List Char} (h : At s i pre (c :: rest)) :
    i < s.bytes.size := by
  have hc := Char.utf8Size_pos c
  rw [size_bytes, h.chars, h.pos, byteLength_append, byteLength_cons]
  omega

theorem At.size_le (h : At s i pre []) : ¬ i < s.bytes.size := by
  rw [size_bytes, h.chars, h.pos, List.append_nil]
  exact Nat.lt_irrefl _

theorem At.splitAt? (h : At s i pre post) : Text.splitAt? i s.chars = some (pre, post) := by
  rw [h.chars, h.pos, splitAt?_byteLength]

theorem At.hasAt_iff (h : At s i pre post) {x : Char} (hx : isAscii x = true) :
    s.hasAt i x = true ↔ post.head? = some x := by
  rw [Source.hasAt_iff, h.drop_units, head?_units hx]

theorem At.hasAt (h : At s i pre post) {x : Char} (hx : isAscii x = true) :
    s.hasAt i x = decide (post.head? = some x) := by
  rw [Bool.eq_iff_iff, h.hasAt_iff hx, decide_eq_true_iff]

theorem At.peek {c : Char} {rest : List Char} (h : At s i pre (c :: rest))
    (hc : isAscii c = true) : s.peek i = some c := by
  rw [peek_eq, h.drop_units, head?_units hc, List.head?_cons]

theorem At.any_peek (h : At s i pre post) {p : Char → Bool} (hp : WithinAscii p) :
    (s.peek i).any p = post.head?.any p := by
  rw [peek_eq, h.drop_units]
  cases post with
  | nil => rfl
  | cons c rest =>
    obtain ⟨u, us, hus⟩ := List.exists_cons_of_ne_nil (units_ne_nil c)
    have hu := hp.units_eq c u (hus ▸ List.mem_cons_self)
    simp [hus, hu]

theorem At.any_peek_pred (h : At s i pre post) {p : Char → Bool} (hp : WithinAscii p) :
    (decide (0 < i) && (s.peek (i - 1)).any p) = pre.getLast?.any p := by
  obtain rfl | ⟨front, c, rfl⟩ := List.eq_nil_or_concat pre
  · simp [h.pos]
  · have hc := Char.utf8Size_pos c
    have hpos : 0 < i := by
      rw [h.pos, List.concat_eq_append, byteLength_append, byteLength_cons]
      omega
    obtain ⟨us, u, hus⟩ := (List.eq_nil_or_concat (Text.units c)).resolve_left (units_ne_nil c)
    rw [List.concat_eq_append] at hus
    have hu := hp.units_eq c u (hus ▸ by simp)
    have hlen : us.length + 1 = c.utf8Size := by rw [← length_units, hus]; simp
    have hfront : At s (byteLength front) front (c :: post) :=
      ⟨by rw [h.chars]; simp, rfl⟩
    have hlast : i - 1 = byteLength front + us.length := by
      rw [h.pos, List.concat_eq_append, byteLength_append, byteLength_cons, byteLength_nil]
      omega
    have hpeek : s.peek (i - 1) = some u := by
      rw [peek_eq, hlast, ← List.drop_drop, hfront.drop_units, List.flatMap_cons, hus]
      simp
    simp [hpos, hpeek, hu]

theorem At.hasAt_pred (h : At s i pre post) {x : Char} (hx : isAscii x = true) :
    (decide (0 < i) && s.hasAt (i - 1) x) = decide (pre.getLast? = some x) := by
  have hany := h.any_peek_pred (withinAscii_of_eq hx)
  have hsome : ∀ o : Option Char, o.any (fun c => decide (c = x)) = decide (o = some x) := by
    intro o
    cases o <;> simp
  rw [hsome, hsome] at hany
  exact hany

theorem At.eatWhile (h : At s i pre post) {p q : Char → Bool}
    (hpq : ∀ c, ∀ u ∈ Text.units c, p u = q c) :
    s.eatWhile p i = i + byteLength (post.take (runLength q post)) := by
  rw [eatWhile_eq, h.drop_units, runLength_units hpq]

theorem At.readLiteral (h : At s i pre post) {quote : Char} (hq : isAscii quote = true)
    (escapes : Bool) : s.readLiteral quote escapes false i =
      i + byteLength (post.take (literalLength quote escapes false post)) := by
  rw [readLiteral_eq, h.drop_units, literalLength_units hq]

theorem At.readLine (h : At s i pre post) :
    s.readLine i = i + byteLength (post.take (lineLength post)) := by
  apply h.eatWhile
  intro c u hu
  have hn : ('\n' : Char).toNat < 0x80 := by decide
  have := (withinAscii_of_eq (decide_eq_true hn)).units_eq c u hu
  simp only [ne_eq, decide_not, this]

theorem At.readComment (h : At s i pre post) :
    s.readComment 1 i = some (i + byteLength (post.take (commentLength 0 post))) := by
  rw [readComment_eq, h.drop_units, commentLength_units]

theorem lengthThrough_of_findChars? {t : List Char} {cs : List Char} {offset : Nat}
    (h : findChars? t cs = some offset) (ht : t ≠ []) :
    byteLength (cs.take (lengthThrough t cs)) = offset + byteLength t := by
  induction cs generalizing offset with
  | nil => simp [findChars?, ht] at h
  | cons c rest ih =>
    simp only [findChars?] at h
    split at h
    · rename_i hp
      obtain ⟨more, hmore⟩ := List.isPrefixOf_iff_prefix.mp hp
      cases h
      rw [lengthThrough, if_pos hp, ← hmore, List.take_left, Nat.zero_add]
    · rename_i hp
      obtain ⟨o, ho, rfl⟩ := Option.map_eq_some_iff.mp h
      rw [lengthThrough, if_neg hp, Nat.add_comm 1, List.take_succ_cons, byteLength_cons, ih ho]
      omega

theorem lengthThrough_of_findChars?_none {t cs : List Char} (h : findChars? t cs = none) :
    lengthThrough t cs = cs.length := by
  induction cs with
  | nil => rfl
  | cons c rest ih =>
    simp only [findChars?] at h
    split at h
    · cases h
    · rename_i hp
      rw [lengthThrough, if_neg hp, ih (Option.map_eq_none_iff.mp h), List.length_cons,
        Nat.add_comm]

theorem At.readThrough (h : At s i pre post) {t : List Char} (ht : t ≠ []) :
    s.readThrough t i = some (i + byteLength (post.take (lengthThrough t post))) := by
  rw [Source.readThrough, h.splitAt?, Option.map_some]
  cases hf : findChars? t post with
  | some offset => simp only [lengthThrough_of_findChars? hf ht, Nat.add_assoc]
  | none =>
    simp only [lengthThrough_of_findChars?_none hf, List.take_length]
    rw [size_bytes, h.chars, byteLength_append, h.pos]

theorem At.readDigits (h : At s i pre post) {p : Char → Bool} (hp : WithinAscii p) {quote : Char}
    (hq : isAscii quote = true) :
    s.readDigits p quote i = i + byteLength (post.take (digitsLength p quote post)) := by
  have hrun := h.eatWhile hp.units_eq
  have hnext := h.skip (runLength p post)
  simp only [Source.readDigits, hrun, hnext.hasAt hq, digitsLength, decide_eq_true_eq]
  split
  · rename_i hhead
    obtain ⟨rest, hrest⟩ := List.head?_eq_some_iff.mp hhead
    rw [List.take_add, byteLength_append, hrest]
    simp [utf8Size_of_isAscii hq]
    omega
  · rfl

theorem exponentLength_of_ne {cs : List Char}
    (h : ¬ (cs.head? = some 'e' ∨ cs.head? = some 'E')) : exponentLength cs = 0 := by
  cases cs with
  | nil => rfl
  | cons c rest =>
    have hc : ¬ (c = 'e' ∨ c = 'E') := by simpa using h
    simp [exponentLength, hc]

theorem At.readExponent (h : At s i pre post) :
    (if s.hasAt i 'e' || s.hasAt i 'E' then
      if s.hasAt (i + 1) '+' || s.hasAt (i + 1) '-' then s.eatWhile Char.isDigit (i + 2)
      else s.eatWhile Char.isDigit (i + 1)
    else i) = i + byteLength (post.take (exponentLength post)) := by
  simp only [Bool.or_eq_true, h.hasAt_iff (show isAscii 'e' = true by decide),
    h.hasAt_iff (show isAscii 'E' = true by decide)]
  by_cases he : post.head? = some 'e' ∨ post.head? = some 'E'
  · obtain ⟨c, rest, rfl, hc⟩ : ∃ c rest, post = c :: rest ∧ (c = 'e' ∨ c = 'E') := by
      cases post with
      | nil => simp at he
      | cons c rest => exact ⟨c, rest, rfl, by simpa using he⟩
    have hascii : isAscii c = true := by rcases hc with rfl | rfl <;> decide
    have hnext := h.next hascii
    rw [if_pos he]
    simp only [hnext.hasAt_iff (show isAscii '+' = true by decide),
      hnext.hasAt_iff (show isAscii '-' = true by decide)]
    cases rest with
    | nil => simp [exponentLength, hc, hnext.eatWhile withinAscii_isDigit.units_eq, runLength,
        utf8Size_of_isAscii hascii]
    | cons x digits =>
      by_cases hx : x = '+' ∨ x = '-'
      · have hxascii : isAscii x = true := by rcases hx with rfl | rfl <;> decide
        have hdigits := (hnext.next hxascii).eatWhile withinAscii_isDigit.units_eq
        simp [exponentLength, hc, hx, hdigits, utf8Size_of_isAscii hascii,
          utf8Size_of_isAscii hxascii, Nat.add_comm 2]
        omega
      · have hdigits := hnext.eatWhile withinAscii_isDigit.units_eq
        simp [exponentLength, hc, hx, hdigits, utf8Size_of_isAscii hascii, Nat.add_comm 1]
        omega
  · rw [if_neg he, exponentLength_of_ne he]
    rfl

theorem At.readNumber (h : At s i pre post) (sawDot : Bool) :
    s.readNumber sawDot i = i + byteLength (post.take (numberLength sawDot post)) := by
  have hmantissa : s.readMantissa sawDot i =
      i + byteLength (post.take (mantissaLength sawDot post)) := by
    rw [readMantissa_eq, h.drop_units, mantissaLength_units]
  have hexponent := (h.skip (mantissaLength sawDot post)).readExponent
  rw [Source.readNumber, hmantissa]
  simp only [numberLength, List.take_add, byteLength_append, ← Nat.add_assoc]
  exact hexponent

theorem byteLength_take_runLength {p : Char → Bool} (hp : WithinAscii p) (cs : List Char) :
    byteLength (cs.take (runLength p cs)) = runLength p cs := by
  rw [take_runLength, byteLength_of_forall_isAscii fun c hc => hp c (List.mem_takeWhile_imp hc),
    runLength]

theorem At.charSetLength? (h : At s i pre post) :
    s.charSetLength? i = Token.charSetLength? post := by
  have hrun := h.eatWhile withinAscii_isAlphanum.units_eq
  have hnext := h.skip (runLength Char.isAlphanum post)
  rw [byteLength_take_runLength withinAscii_isAlphanum] at hrun hnext
  simp only [Source.charSetLength?, Token.charSetLength?, hrun, Nat.add_sub_cancel_left,
    hnext.hasAt (show isAscii '\x27' = true by decide)]

theorem At.delimiter? (h : At s i pre post) :
    s.delimiter? i = post.head?.filter fun c => !isSpace c := by
  rw [Source.delimiter?, h.splitAt?, Option.bind_some]

theorem At.readVariable (h : At s i pre post) :
    s.readVariable i = i + byteLength (post.take (variableLength post)) := by
  have hword := h.eatWhile withinAscii_isWordChar.units_eq
  cases post with
  | nil => simp [Source.readVariable, peek_eq, h.drop_units]
  | cons c rest =>
    by_cases hquote : c = '\x27' ∨ c = '"' ∨ c = '\x60'
    · have hc : isAscii c = true := by rcases hquote with rfl | rfl | rfl <;> decide
      have hbody := (h.next hc).readLiteral hc false
      have hor : (c = '\x27' || c = '"' || c = '\x60') = true := by simpa [or_assoc] using hquote
      rw [Source.readVariable, h.peek hc]
      simp only [hor, if_true, hbody, variableLength, Nat.add_comm 1, List.take_succ_cons,
        byteLength_cons, utf8Size_of_isAscii hc]
      omega
    · have hany := h.any_peek (p := fun c => c = '\x27' || c = '"' || c = '\x60') (by
        intro x hx
        simp only [Bool.or_eq_true, decide_eq_true_eq] at hx
        rcases hx with (rfl | rfl) | rfl <;> decide)
      have hor : (c = '\x27' || c = '"' || c = '\x60') = false := by
        simpa [and_assoc] using hquote
      rw [Source.readVariable]
      cases hp : s.peek i with
      | none => simp [peek_eq, Source.drop_units h.lt_size] at hp
      | some u =>
        rw [hp, Option.any_some, List.head?_cons, Option.any_some, hor] at hany
        simp only [hany, hword, variableLength, hor, wordLength, Bool.false_eq_true, if_false]

theorem At.readWord {c : Char} {rest : List Char} (h : At s i pre (c :: rest))
    (hc : isAscii c = true) (d : Dialect) :
    s.readWord d i = some (wordKind d pre.getLast? (c :: rest.take (wordLength rest))
      (rest.drop (wordLength rest)), i + byteLength (c :: rest.take (wordLength rest))) := by
  have hnext := h.next hc
  have hrun := hnext.eatWhile withinAscii_isWordChar.units_eq
  have hafter := hnext.skip (wordLength rest)
  have hstop : i + 1 + byteLength (rest.take (wordLength rest)) =
      i + byteLength (c :: rest.take (wordLength rest)) := by
    rw [byteLength_cons, utf8Size_of_isAscii hc, Nat.add_assoc]
  have hslice : sliceChars? s.chars i (i + byteLength (c :: rest.take (wordLength rest))) =
      some (c :: rest.take (wordLength rest)) := by
    have hcut := splitAt?_byteLength (c :: rest.take (wordLength rest)) (rest.drop (wordLength rest))
    rw [List.cons_append, List.take_append_drop] at hcut
    rw [sliceChars?, if_pos (by omega), h.splitAt?, Option.bind_some, Nat.add_sub_cancel_left,
      hcut, Option.map_some]
  rw [wordLength] at *
  simp only [Source.readWord, hrun, hafter.hasAt (show isAscii '.' = true by decide),
    h.hasAt_pred (show isAscii '.' = true by decide), wordKind]
  rw [hstop, hslice, Option.map_some]
  split <;> rfl

end SchemaAssist.Source

import SchemaAssist.Dialect.Builtin
import SchemaAssist.Proofs.Token.Pattern
import SchemaAssist.Proofs.Token.Start

/-! # Numbers and bit strings

A number or a bit string is the longest word of its patterns where it starts. The rules read on as
far as they can, and where several of them fit the first character, the one tried first has the
longer word. A dot behind a word is never the start of a number.
-/
namespace SchemaAssist
open Text Token Computability

namespace Token

/-! ## Patterns -/

def isExponentMark (c : Char) : Bool := c = 'e' || c = 'E'

def isExponentSign (c : Char) : Bool := c = '+' || c = '-'

def isHexMark (c : Char) : Bool := c = 'x' || c = 'X'

def isBitMark (c : Char) : Bool := c = 'b' || c = 'B'

/-- Digits, one at least. -/
def digits : Language Char := letter Char.isDigit * (letter Char.isDigit)∗

/-- The digits of an exponent may be missing. -/
def exponent : Language Char :=
  letter isExponentMark * (1 + letter isExponentSign) * (letter Char.isDigit)∗

def decimals : Language Char :=
  digits * (1 + letter (· = '.') * (letter Char.isDigit)∗) * (1 + exponent)

def fractions : Language Char := letter (· = '.') * digits * (1 + exponent)

def hexNumbers : Language Char := letter (· = '0') * letter isHexMark * (letter isHexDigit)∗

/-- The closing quote may be missing. -/
def quotedHexNumbers : Language Char :=
  letter isHexMark * letter (· = '\x27') * (letter isHexDigit)∗ * (1 + letter (· = '\x27'))

def numbers : Language Char := decimals + fractions + hexNumbers + quotedHexNumbers

def quotedBits (quote : Char) : Language Char :=
  letter isBitMark * letter (· = quote) * (letter isBinaryDigit)∗ * (1 + letter (· = quote))

def unquotedBits : Language Char := letter (· = '0') * letter (· = 'b') * (letter isBinaryDigit)∗

def bitStrings (d : Dialect) : Language Char :=
  (if d.unquotedBitLiterals then unquotedBits else 0) + quotedBits '\x27' + quotedBits '"'

variable {d : Dialect} {before : Option Char} {c : Char} {cs rest w : List Char} {n : ℕ}

theorem atMost_numbers : AtMost '.' 1 numbers := by
  have hdigits : AtMost '.' 0 digits := (atMost_letter_of_not rfl).mul (atMost_star rfl)
  have hexponent : AtMost '.' 0 (1 + exponent) :=
    atMost_one.add (((atMost_letter_of_not rfl).mul
      (atMost_one.add (atMost_letter_of_not rfl))).mul (atMost_star rfl))
  have hfraction : AtMost '.' 1 (1 + letter (· = '.') * (letter Char.isDigit)∗) :=
    (atMost_one.mono zero_le_one).add (atMost_letter.mul (atMost_star rfl))
  have hdecimals : AtMost '.' 1 decimals := (hdigits.mul hfraction).mul hexponent
  have hfractions : AtMost '.' 1 fractions := (atMost_letter.mul hdigits).mul hexponent
  have hhex : AtMost '.' 0 hexNumbers :=
    ((atMost_letter_of_not rfl).mul (atMost_letter_of_not rfl)).mul (atMost_star rfl)
  have hquoted : AtMost '.' 0 quotedHexNumbers :=
    (((atMost_letter_of_not rfl).mul (atMost_letter_of_not rfl)).mul (atMost_star rfl)).mul
      (atMost_one.add (atMost_letter_of_not rfl))
  exact ((hdecimals.add hfractions).add (hhex.mono zero_le_one)).add (hquoted.mono zero_le_one)

/-! ## Lengths -/

theorem longest_digitsLength {p : Char → Bool} {quote : Char} (hquote : p quote = false)
    (cs : List Char) :
    Longest ((letter p)∗ * (1 + letter (· = quote))) cs (cs.take (digitsLength p quote cs)) := by
  have havoids : Avoids p (1 + letter (· = quote) * 1) := by
    refine avoids_one.add (begins_letter.mul.avoids fun c hc => ?_)
    rwa [of_decide_eq_true hc]
  rw [← mul_one (letter (· = quote))]
  simp only [digitsLength]
  split_ifs with hclosed
  · obtain ⟨rest, hrest⟩ := List.head?_eq_some_iff.mp hclosed
    rw [List.take_add, hrest, take_runLength]
    rw [drop_runLength] at hrest
    refine Longest.star_mul havoids ?_
    rw [hrest]
    exact (longest_one rest).add_letter_mul (by simp) avoids_one
  · rw [take_runLength, ← List.append_nil (cs.takeWhile p)]
    rw [drop_runLength] at hclosed
    refine Longest.star_mul havoids ((longest_one _).add_of_head? ?_)
    cases hrest : cs.dropWhile p with
    | nil => rfl
    | cons c rest => simpa [hrest] using hclosed

theorem longest_signed (cs : List Char) :
    Longest ((1 + letter isExponentSign) * (letter Char.isDigit)∗) cs
      (cs.take (if cs.head?.any isExponentSign then 1 + runLength Char.isDigit (cs.drop 1)
        else runLength Char.isDigit cs)) := by
  have havoids : Avoids isExponentSign (letter Char.isDigit)∗ := by
    rw [← mul_one (letter Char.isDigit)∗]
    refine avoids_one.star_mul fun c hc => ?_
    cases hsign : isExponentSign c with
    | false => rfl
    | true =>
      simp only [isExponentSign, Bool.or_eq_true, decide_eq_true_eq] at hsign
      rcases hsign with rfl | rfl <;> cases hc
  rw [add_mul, one_mul]
  split_ifs with hsign
  · cases cs with
    | nil => cases hsign
    | cons s digits =>
      rw [List.drop_one, List.tail_cons, Nat.add_comm 1, List.take_succ_cons]
      exact (longest_run _ digits).add_letter_mul hsign havoids
  · exact (longest_run _ cs).add_of_head? (Bool.eq_false_iff.mpr hsign)

theorem longest_exponentLength (cs : List Char) :
    Longest (1 + exponent) cs (cs.take (exponentLength cs)) := by
  rw [exponent, mul_assoc]
  cases cs with
  | nil => exact (longest_one []).add_of_head? rfl
  | cons e rest =>
    cases he : isExponentMark e with
    | false =>
      have hzero : exponentLength (e :: rest) = 0 := by
        have hne : ¬ (e = 'e' ∨ e = 'E') := by simpa [isExponentMark] using he
        simp [exponentLength, hne]
      rw [hzero]
      exact (longest_one _).add_of_head? he
    | true =>
      have hsigned := longest_signed rest
      have hlength : exponentLength (e :: rest) = 1 +
          if rest.head?.any isExponentSign then 1 + runLength Char.isDigit (rest.drop 1)
          else runLength Char.isDigit rest := by
        have hmark : e = 'e' ∨ e = 'E' := by simpa [isExponentMark] using he
        cases rest with
        | nil => simp [exponentLength, hmark, runLength]
        | cons s digits =>
          by_cases hs : s = '+' ∨ s = '-'
          · simp [exponentLength, hmark, isExponentSign, hs]
            omega
          · simp [exponentLength, hmark, isExponentSign, hs]
      rw [hlength, Nat.add_comm 1, List.take_succ_cons]
      exact hsigned.add_letter_mul he avoids_one

theorem mantissaLength_true (cs : List Char) :
    mantissaLength true cs = runLength Char.isDigit cs := by
  induction cs with
  | nil => rfl
  | cons c rest ih =>
    by_cases hdot : c = '.'
    · subst hdot
      rfl
    · by_cases hc : c.isDigit = true
      · simp [mantissaLength, runLength, hdot, hc, ih, Nat.add_comm]
      · simp [mantissaLength, runLength, hdot, hc]

theorem numberLength_cons {sawDot sawDot' : Bool}
    (h : mantissaLength sawDot (c :: rest) = 1 + mantissaLength sawDot' rest) :
    numberLength sawDot (c :: rest) = numberLength sawDot' rest + 1 := by
  simp only [numberLength, h, Nat.add_comm 1, List.drop_succ_cons]
  omega

theorem avoids_exponent {p : Char → Bool} (he : p 'e' = false) (hE : p 'E' = false) :
    Avoids p (1 + exponent) := by
  rw [exponent, mul_assoc]
  refine avoids_one.add (begins_letter.mul.avoids fun c hc => ?_)
  simp only [isExponentMark, Bool.or_eq_true, decide_eq_true_eq] at hc
  rcases hc with rfl | rfl <;> assumption

theorem longest_numberLength_true (cs : List Char) :
    Longest ((letter Char.isDigit)∗ * (1 + exponent)) cs (cs.take (numberLength true cs)) := by
  simp only [numberLength, mantissaLength_true]
  rw [List.take_add, take_runLength, drop_runLength]
  exact (longest_exponentLength _).star_mul (avoids_exponent rfl rfl)

theorem longest_numberLength_false (cs : List Char) :
    Longest ((letter Char.isDigit)∗ *
        ((1 + letter (· = '.') * (letter Char.isDigit)∗) * (1 + exponent))) cs
      (cs.take (numberLength false cs)) := by
  have hdot : ∀ c : Char, decide (c = '.') = true → c.isDigit = false := by
    intro c hc
    rw [of_decide_eq_true hc]
    rfl
  rw [add_mul, one_mul, mul_assoc]
  induction cs with
  | nil =>
    rw [star_mul]
    exact ((longest_exponentLength []).add_of_head? rfl).add_of_head? rfl
  | cons c rest ih =>
    rw [star_mul]
    cases hc : c.isDigit with
    | true =>
      have hne : c ≠ '.' := by
        rintro rfl
        cases hc
      have hlength : numberLength false (c :: rest) = numberLength false rest + 1 :=
        numberLength_cons (by simp [mantissaLength, hne, hc])
      rw [hlength, List.take_succ_cons]
      exact ih.add_letter_mul hc ((avoids_exponent rfl rfl).add (begins_letter.mul.avoids hdot))
    | false =>
      refine Longest.add_of_head? hc ?_
      by_cases hne : c = '.'
      · subst hne
        have hlength : numberLength false ('.' :: rest) = numberLength true rest + 1 :=
          numberLength_cons (by simp [mantissaLength])
        rw [hlength, List.take_succ_cons]
        exact (longest_numberLength_true rest).add_letter_mul rfl (avoids_exponent rfl rfl)
      · have hlength : numberLength false (c :: rest) = exponentLength (c :: rest) := by
          simp [numberLength, mantissaLength, hne, hc]
        rw [hlength]
        exact (longest_exponentLength _).add_of_head? (by simpa using hne)

/-! ## Rules -/

theorem FromRule.of_number {found : TokenKind × ℕ} (h : FromRule d before c rest found)
    (hkind : found.1 = .number ∨ found.1 = .bits) :
    scanMarked? d before c rest = some found ∨ scanNumber? d before c rest = some found := by
  have hnoword : found.1.isWord = false := by
    rcases hkind with hkind | hkind <;> rw [hkind] <;> rfl
  cases h with
  | marked hquoted hmarked => exact .inl hmarked
  | number hquoted hmarked hnumber => exact .inr hnumber
  | blank => simp at hkind
  | quoted hspace hquoted =>
    rcases kind_of_scanQuoted? hquoted with h | h | h <;> simp [h] at hkind
  | identifier => simp at hkind
  | word => simp [isWord_scanWord] at hnoword
  | operator => simp at hkind
  | specialVar => simp at hkind
  | sign =>
    unfold signKind? at hkind
    split_ifs at hkind <;> simp at hkind

theorem longest_decimals (hc : c.isDigit = true) (rest : List Char) :
    Longest decimals (c :: rest) (c :: rest.take (numberLength false rest)) := by
  rw [decimals, digits, mul_assoc, mul_assoc]
  exact (longest_numberLength_false rest).letter_mul hc

theorem longest_fractions (hc : c.isDigit = true) (rest : List Char) :
    Longest fractions ('.' :: c :: rest)
      ('.' :: (c :: rest).take (numberLength true (c :: rest))) := by
  have hlength : numberLength true (c :: rest) = numberLength true rest + 1 := by
    refine numberLength_cons ?_
    simp [mantissaLength_true, runLength, hc, Nat.add_comm]
  rw [fractions, digits, mul_assoc, mul_assoc, hlength, List.take_succ_cons]
  exact ((longest_numberLength_true rest).letter_mul hc).letter_mul rfl

theorem longest_hexNumbers (hc : isHexMark c = true) (rest : List Char) :
    Longest hexNumbers ('0' :: c :: rest)
      ('0' :: c :: rest.take (runLength isHexDigit rest)) := by
  rw [hexNumbers, mul_assoc]
  exact ((longest_run _ rest).letter_mul hc).letter_mul rfl

theorem longest_quotedHexNumbers (hc : isHexMark c = true) (rest : List Char) :
    Longest quotedHexNumbers (c :: '\x27' :: rest)
      (c :: '\x27' :: rest.take (digitsLength isHexDigit '\x27' rest)) := by
  rw [quotedHexNumbers, mul_assoc, mul_assoc]
  exact ((longest_digitsLength rfl rest).letter_mul rfl).letter_mul hc

theorem exists_of_mem_hexNumbers (hw : w ∈ hexNumbers) (hfront : w <+: c :: rest) :
    c = '0' ∧ rest.head?.any isHexMark = true := by
  rw [hexNumbers, mul_assoc] at hw
  obtain ⟨x, u, hx, hu, rfl⟩ := mem_letter_mul.mp hw
  obtain ⟨rfl, hrest⟩ := List.cons_prefix_cons.mp hfront
  refine ⟨of_decide_eq_true hx, ?_⟩
  by_contra hno
  exact begins_letter.mul.not_isPrefix (Bool.eq_false_iff.mpr hno) hu hrest

theorem begins_decimals : Begins Char.isDigit decimals := begins_letter.mul.mul.mul

theorem begins_fractions : Begins (· = '.') fractions := begins_letter.mul.mul

theorem begins_hexNumbers : Begins (· = '0') hexNumbers := begins_letter.mul.mul

theorem begins_quotedHexNumbers : Begins isHexMark quotedHexNumbers := begins_letter.mul.mul.mul

/-! ### Numbers -/

theorem longest_numbers_of_digit (hc : c.isDigit = true)
    (hhex : ¬ (c = '0' ∧ rest.head?.any isHexMark = true)) :
    Longest numbers (c :: rest) (c :: rest.take (numberLength false rest)) := by
  have hdot : c ≠ '.' := by
    rintro rfl
    cases hc
  have hmark : isHexMark c = false := by
    cases hmark : isHexMark c with
    | false => rfl
    | true =>
      simp only [isHexMark, Bool.or_eq_true, decide_eq_true_eq] at hmark
      rcases hmark with rfl | rfl <;> cases hc
  have hplain : Longest (decimals + fractions) (c :: rest)
      (c :: rest.take (numberLength false rest)) :=
    (longest_decimals hc rest).add_of_begins begins_fractions (by simpa using hdot)
  refine (hplain.add_left fun v hv hfront => ?_).add_of_begins begins_quotedHexNumbers hmark
  exact absurd (exists_of_mem_hexNumbers hv hfront) hhex

theorem longest_numbers_of_hex (hc : isHexMark c = true) :
    Longest numbers ('0' :: c :: rest)
      ('0' :: c :: rest.take (runLength isHexDigit rest)) := by
  refine ((longest_hexNumbers hc rest).add_right ?_).add_of_begins begins_quotedHexNumbers rfl
  rintro v (hv | hv) hfront
  · -- a decimal number ends before the mark
    have hzero : numberLength false (c :: rest) = 0 := by
      simp only [isHexMark, Bool.or_eq_true, decide_eq_true_eq] at hc
      rcases hc with rfl | rfl <;> rfl
    have hle := (longest_decimals rfl (c :: rest)).le v hv hfront
    rw [hzero] at hle
    exact hle.trans (Nat.succ_le_succ (Nat.zero_le _))
  · exact absurd hfront (begins_fractions.not_isPrefix rfl hv)

theorem longest_numbers_of_dot (hc : c.isDigit = true) :
    Longest numbers ('.' :: c :: rest)
      ('.' :: (c :: rest).take (numberLength true (c :: rest))) := by
  have hplain := (longest_fractions hc rest).begins_add begins_decimals rfl
  exact (hplain.add_of_begins begins_hexNumbers rfl).add_of_begins begins_quotedHexNumbers rfl

theorem longest_numbers_of_quoted (hc : isHexMark c = true) :
    Longest numbers (c :: '\x27' :: rest)
      (c :: '\x27' :: rest.take (digitsLength isHexDigit '\x27' rest)) := by
  refine (longest_quotedHexNumbers hc rest).add_right ?_
  simp only [isHexMark, Bool.or_eq_true, decide_eq_true_eq] at hc
  rcases hc with rfl | rfl
  all_goals
    rintro v ((hv | hv) | hv) hfront
    · exact absurd hfront (begins_decimals.not_isPrefix rfl hv)
    · exact absurd hfront (begins_fractions.not_isPrefix rfl hv)
    · exact absurd hfront (begins_hexNumbers.not_isPrefix rfl hv)

theorem exists_cons_of_head? {p : Char → Bool} (h : rest.head?.any p = true) :
    ∃ x body, rest = x :: body ∧ p x = true := by
  cases rest with
  | nil => cases h
  | cons x body => exact ⟨x, body, rfl, h⟩

theorem longest_of_scanNumber? (h : scanNumber? d before c rest = some (.number, n)) :
    Longest numbers (c :: rest) (c :: rest.take n) ∧
      (c = '.' → before.any isWordChar = false) := by
  have hmark : (decide (rest.head? = some 'x') || decide (rest.head? = some 'X')) =
      rest.head?.any isHexMark := by
    cases rest <;> simp [isHexMark]
  unfold scanNumber? at h
  rw [hmark] at h
  split_ifs at h with hbits hhex hdot hstart hdigit
  · cases h
  · cases h
    simp only [Bool.and_eq_true, decide_eq_true_eq] at hhex
    obtain ⟨rfl, hmark⟩ := hhex
    obtain ⟨x, body, rfl, hx⟩ := exists_cons_of_head? hmark
    rw [List.drop_one, List.tail_cons, Nat.add_comm 1, List.take_succ_cons]
    exact ⟨longest_numbers_of_hex hx, fun hdot => by cases hdot⟩
  · cases h
    simp only [Bool.and_eq_true, Bool.not_eq_true'] at hstart
    obtain ⟨x, body, rfl, hx⟩ := exists_cons_of_head? hstart.1
    rw [hdot]
    exact ⟨longest_numbers_of_dot hx, fun _ => hstart.2⟩
  · cases h
  · cases h
    exact ⟨longest_numbers_of_digit hdigit (by simpa using hhex), fun hc => absurd hc hdot⟩

/-! ### Bit strings -/

theorem longest_quotedBits {q : Char} (hc : isBitMark c = true) (hq : q = '\x27' ∨ q = '"') :
    Longest (quotedBits q) (c :: q :: rest)
      (c :: q :: rest.take (digitsLength isBinaryDigit q rest)) := by
  have hdigit : isBinaryDigit q = false := by
    rcases hq with rfl | rfl <;> rfl
  rw [quotedBits, mul_assoc, mul_assoc]
  exact ((longest_digitsLength hdigit rest).letter_mul (decide_eq_true rfl)).letter_mul hc

theorem not_isPrefix_of_ne {q q' : Char} (hw : w ∈ quotedBits q') (hne : q ≠ q') :
    ¬ w <+: c :: q :: rest := by
  intro hfront
  rw [quotedBits, mul_assoc, mul_assoc] at hw
  obtain ⟨x, u, -, hu, rfl⟩ := mem_letter_mul.mp hw
  have hrest := (List.cons_prefix_cons.mp hfront).2
  exact begins_letter.mul.not_isPrefix (by simpa using hne) hu hrest

theorem longest_bitStrings_of_quote {q : Char} (hc : c = 'b' ∨ c = 'B')
    (hq : q = '\x27' ∨ q = '"') :
    Longest (bitStrings d) (c :: q :: rest)
      (c :: q :: rest.take (digitsLength isBinaryDigit q rest)) := by
  have hmark : isBitMark c = true := by simpa [isBitMark] using hc
  have hunquoted : ∀ v ∈ if d.unquotedBitLiterals then unquotedBits else 0,
      ¬ v <+: c :: q :: rest := by
    intro v hv hfront
    split_ifs at hv
    · refine begins_letter.mul.mul.not_isPrefix ?_ hv hfront
      rcases hc with rfl | rfl <;> rfl
    · exact Language.notMem_zero v hv
  rcases hq with rfl | rfl
  · refine ((longest_quotedBits hmark (.inl rfl)).add_right ?_).add_left ?_
    · exact fun v hv hfront => absurd hfront (hunquoted v hv)
    · exact fun v hv hfront => absurd hfront (not_isPrefix_of_ne hv (by decide))
  · refine (longest_quotedBits hmark (.inr rfl)).add_right ?_
    rintro v (hv | hv) hfront
    · exact absurd hfront (hunquoted v hv)
    · exact absurd hfront (not_isPrefix_of_ne hv (by decide))

theorem longest_of_scanNumber?_bits (h : scanNumber? d before c rest = some (.bits, n)) :
    Longest (bitStrings d) (c :: rest) (c :: rest.take n) := by
  unfold scanNumber? at h
  split_ifs at h with hbits
  · cases h
    simp only [Bool.and_eq_true, decide_eq_true_eq] at hbits
    obtain ⟨⟨rfl, hd⟩, hhead⟩ := hbits
    obtain ⟨body, rfl⟩ := List.head?_eq_some_iff.mp hhead
    have hbegins {q : Char} : Begins isBitMark (quotedBits q) := begins_letter.mul.mul.mul
    have hunquoted : Longest unquotedBits ('0' :: 'b' :: body)
        ('0' :: 'b' :: body.take (runLength isBinaryDigit body)) := by
      rw [unquotedBits, mul_assoc]
      exact ((longest_run _ body).letter_mul rfl).letter_mul rfl
    rw [bitStrings, if_pos hd, List.drop_one, List.tail_cons, Nat.add_comm 1, List.take_succ_cons]
    exact (hunquoted.add_of_begins hbegins rfl).add_of_begins hbegins rfl
  · cases h
  · cases h
  · cases h
  · cases h

/-! ### Scans -/

theorem longest_of_scan_number (h : Token.scan d before c rest = (.number, n)) :
    Longest numbers (c :: rest) (c :: rest.take n) ∧
      (c = '.' → before.any isWordChar = false) := by
  have hrule := fromRule_scan d before c rest
  rw [h] at hrule
  rcases hrule.of_number (.inl rfl) with hmarked | hnumber
  · generalize hfound : (TokenKind.number, n) = found at hmarked
    cases fromMark_of_scanMarked? hmarked with
    | hex hc hrest =>
      cases hfound
      subst hrest
      rw [Nat.add_comm 1, List.take_succ_cons]
      refine ⟨longest_numbers_of_quoted (by simpa [isHexMark] using hc), fun hdot => ?_⟩
      rcases hc with rfl | rfl <;> cases hdot
    | word =>
      have hword := isWord_scanWord d before c rest
      rw [← hfound] at hword
      cases hword
    | string => cases hfound
    | bytes => cases hfound
    | bits => cases hfound
  · exact longest_of_scanNumber? hnumber

theorem longest_of_scan_bits (h : Token.scan d before c rest = (.bits, n)) :
    Longest (bitStrings d) (c :: rest) (c :: rest.take n) := by
  have hrule := fromRule_scan d before c rest
  rw [h] at hrule
  rcases hrule.of_number (.inr rfl) with hmarked | hnumber
  · generalize hfound : (TokenKind.bits, n) = found at hmarked
    cases fromMark_of_scanMarked? hmarked with
    | bits hc hq hrest =>
      cases hfound
      subst hrest
      rw [Nat.add_comm 1, List.take_succ_cons]
      exact longest_bitStrings_of_quote hc hq
    | word =>
      have hword := isWord_scanWord d before c rest
      rw [← hfound] at hword
      cases hword
    | string => cases hfound
    | bytes => cases hfound
    | hex => cases hfound
  · exact longest_of_scanNumber?_bits hnumber

theorem scan_dot (hbefore : before.any isWordChar = true) :
    Token.scan d before '.' rest = (.dot, 0) := by
  have hmarked : scanMarked? d before '.' rest = none := by
    cases rest with
    | nil => rfl
    | cons q body => simp [scanMarked?]
  simp [Token.scan, isSpace, scanQuoted?, hmarked, scanNumber?, hbefore]

end Token

variable {d : Dialect} {text : String} {t : Token}

/-- Numbers and bit strings are the longest words of their patterns where they start. A number has
one dot at most and does not begin with one behind a word: such a dot is a token of its own. -/
theorem number_extent (d : Dialect) (text : String) {t : Token} (ht : t ∈ tokenize d text) :
    ∃ before word after, text.toList = before ++ word ++ after ∧ byteLength before = t.start ∧
      byteLength (before ++ word) = t.stop ∧
      (t.kind = .number → Longest numbers (word ++ after) word ∧ word.count '.' ≤ 1 ∧
        (word.head? = some '.' → before.getLast?.any isWordChar = false)) ∧
      ((word ++ after).head? = some '.' → before.getLast?.any isWordChar = true →
        t.kind = .dot ∧ word = ['.']) ∧
      (t.kind = .bits → Longest (bitStrings d) (word ++ after) word) := by
  obtain ⟨before, c, rest, n, hscan, htext, hbefore, hstop⟩ := exists_cut_of_mem_tokenize ht
  have hcut : c :: rest.take n ++ rest.drop n = c :: rest := by
    rw [List.cons_append, List.take_append_drop]
  refine ⟨before, c :: rest.take n, rest.drop n, htext, hbefore, hstop, ?_, ?_, ?_⟩
  · intro hnumber
    rw [hnumber] at hscan
    obtain ⟨hlongest, hdot⟩ := longest_of_scan_number hscan
    rw [hcut]
    exact ⟨hlongest, atMost_numbers _ hlongest.mem, fun hc => hdot (by simpa using hc)⟩
  · intro hc hword
    obtain rfl : c = '.' := by simpa using hc
    obtain ⟨hkind, rfl⟩ := Prod.mk.inj ((scan_dot hword).symm.trans hscan)
    exact ⟨hkind.symm, rfl⟩
  · intro hbits
    rw [hbits] at hscan
    rw [hcut]
    exact longest_of_scan_bits hscan

/-- The second dot ends the number and stands behind it alone. -/
theorem number_extent_dots :
    let text := "é 12.3.4e+"
    ⟨.number, 3, 7⟩ ∈ tokenize .standard text ∧ ⟨.dot, 7, 8⟩ ∈ tokenize .standard text ∧
      (∃ before word after, text.toList = before ++ word ++ after ∧ byteLength before = 3 ∧
        byteLength (before ++ word) = 7 ∧ Longest numbers (word ++ after) word) ∧
      ⟨.number, 8, 11⟩ ∈ tokenize .standard text ∧
      ∃ before word after, text.toList = before ++ word ++ after ∧ byteLength before = 8 ∧
        byteLength (before ++ word) = 11 ∧ Longest numbers (word ++ after) word := by
  intro text
  have hfirst : ⟨.number, 3, 7⟩ ∈ tokenize .standard text := by
    decide +kernel
  have hdot : ⟨.dot, 7, 8⟩ ∈ tokenize .standard text := by
    decide +kernel
  have hlast : ⟨.number, 8, 11⟩ ∈ tokenize .standard text := by
    decide +kernel
  obtain ⟨b₁, w₁, a₁, htext₁, hstart₁, hstop₁, hnumber₁, -⟩ := number_extent .standard text hfirst
  obtain ⟨b₂, w₂, a₂, htext₂, hstart₂, hstop₂, hnumber₂, -⟩ := number_extent .standard text hlast
  exact ⟨hfirst, hdot, ⟨b₁, w₁, a₁, htext₁, hstart₁, hstop₁, (hnumber₁ rfl).1⟩, hlast,
    b₂, w₂, a₂, htext₂, hstart₂, hstop₂, (hnumber₂ rfl).1⟩

end SchemaAssist

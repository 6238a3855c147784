import SchemaAssist.Proofs.Token.Locality
import SchemaAssist.Proofs.Token.Words

/-! # Letter case of tokens

A dialect whose rules name no single letter sees no difference between the cases of ASCII letters:
texts that are equal but for case have the same tokens. Rules that do name one are those of unquoted
bit strings and of strings with a delimiter of their own, and those whose characters are listed.
-/
namespace SchemaAssist.Token
open Text

/-- A property of characters that the case of ASCII letters does not change. -/
def CaseBlind {α : Type} (f : Char → α) : Prop := ∀ c : Char, f c.toLower = f c

/-- Only the letters need be tried. -/
theorem CaseBlind.of_forall {α : Type} {f : Char → α}
    (h : ∀ i < 26, f (Char.ofNat (97 + i)) = f (Char.ofNat (65 + i))) : CaseBlind f := by
  intro c
  obtain hc | ⟨i, hi, heq, hc⟩ := toLower_cases c
  · rw [hc]
  · rw [hc, h i hi, ← heq]

theorem caseBlind_isAlpha : CaseBlind Char.isAlpha := .of_forall (by decide)

theorem toLower_of_not_isAlpha {c : Char} (hc : c.isAlpha = false) : c.toLower = c := by
  refine (toLower_cases c).resolve_right ?_
  rintro ⟨i, hi, rfl, -⟩
  have hletter : ∀ i < 26, (Char.ofNat (65 + i)).isAlpha = true := by decide
  rw [hletter i hi] at hc
  cases hc

theorem toLower_eq_iff {c x : Char} (hx : x.isAlpha = false) : c.toLower = x ↔ c = x := by
  constructor
  · rintro rfl
    exact (toLower_of_not_isAlpha ((caseBlind_isAlpha c).symm.trans hx)).symm
  · rintro rfl
    exact toLower_of_not_isAlpha hx

theorem caseBlind_isSpace : CaseBlind isSpace := .of_forall (by decide)
theorem caseBlind_isAscii : CaseBlind isAscii := .of_forall (by decide)
theorem caseBlind_isDigit : CaseBlind Char.isDigit := .of_forall (by decide)
theorem caseBlind_isAlphanum : CaseBlind Char.isAlphanum := .of_forall (by decide)
theorem caseBlind_isWordChar : CaseBlind isWordChar := .of_forall (by decide)
theorem caseBlind_isBinaryDigit : CaseBlind isBinaryDigit := .of_forall (by decide)
theorem caseBlind_isHexDigit : CaseBlind isHexDigit := .of_forall (by decide)

variable {cs rest : List Char}

theorem head?_map_toLower {x : Char} (hx : x.isAlpha = false) :
    (cs.map Char.toLower).head? = some x ↔ cs.head? = some x := by
  cases cs with
  | nil => rfl
  | cons c rest => simp [toLower_eq_iff hx]

/-! ## Lengths -/

theorem runLength_map_toLower {p : Char → Bool} (hp : CaseBlind p) (cs : List Char) :
    runLength p (cs.map Char.toLower) = runLength p cs := by
  rw [runLength, List.takeWhile_map, List.length_map, runLength]
  congr 2
  funext c
  exact hp c

theorem literalLength_map_toLower {quote : Char} (hq : quote.isAlpha = false)
    (escapes hidden : Bool) (cs : List Char) :
    literalLength quote escapes hidden (cs.map Char.toLower) =
      literalLength quote escapes hidden cs := by
  induction cs generalizing hidden with
  | nil => rfl
  | cons c rest ih =>
    have hslash : ('\\' : Char).isAlpha = false := by decide
    simp only [List.map_cons, literalLength, toLower_eq_iff hq, toLower_eq_iff hslash, ih]

theorem isPrefixOf_map_toLower {terminator : List Char} (ht : ∀ x ∈ terminator, x.isAlpha = false)
    (cs : List Char) : terminator.isPrefixOf (cs.map Char.toLower) = terminator.isPrefixOf cs := by
  induction terminator generalizing cs with
  | nil => rfl
  | cons x terminator ih =>
    cases cs with
    | nil => rfl
    | cons c rest =>
      have hx : x = c.toLower ↔ x = c := by
        rw [@eq_comm _ x, @eq_comm _ x, toLower_eq_iff (ht x List.mem_cons_self)]
      have hrest := ih (fun y hy => ht y (List.mem_cons_of_mem x hy)) rest
      simp only [List.map_cons, List.isPrefixOf_cons_cons, hrest, beq_eq_decide, hx]

theorem lengthThrough_map_toLower {terminator : List Char}
    (ht : ∀ x ∈ terminator, x.isAlpha = false) (cs : List Char) :
    lengthThrough terminator (cs.map Char.toLower) = lengthThrough terminator cs := by
  induction cs with
  | nil => rfl
  | cons c rest ih =>
    have hprefix := isPrefixOf_map_toLower ht (c :: rest)
    rw [List.map_cons] at hprefix
    simp only [List.map_cons, lengthThrough, hprefix, ih]

theorem commentLength_map_toLower (outer : ℕ) (cs : List Char) :
    commentLength outer (cs.map Char.toLower) = commentLength outer cs := by
  fun_induction commentLength outer cs with
  | case1 => rfl
  | case2 rest => rfl
  | case3 n rest ih => simpa [commentLength] using ih
  | case4 outer rest ih => simpa [commentLength] using ih
  | case5 outer c rest hclose hopen ih =>
    rw [List.map_cons, commentLength_cons, ih]
    · intro hc hrest
      rw [toLower_eq_iff (by decide)] at hc
      rw [head?_map_toLower (by decide)] at hrest
      obtain ⟨tail, rfl⟩ := List.head?_eq_some_iff.mp hrest
      exact hclose tail hc rfl
    · intro hc hrest
      rw [toLower_eq_iff (by decide)] at hc
      rw [head?_map_toLower (by decide)] at hrest
      obtain ⟨tail, rfl⟩ := List.head?_eq_some_iff.mp hrest
      exact hopen tail hc rfl

theorem mantissaLength_map_toLower (sawDot : Bool) (cs : List Char) :
    mantissaLength sawDot (cs.map Char.toLower) = mantissaLength sawDot cs := by
  induction cs generalizing sawDot with
  | nil => rfl
  | cons c rest ih =>
    have hdot : ('.' : Char).isAlpha = false := by decide
    simp only [List.map_cons, mantissaLength, toLower_eq_iff hdot, caseBlind_isDigit c, ih]

theorem exponentLength_map_toLower (cs : List Char) :
    exponentLength (cs.map Char.toLower) = exponentLength cs := by
  have he : CaseBlind fun c => c = 'e' || c = 'E' := .of_forall (by decide)
  have hs : CaseBlind fun c => c = '+' || c = '-' := .of_forall (by decide)
  cases cs with
  | nil => rfl
  | cons e rest =>
    cases rest with
    | nil => simp only [List.map_cons, List.map_nil, exponentLength, he e]
    | cons s digits =>
      have hdigits := runLength_map_toLower caseBlind_isDigit digits
      have hrest := runLength_map_toLower caseBlind_isDigit (s :: digits)
      rw [List.map_cons] at hrest
      simp only [List.map_cons, exponentLength, he e, hs s, hdigits, hrest]

theorem numberLength_map_toLower (sawDot : Bool) (cs : List Char) :
    numberLength sawDot (cs.map Char.toLower) = numberLength sawDot cs := by
  simp only [numberLength, mantissaLength_map_toLower, ← List.map_drop,
    exponentLength_map_toLower]

theorem digitsLength_map_toLower {p : Char → Bool} (hp : CaseBlind p) {quote : Char}
    (hq : quote.isAlpha = false) (cs : List Char) :
    digitsLength p quote (cs.map Char.toLower) = digitsLength p quote cs := by
  simp only [digitsLength, runLength_map_toLower hp, ← List.map_drop, head?_map_toLower hq]

theorem charSetLength?_map_toLower (cs : List Char) :
    charSetLength? (cs.map Char.toLower) = charSetLength? cs := by
  have hq : ('\x27' : Char).isAlpha = false := by decide
  simp only [charSetLength?, runLength_map_toLower caseBlind_isAlphanum, ← List.map_drop,
    head?_map_toLower hq]

theorem not_isAlpha_of_quote {q : Char} (hq : (q = '\x27' || q = '"' || q = '\x60') = true) :
    q.isAlpha = false := by
  simp only [Bool.or_eq_true, decide_eq_true_eq] at hq
  rcases hq with (rfl | rfl) | rfl <;> decide

theorem variableLength_map_toLower (cs : List Char) :
    variableLength (cs.map Char.toLower) = variableLength cs := by
  cases cs with
  | nil => rfl
  | cons c rest =>
    have hword := runLength_map_toLower caseBlind_isWordChar (c :: rest)
    have hquote : CaseBlind fun c => c = '\x27' || c = '"' || c = '\x60' :=
      .of_forall (by decide)
    simp only [List.map_cons, variableLength, hquote c, wordLength] at hword ⊢
    refine ite_congr rfl (fun hc => ?_) fun _ => hword
    have halpha := not_isAlpha_of_quote hc
    rw [toLower_of_not_isAlpha halpha, literalLength_map_toLower halpha]

/-! ## Rules -/

variable {d : Dialect} {before : Option Char} {c : Char}

theorem classify_map_toLower (d : Dialect) (word : List Char) :
    d.classify (String.ofList (word.map Char.toLower)) = d.classify (String.ofList word) := by
  have hlower : String.ofList (word.map Char.toLower) = lowerAscii (String.ofList word) := by
    rw [lowerAscii, String.toList_ofList]
  rw [Dialect.classify, Dialect.classify, hlower, lowerAscii_lowerAscii]

theorem scanWord_toLower :
    scanWord d before c.toLower (rest.map Char.toLower) = scanWord d before c rest := by
  have hclass := classify_map_toLower d (c :: rest.take (wordLength rest))
  have hlength : wordLength (rest.map Char.toLower) = wordLength rest :=
    runLength_map_toLower caseBlind_isWordChar rest
  have hdot : ('.' : Char).isAlpha = false := by decide
  rw [List.map_cons, List.map_take] at hclass
  simp only [scanWord, wordKind, hlength, ← List.map_drop, head?_map_toLower hdot, hclass]

theorem scanQuoted?_toLower :
    scanQuoted? d c.toLower (rest.map Char.toLower) = scanQuoted? d c rest := by
  have hline : CaseBlind fun c => !decide (c = '\n') := .of_forall (by decide)
  cases hc : c.isAlpha with
  | true =>
    have hlower := (caseBlind_isAlpha c).trans hc
    rw [scanQuoted?_of_isWordChar (isWordChar_of_isAlpha hc),
      scanQuoted?_of_isWordChar (isWordChar_of_isAlpha hlower)]
  | false =>
    have hdollar : ∀ x ∈ ['$', '$'], x.isAlpha = false := by simp
    simp (disch := decide) only [scanQuoted?, toLower_of_not_isAlpha hc, head?_map_toLower,
      ← List.map_drop, literalLength_map_toLower hc, lineLength, ne_eq, decide_not,
      runLength_map_toLower hline, commentLength_map_toLower, lengthThrough_map_toLower hdollar]

theorem scanMarked?_toLower (hplsql : d.plsqlQuotingMechanism = false) :
    scanMarked? d before c.toLower (rest.map Char.toLower) = scanMarked? d before c rest := by
  have he : CaseBlind fun c => c = 'e' || c = 'E' := .of_forall (by decide)
  have hn : CaseBlind fun c => c = 'n' || c = 'N' := .of_forall (by decide)
  have hb : CaseBlind fun c => c = 'b' || c = 'B' := .of_forall (by decide)
  have hx : CaseBlind fun c => c = 'x' || c = 'X' := .of_forall (by decide)
  cases rest with
  | nil => rfl
  | cons q body =>
    have hset := charSetLength?_map_toLower (q :: body)
    rw [List.map_cons] at hset
    simp (disch := decide) only [scanMarked?, List.map_cons, he c, hn c, hb c, hx c,
      toLower_eq_iff, literalLength_map_toLower, hset, List.drop_succ_cons, ← List.map_drop, hplsql,
      Bool.and_false, Bool.false_and, Bool.false_eq_true, if_false,
      digitsLength_map_toLower caseBlind_isHexDigit]
    cases hq : decide (q = '\x27') || decide (q = '"') with
    | false => simp only [Bool.and_false, Bool.false_eq_true, if_false]
    | true =>
      have halpha := not_isAlpha_of_quote (by rw [hq, Bool.true_or])
      simp only [toLower_of_not_isAlpha halpha, literalLength_map_toLower halpha,
        digitsLength_map_toLower caseBlind_isBinaryDigit halpha]

theorem scanNumber?_toLower (hbits : d.unquotedBitLiterals = false) :
    scanNumber? d before c.toLower (rest.map Char.toLower) = scanNumber? d before c rest := by
  have hx : CaseBlind fun c => c = 'x' || c = 'X' := .of_forall (by decide)
  have hhead : (decide ((rest.map Char.toLower).head? = some 'x') ||
      decide ((rest.map Char.toLower).head? = some 'X')) =
        (decide (rest.head? = some 'x') || decide (rest.head? = some 'X')) := by
    cases rest with
    | nil => rfl
    | cons x rest => simpa using hx x
  have hdigit : (rest.map Char.toLower).head?.any Char.isDigit = rest.head?.any Char.isDigit := by
    cases rest with
    | nil => rfl
    | cons x rest => exact caseBlind_isDigit x
  simp (disch := decide) only [scanNumber?, toLower_eq_iff, hbits, caseBlind_isDigit c,
    runLength_map_toLower caseBlind_isHexDigit, ← List.map_drop, numberLength_map_toLower,
    Bool.and_false, Bool.false_and, Bool.false_eq_true, if_false]
  rw [hhead, hdigit]

theorem signKind?_toLower : signKind? c.toLower = signKind? c := by
  simp (disch := decide) only [signKind?, toLower_eq_iff]

/-- A dialect with no letter where characters are listed, and without the two rules that tell the
cases of a letter apart. -/
structure CaseBlindDialect (d : Dialect) : Prop where
  bits : d.unquotedBitLiterals = false
  plsql : d.plsqlQuotingMechanism = false
  operators : ∀ c ∈ d.operatorChars.toList, c.isAlpha = false
  quotes : ∀ c ∈ d.identifierQuoteChars.toList, c.isAlpha = false

theorem contains_of_isAlpha {chars : List Char} (h : ∀ x ∈ chars, x.isAlpha = false)
    (hc : c.isAlpha = true) : chars.contains c = false := by
  by_contra hmem
  simp [h c (by simpa using hmem)] at hc

theorem caseBlind_contains {chars : List Char} (h : ∀ x ∈ chars, x.isAlpha = false) :
    CaseBlind chars.contains := by
  intro c
  cases hc : c.isAlpha with
  | true => rw [contains_of_isAlpha h hc, contains_of_isAlpha h ((caseBlind_isAlpha c).trans hc)]
  | false => rw [toLower_of_not_isAlpha hc]

theorem scan_toLower (h : CaseBlindDialect d) :
    Token.scan d before c.toLower (rest.map Char.toLower) = Token.scan d before c rest := by
  have hquote : CaseBlind d.isIdentifierQuote := caseBlind_contains h.quotes
  have hoperator : CaseBlind d.isOperatorChar := caseBlind_contains h.operators
  have hrun : CaseBlind fun c => isAscii c && d.isOperatorChar c := by
    intro c
    simp only [caseBlind_isAscii c, hoperator c]
  simp only [Token.scan, caseBlind_isSpace c, scanQuoted?_toLower, scanMarked?_toLower h.plsql,
    scanNumber?_toLower h.bits, caseBlind_isAscii c, hquote c, caseBlind_isWordChar c, hoperator c,
    scanWord_toLower, signKind?_toLower, runLength_map_toLower caseBlind_isSpace,
    runLength_map_toLower hrun]
  cases hc : c.isAlpha with
  | true =>
    -- the rules from words on are not reached, and no letter is a quote
    have hword := isWordChar_of_isAlpha hc
    have hnone : d.isIdentifierQuote c = false := contains_of_isAlpha h.quotes hc
    simp only [hword, hnone, Bool.and_false, Bool.false_eq_true, if_false, if_true]
  | false =>
    simp only [toLower_of_not_isAlpha hc, literalLength_map_toLower hc, head?_map_toLower hc,
      ← List.map_drop, variableLength_map_toLower]

end SchemaAssist.Token

namespace SchemaAssist
open Text Token

theorem Lexeme.all_map_toLower {d : Dialect} (h : CaseBlindDialect d) (before : Option Char)
    (cs : List Char) : Lexeme.all d (before.map Char.toLower) (cs.map Char.toLower) =
      (Lexeme.all d before cs).map fun x => { x with chars := x.chars.map Char.toLower } := by
  fun_induction Lexeme.all d before cs with
  | case1 => simp only [List.map_nil, all]
  | case2 before c rest found chars ih =>
    have hbehind : SameBehind (before.map Char.toLower) before := by
      cases before with
      | none => exact ⟨rfl, rfl⟩
      | some x => exact ⟨by simp [toLower_eq_iff], caseBlind_isWordChar x⟩
    rw [List.map_cons, all, hbehind.scan_eq, scan_toLower h, ← List.map_take, ← List.map_drop,
      ← List.map_cons, List.getLast?_map, List.map_cons]
    exact congrArg _ ih

theorem byteLength_map_toLower (cs : List Char) :
    byteLength (cs.map Char.toLower) = byteLength cs := by
  have hsize : CaseBlind Char.utf8Size := .of_forall (by decide)
  induction cs with
  | nil => rfl
  | cons c rest ih => rw [List.map_cons, byteLength_cons, byteLength_cons, hsize, ih]

theorem Lexeme.spans_map_toLower (start : ℕ) (xs : List Lexeme) :
    Lexeme.spans start (xs.map fun x => { x with chars := x.chars.map Char.toLower }) =
      Lexeme.spans start xs := by
  induction xs generalizing start with
  | nil => rfl
  | cons x rest ih => simp only [List.map_cons, spans, byteLength_map_toLower, ih]

/-- Texts that are equal but for the case of ASCII letters have the same tokens. -/
theorem tokenize_eq_of_lowerAscii {d : Dialect} (h : CaseBlindDialect d) {a b : String}
    (hab : lowerAscii a = lowerAscii b) : tokenize d a = tokenize d b := by
  have hlower : ∀ text, tokenize d (lowerAscii text) = tokenize d text := by
    intro text
    have hall := Lexeme.all_map_toLower h none text.toList
    rw [Option.map_none] at hall
    rw [tokenize_eq_spans, tokenize_eq_spans, lowerAscii, String.toList_ofList, hall,
      Lexeme.spans_map_toLower]
  rw [← hlower a, hab, hlower b]

/-- A keyword, a hexadecimal number and an exponent in either case. -/
theorem tokenize_eq_of_lowerAscii_prefixes :
    let d := Dialect.define { Dialect.Spec.named "d" with keywords := some "Pk", types := some "" }
    let a := "PK X'0f' é.5E1"
    let b := "pk x'0F' é.5e1"
    CaseBlindDialect d ∧ lowerAscii a = lowerAscii b ∧ tokenize d a = tokenize d b ∧
      tokenize d a = [⟨.keyword, 0, 2⟩, ⟨.whitespace, 2, 3⟩, ⟨.number, 3, 8⟩,
        ⟨.whitespace, 8, 9⟩, ⟨.unknown, 9, 11⟩, ⟨.number, 11, 15⟩] := by
  intro d a b
  have h : CaseBlindDialect d := by
    constructor
    case bits => rfl
    case plsql => rfl
    case operators => simp [d, Dialect.define, Dialect.Spec.named]
    case quotes => simp [d, Dialect.define, Dialect.Spec.named]
  have hab : lowerAscii a = lowerAscii b := by
    decide +kernel
  exact ⟨h, hab, tokenize_eq_of_lowerAscii h hab, by decide +kernel⟩

end SchemaAssist

import SchemaAssist.Proofs.Token.Scan

/-! # The rules of the scan

Each rule of the scanner gives the kind that the rule on characters gives, and the end that the number
of characters there comes to. Put in a row, the tokens of the scan are the lexemes of the text.
-/
namespace SchemaAssist.Source
open Text Token
variable {s : Source} {i : Nat} {pre rest : List Char} {c : Char}

/-- Kind and end of a token that starts with `c` and has so many of the characters after it. -/
def reach (i : Nat) (c : Char) (rest : List Char) (found : TokenKind × Nat) : TokenKind × Nat :=
  (found.1, i + byteLength (c :: rest.take found.2))

theorem reach_eq (hc : isAscii c = true) (i : Nat) (rest : List Char) (kind : TokenKind) (n : Nat) :
    (kind, i + 1 + byteLength (rest.take n)) = reach i c rest (kind, n) := by
  rw [reach, byteLength_cons, utf8Size_of_isAscii hc, Nat.add_assoc]

theorem reach_cons_eq {q : Char} (hc : isAscii c = true) (hq : isAscii q = true) (i : Nat)
    (body : List Char) (kind : TokenKind) (n : Nat) :
    (kind, i + 1 + 1 + byteLength (body.take n)) = reach i c (q :: body) (kind, 1 + n) := by
  rw [← reach_eq hc, Nat.add_comm 1 n, List.take_succ_cons, byteLength_cons, utf8Size_of_isAscii hq,
    Nat.add_assoc (i + 1)]

theorem eq_cons_of_head? {x : Char} (h : rest.head? = some x) : rest = x :: rest.drop 1 := by
  obtain ⟨tail, rfl⟩ := List.head?_eq_some_iff.mp h
  rfl

theorem At.hasAt_next (h : At s i pre rest) {x y : Char} (hx : isAscii x = true)
    (hy : isAscii y = true) (hhead : rest.head? = some x) :
    s.hasAt (i + 1) y = decide ((rest.drop 1).head? = some y) := by
  rw [eq_cons_of_head? hhead] at h
  exact (h.next hx).hasAt hy

theorem At.scanQuoted? (h : At s i pre (c :: rest)) (hc : isAscii c = true) (d : Dialect) :
    s.scanQuoted? d i c = (Token.scanQuoted? d c rest).map fun f => some (reach i c rest f) := by
  have hnext := h.next hc
  have hdash : (s.hasAt (i + 1) '-' && (!d.spaceAfterDashes || s.hasAt (i + 1 + 1) ' ')) =
      (decide (rest.head? = some '-') &&
        (!d.spaceAfterDashes || decide ((rest.drop 1).head? = some ' '))) := by
    rw [hnext.hasAt (show isAscii '-' = true by decide)]
    by_cases hhead : rest.head? = some '-'
    · rw [hnext.hasAt_next (by decide) (by decide) hhead]
    · simp [hhead]
  simp only [Source.scanQuoted?, Token.scanQuoted?, Bool.and_assoc, hdash,
    hnext.hasAt (show isAscii '$' = true by decide), hnext.hasAt (show isAscii '/' = true by decide),
    hnext.hasAt (show isAscii '*' = true by decide), apply_ite (Option.map _), Option.map_some,
    Option.map_none]
  refine ite_congr rfl (fun hdollar => ?_) fun _ => ?_
  · simp only [Bool.and_eq_true, decide_eq_true_eq] at hdollar
    rw [eq_cons_of_head? hdollar.2.2] at hnext ⊢
    rw [(hnext.next (by decide)).readThrough (by simp), Option.map_some,
      reach_cons_eq (q := '$') hc (by decide)]
    rfl
  refine ite_congr rfl (fun hquote => ?_) fun _ => ?_
  · rw [hnext.readLiteral hc, reach_eq hc]
  refine ite_congr rfl (fun hquote => ?_) fun _ => ?_
  · rw [hnext.readLiteral hc, reach_eq hc]
  refine ite_congr rfl (fun _ => ?_) fun _ => ?_
  · rw [hnext.readLine, reach_eq hc]
  refine ite_congr rfl (fun _ => ?_) fun _ => ?_
  · rw [hnext.readLine, reach_eq hc]
  refine ite_congr rfl (fun _ => ?_) fun _ => ?_
  · rw [hnext.readLine, reach_eq hc]
  refine ite_congr rfl (fun hstar => ?_) fun _ => rfl
  simp only [Bool.and_eq_true, decide_eq_true_eq] at hstar
  rw [eq_cons_of_head? hstar.2] at hnext ⊢
  rw [(hnext.next (by decide)).readComment, Option.map_some,
    reach_cons_eq (q := '*') hc (by decide)]
  rfl

theorem At.scanNumber? (h : At s i pre (c :: rest)) (hc : isAscii c = true) (d : Dialect) :
    s.scanNumber? d i c = (Token.scanNumber? d pre.getLast? c rest).map (reach i c rest) := by
  have hnext := h.next hc
  simp only [Source.scanNumber?, Token.scanNumber?, followsWord,
    hnext.hasAt (show isAscii 'b' = true by decide), hnext.hasAt (show isAscii 'x' = true by decide),
    hnext.hasAt (show isAscii 'X' = true by decide), hnext.any_peek withinAscii_isDigit,
    h.any_peek_pred withinAscii_isWordChar, apply_ite (Option.map _), Option.map_some,
    Option.map_none]
  refine ite_congr rfl (fun hb => ?_) fun _ => ?_
  · simp only [Bool.and_eq_true, decide_eq_true_eq] at hb
    rw [eq_cons_of_head? hb.2] at hnext ⊢
    rw [(hnext.next (by decide)).eatWhile withinAscii_isBinaryDigit.units_eq,
      reach_cons_eq (q := 'b') hc (by decide)]
    rfl
  refine ite_congr rfl (fun hx => ?_) fun _ => ?_
  · simp only [Bool.and_eq_true, Bool.or_eq_true, decide_eq_true_eq] at hx
    obtain ⟨x, hx', hhead⟩ : ∃ x, isAscii x = true ∧ rest.head? = some x := by
      rcases hx.2 with hhead | hhead
      · exact ⟨'x', by decide, hhead⟩
      · exact ⟨'X', by decide, hhead⟩
    rw [eq_cons_of_head? hhead] at hnext ⊢
    rw [(hnext.next hx').eatWhile withinAscii_isHexDigit.units_eq, reach_cons_eq hc hx']
    rfl
  refine ite_congr rfl (fun _ => ?_) fun _ => ?_
  · refine ite_congr rfl (fun _ => ?_) fun _ => ?_
    · rw [hnext.readNumber, reach_eq hc]
    · simp [reach, utf8Size_of_isAscii hc]
  refine ite_congr rfl (fun _ => ?_) fun _ => rfl
  rw [hnext.readNumber, reach_eq hc]

theorem isAscii_apostrophe : isAscii '\x27' = true := by decide

theorem At.readLiteral_charSet (h : At s i pre rest) {n : Nat}
    (hn : Token.charSetLength? rest = some n) (escapes : Bool) :
    s.readLiteral '\x27' escapes false (i + n + 1) =
      i + byteLength (rest.take (n + 1 + literalLength '\x27' escapes false (rest.drop (n + 1)))) := by
  obtain ⟨hrun, hquote⟩ : runLength Char.isAlphanum rest = n ∧
      (rest.drop n).head? = some '\x27' := by
    simp only [Token.charSetLength?] at hn
    split at hn
    · rename_i hcond
      simp only [Bool.and_eq_true, decide_eq_true_eq] at hcond
      obtain rfl := Option.some.inj hn
      exact ⟨rfl, hcond.2⟩
    · cases hn
  have hname := h.skip n
  have hlen : byteLength (rest.take n) = n := by
    rw [← hrun]
    exact byteLength_take_runLength withinAscii_isAlphanum rest
  rw [hlen, eq_cons_of_head? hquote] at hname
  rw [(hname.next isAscii_apostrophe).readLiteral isAscii_apostrophe escapes, List.take_add,
    List.take_add, byteLength_append, byteLength_append, hlen, eq_cons_of_head? hquote,
    List.drop_drop]
  simp only [List.take_succ_cons, List.take_zero, List.drop_succ_cons, List.drop_zero,
    byteLength_cons, byteLength_nil, utf8Size_of_isAscii isAscii_apostrophe]
  omega

theorem At.readWord_eq (h : At s i pre (c :: rest)) (hc : isAscii c = true) (d : Dialect) :
    s.readWord d i = some (reach i c rest (scanWord d pre.getLast? c rest)) :=
  h.readWord hc d

theorem At.delimited_eq {body : List Char} (h : At s i pre (c :: '\x27' :: body))
    (hc : isAscii c = true) (d : Dialect) :
    (match s.delimiter? (i + 1 + 1) with
      | some opener => some ((s.readThrough [closing opener, '\x27']
          (i + 1 + 1 + opener.utf8Size)).map (TokenKind.string, ·))
      | none => some (s.readWord d i)) =
    (match body with
      | [] => some (scanWord d pre.getLast? c ['\x27'])
      | delimiter :: quoted =>
        if isSpace delimiter then some (scanWord d pre.getLast? c ('\x27' :: delimiter :: quoted))
        else some (.string, 2 + lengthThrough [closing delimiter, '\x27'] quoted)).map fun f =>
      some (reach i c ('\x27' :: body) f) := by
  have hbody := (h.next hc).next isAscii_apostrophe
  rw [hbody.delimiter?]
  cases body with
  | nil => exact congrArg some (h.readWord_eq hc d)
  | cons delimiter quoted =>
    cases hspace : isSpace delimiter with
    | true =>
      simp only [List.head?_cons, Option.filter_some, hspace, Bool.not_true, if_true,
        Bool.false_eq_true, if_false]
      exact congrArg some (h.readWord_eq hc d)
    | false =>
      have hquoted := hbody.skip 1
      simp only [List.take_succ_cons, List.take_zero, byteLength_cons, byteLength_nil,
        List.drop_succ_cons, List.drop_zero, Nat.add_zero] at hquoted
      simp only [List.head?_cons, Option.filter_some, hspace, Bool.not_false, if_true,
        Bool.false_eq_true, if_false, hquoted.readThrough (List.cons_ne_nil _ _),
        Option.map_some]
      rw [reach, Nat.add_comm 2]
      simp only [List.take_succ_cons, byteLength_cons, utf8Size_of_isAscii hc,
        utf8Size_of_isAscii isAscii_apostrophe, Option.some.injEq, Prod.mk.injEq, true_and]
      omega

theorem At.scanMarked? (h : At s i pre (c :: rest)) (hc : isAscii c = true) (d : Dialect) :
    s.scanMarked? d i c =
      (Token.scanMarked? d pre.getLast? c rest).map fun f => some (reach i c rest f) := by
  have hnext := h.next hc
  have hset := hnext.charSetLength?
  simp only [Source.scanMarked?, hset, hnext.hasAt isAscii_apostrophe,
    hnext.hasAt (show isAscii '"' = true by decide)]
  cases rest with
  | nil => simp [Token.scanMarked?, Token.charSetLength?, runLength]
  | cons q body =>
    simp only [Token.scanMarked?, List.head?_cons, Option.some.injEq, apply_ite (Option.map _),
      Option.map_some, Option.map_none]
    refine ite_congr rfl (fun hq => ?_) fun _ => ?_
    · simp only [Bool.and_eq_true, decide_eq_true_eq] at hq
      obtain rfl := hq.2
      rw [(hnext.next isAscii_apostrophe).readLiteral isAscii_apostrophe,
        reach_cons_eq hc isAscii_apostrophe]
    refine ite_congr rfl (fun hq => ?_) fun _ => ?_
    · simp only [Bool.and_eq_true, decide_eq_true_eq] at hq
      obtain rfl := hq.2
      rw [(hnext.next isAscii_apostrophe).readLiteral isAscii_apostrophe,
        reach_cons_eq hc isAscii_apostrophe]
    by_cases hset' : (c = '_' && d.charSetCasts) = true
    · have hc' : c = '_' := by
        simp only [Bool.and_eq_true, decide_eq_true_eq] at hset'
        exact hset'.1
      rw [if_pos hset']
      cases hn : Token.charSetLength? (q :: body) with
      | none => simp [hc']
      | some n =>
        rw [if_pos (by simpa using hset')]
        simp only [Option.getD_some, Option.map_some]
        rw [hnext.readLiteral_charSet hn, reach_eq hc]
    rw [if_neg hset', if_neg (by simp_all)]
    refine ite_congr rfl (fun hq => ?_) fun _ => ?_
    · simp only [Bool.and_eq_true, decide_eq_true_eq] at hq
      obtain rfl := hq.2
      exact h.delimited_eq hc d
    refine ite_congr rfl (fun hq => ?_) fun _ => ?_
    · simp only [Bool.and_eq_true, Bool.or_eq_true, decide_eq_true_eq] at hq
      have hq' : isAscii q = true := by rcases hq.2 with rfl | rfl <;> decide
      have hbody := hnext.next hq'
      rw [hnext.peek hq', Option.getD_some]
      refine ite_congr rfl (fun _ => ?_) fun _ => ?_
      · rw [hbody.readLiteral hq', reach_cons_eq hc hq']
      · rw [hbody.readDigits withinAscii_isBinaryDigit hq', reach_cons_eq hc hq']
    refine ite_congr rfl (fun hq => ?_) fun _ => rfl
    simp only [Bool.and_eq_true, decide_eq_true_eq] at hq
    obtain rfl := hq.2
    rw [(hnext.next isAscii_apostrophe).readDigits withinAscii_isHexDigit isAscii_apostrophe,
      reach_cons_eq hc isAscii_apostrophe]

/-! ## Whole tokens -/

theorem scan_of_not_isAscii {u : Char} (hu : isAscii u = false) (s : Source) (d : Dialect)
    (i : Nat) : s.scan d i u = s.readUnknown i := by
  have hspace : isSpace u = false := withinAscii_isSpace.eq_false hu
  have hword : isWordChar u = false := withinAscii_isWordChar.eq_false hu
  have hdigit : u.isDigit = false := withinAscii_isDigit.eq_false hu
  have hquoted : s.scanQuoted? d i u = none := by
    simp (disch := decide) [Source.scanQuoted?, ne_of_isAscii hu]
  have hmarked : s.scanMarked? d i u = none := by
    simp (disch := decide) [Source.scanMarked?, ne_of_isAscii hu]
  have hnumber : s.scanNumber? d i u = none := by
    simp (disch := decide) [Source.scanNumber?, ne_of_isAscii hu, hdigit]
  have hsign : signKind? u = none := by
    simp (disch := decide) [signKind?, ne_of_isAscii hu]
  simp [Source.scan, hspace, hquoted, hmarked, hnumber, hu, hword, hsign]

theorem tokenScan_of_not_isAscii (hc : isAscii c = false) (d : Dialect) (before : Option Char)
    (rest : List Char) : Token.scan d before c rest = (.unknown, 0) := by
  have hspace : isSpace c = false := withinAscii_isSpace.eq_false hc
  have hword : isWordChar c = false := withinAscii_isWordChar.eq_false hc
  have hdigit : c.isDigit = false := withinAscii_isDigit.eq_false hc
  have hquoted : Token.scanQuoted? d c rest = none := by
    simp (disch := decide) [Token.scanQuoted?, ne_of_isAscii hc]
  have hmarked : Token.scanMarked? d before c rest = none := by
    cases rest with
    | nil => rfl
    | cons q body => simp (disch := decide) [Token.scanMarked?, ne_of_isAscii hc]
  have hnumber : Token.scanNumber? d before c rest = none := by
    simp (disch := decide) [Token.scanNumber?, ne_of_isAscii hc, hdigit]
  have hsign : signKind? c = none := by
    simp (disch := decide) [signKind?, ne_of_isAscii hc]
  simp [Token.scan, hspace, hquoted, hmarked, hnumber, hc, hword, hsign]

theorem At.scan_of_isAscii (h : At s i pre (c :: rest)) (hc : isAscii c = true) (d : Dialect) :
    s.scan d i c = some (reach i c rest (Token.scan d pre.getLast? c rest)) := by
  have hnext := h.next hc
  simp only [Source.scan, Token.scan, h.scanQuoted? hc, h.scanMarked? hc, h.scanNumber? hc,
    apply_ite some, apply_ite (reach i c rest)]
  refine ite_congr rfl (fun _ => ?_) fun _ => ?_
  · rw [hnext.eatWhile withinAscii_isSpace.units_eq, reach_eq hc]
  cases hquoted : Token.scanQuoted? d c rest with
  | some found => rfl
  | none =>
    cases hmarked : Token.scanMarked? d pre.getLast? c rest with
    | some found => rfl
    | none =>
      cases hnumber : Token.scanNumber? d pre.getLast? c rest with
      | some found => rfl
      | none =>
        simp only [Option.map_none, apply_ite some, apply_ite (reach i c rest)]
        refine ite_congr rfl (fun _ => ?_) fun _ => ?_
        · rw [hnext.readLiteral hc, reach_eq hc]
        refine ite_congr rfl (fun _ => h.readWord_eq hc d) fun _ => ?_
        refine ite_congr rfl (fun _ => ?_) fun _ => ?_
        · rw [hnext.eatWhile withinAscii_and_left.units_eq, reach_eq hc]
        refine ite_congr rfl (fun _ => ?_) fun _ => ?_
        · rw [hnext.hasAt hc]
          by_cases htwice : rest.head? = some c
          · rw [if_pos htwice]
            rw [eq_cons_of_head? htwice] at hnext ⊢
            simp only [List.head?_cons, decide_true, if_true, (hnext.next hc).readVariable]
            rw [reach_cons_eq hc hc]
            rfl
          · rw [if_neg htwice, if_neg (by simpa using htwice), hnext.readVariable, reach_eq hc]
        · cases hsign : signKind? c with
          | some kind => simp [reach, utf8Size_of_isAscii hc]
          | none => simp [readUnknown, h.splitAt?, reach]

/-- At every boundary the scan gives the token of the rules on characters, and no cut fails. -/
theorem At.scan (h : At s i pre (c :: rest)) (hi : i < s.bytes.size) (d : Dialect) :
    s.scan d i (Char.ofUInt8 s.bytes[i]) =
      some (reach i c rest (Token.scan d pre.getLast? c rest)) := by
  have hpeek : s.peek i = some (Char.ofUInt8 s.bytes[i]) := by
    rw [peek_eq, Source.drop_units hi, List.head?_cons]
  cases hc : isAscii c with
  | true =>
    rw [h.peek hc] at hpeek
    rw [← Option.some.inj hpeek, h.scan_of_isAscii hc]
  | false =>
    -- the first byte of a longer character starts no rule but the last
    have hu : isAscii (Char.ofUInt8 s.bytes[i]) = false := by
      rw [peek_eq, h.drop_units, List.flatMap_cons] at hpeek
      obtain ⟨u, us, hus⟩ := List.exists_cons_of_ne_nil (units_ne_nil c)
      rw [hus, List.cons_append, List.head?_cons] at hpeek
      rw [← Option.some.inj hpeek]
      exact not_isAscii_of_mem_units hc (hus ▸ List.mem_cons_self)
    rw [scan_of_not_isAscii hu, tokenScan_of_not_isAscii hc, readUnknown, h.splitAt?]
    rfl

theorem At.tokensFrom {post : List Char} (h : At s i pre post) (d : Dialect) :
    s.tokensFrom d i = some (Lexeme.spans i (Lexeme.all d pre.getLast? post)) := by
  -- on the characters left, of which every token takes one at least
  induction hlen : post.length using Nat.strong_induction_on generalizing i pre post with
  | _ n ih =>
    cases post with
    | nil => simp [Source.tokensFrom, h.size_le, Lexeme.all, Lexeme.spans]
    | cons c rest =>
      have hskip := h.skip ((Token.scan d pre.getLast? c rest).2 + 1)
      have hstep := h.scan h.lt_size d
      rw [Lexeme.all]
      generalize Token.scan d pre.getLast? c rest = found at hskip hstep ⊢
      have hstop : i < (reach i c rest found).2 := by
        have := Char.utf8Size_pos c
        simp only [reach, byteLength_cons]
        omega
      have hlast : (pre ++ c :: rest.take found.2).getLast? =
          (c :: rest.take found.2).getLast? := by
        simp [List.getLast?_append, List.getLast?_cons]
      simp only [List.take_succ_cons, List.drop_succ_cons] at hskip
      have hshort : (rest.drop found.2).length < n := by
        rw [← hlen, List.length_drop, List.length_cons]
        omega
      have hrest := ih _ hshort hskip rfl
      rw [hlast] at hrest
      rw [Source.tokensFrom, dif_pos h.lt_size, hstep, Option.bind_some, dif_pos hstop]
      exact congrArg (Option.map _) hrest

/-- The scan of a text never fails, and its tokens are the lexemes of the text. -/
theorem tokensFrom_of (d : Dialect) (text : String) :
    (Source.of text).tokensFrom d 0 = some (Lexeme.spans 0 (Lexeme.all d none text.toList)) := by
  have hstart : At (Source.of text) 0 [] text.toList := ⟨rfl, rfl⟩
  exact hstart.tokensFrom d

end SchemaAssist.Source

namespace SchemaAssist

theorem tokenize_eq_spans (d : Dialect) (text : String) :
    tokenize d text = Lexeme.spans 0 (Lexeme.all d none text.toList) := by
  rw [tokenize, Source.tokensFrom_of, Option.getD_some]

end SchemaAssist

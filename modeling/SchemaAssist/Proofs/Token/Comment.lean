import SchemaAssist.Dialect.Builtin
import SchemaAssist.Proofs.Token.Rules

/-! # Nested comments

A block comment is a sign that opens it, a run of comments and other bytes, and a sign that closes
it. The scan keeps only the number of comments that are open. It still ends where this grammar says,
for at every place the text decides which of the three is next.
-/
namespace SchemaAssist
open Text Token

namespace Source

def OpensAt (s : Source) (i : ℕ) : Prop := s.hasAt i '/' = true ∧ s.hasAt (i + 1) '*' = true

def ClosesAt (s : Source) (i : ℕ) : Prop := s.hasAt i '*' = true ∧ s.hasAt (i + 1) '/' = true

instance (s : Source) (i : ℕ) : Decidable (s.OpensAt i) := inferInstanceAs (Decidable (_ ∧ _))

instance (s : Source) (i : ℕ) : Decidable (s.ClosesAt i) := inferInstanceAs (Decidable (_ ∧ _))

/-- The bytes from one offset to another are comments and single bytes at which no comment opens or
closes. -/
inductive Items (s : Source) : ℕ → ℕ → Prop
  | nil {i : ℕ} : Items s i i
  | byte {i k : ℕ} (hlt : i < s.bytes.size) (hopen : ¬ s.OpensAt i) (hclose : ¬ s.ClosesAt i)
      (hitems : Items s (i + 1) k) : Items s i k
  | comment {i j k : ℕ} (hopen : s.OpensAt i) (hinside : Items s (i + 2) j) (hclose : s.ClosesAt j)
      (hitems : Items s (j + 2) k) : Items s i k

/-- The bytes from one offset to another are a comment. -/
inductive IsComment (s : Source) (i : ℕ) : ℕ → Prop
  | intro {j : ℕ} (hopen : s.OpensAt i) (hinside : s.Items (i + 2) j) (hclose : s.ClosesAt j) :
      IsComment s i (j + 2)

variable {s : Source} {i j k : ℕ}

/-! ## One step of the scan -/

theorem OpensAt.not_closesAt (h : s.OpensAt i) : ¬ s.ClosesAt i := by
  intro hclose
  have hsame := (of_decide_eq_true h.1).symm.trans (of_decide_eq_true hclose.1)
  simp at hsame

theorem lt_size_of_hasAt {c : Char} (h : s.hasAt i c = true) : i < s.bytes.size := by
  have hpeek := of_decide_eq_true h
  by_contra hge
  simp [peek, Nat.le_of_not_lt hge] at hpeek

theorem readComment_of_opensAt (h : s.OpensAt i) (depth : ℕ) :
    s.readComment depth i = s.readComment (depth + 1) (i + 2) := by
  rw [readComment.eq_def, dif_pos (lt_size_of_hasAt h.1),
    if_neg (by simpa [ClosesAt] using h.not_closesAt), if_pos (by simpa [OpensAt] using h)]

theorem readComment_of_byte (hlt : i < s.bytes.size) (hopen : ¬ s.OpensAt i)
    (hclose : ¬ s.ClosesAt i) (depth : ℕ) :
    s.readComment depth i = s.readComment depth (i + 1) := by
  rw [readComment.eq_def, dif_pos hlt, if_neg (by simpa [ClosesAt] using hclose),
    if_neg (by simpa [OpensAt] using hopen)]

theorem readComment_of_closesAt (h : s.ClosesAt i) (outer : ℕ) :
    s.readComment (outer + 2) i = s.readComment (outer + 1) (i + 2) := by
  rw [readComment.eq_def, dif_pos (lt_size_of_hasAt h.1), if_pos (by simpa [ClosesAt] using h)]

theorem readComment_one_of_closesAt (h : s.ClosesAt i) : s.readComment 1 i = some (i + 2) := by
  rw [readComment.eq_def, dif_pos (lt_size_of_hasAt h.1), if_pos (by simpa [ClosesAt] using h)]

/-! ## The scan follows the grammar -/

/-- What stands between the signs of a comment leaves the number of open comments as it was. -/
theorem readComment_of_items (h : s.Items i k) (outer : ℕ) :
    s.readComment (outer + 1) i = s.readComment (outer + 1) k := by
  induction h generalizing outer with
  | nil => rfl
  | byte hlt hopen hclose _ ih => rw [readComment_of_byte hlt hopen hclose, ih]
  | comment hopen _ hclose _ ihinside ih =>
    rw [readComment_of_opensAt hopen, ihinside, readComment_of_closesAt hclose, ih]

theorem readComment_of_isComment (h : s.IsComment i k) : s.readComment 1 (i + 2) = some k := by
  obtain ⟨hopen, hinside, hclose⟩ := h
  rw [readComment_of_items hinside 0, readComment_one_of_closesAt hclose]

/-- The bytes from one offset to another close so many comments, and no more. -/
inductive Closes (s : Source) : ℕ → ℕ → ℕ → Prop
  | nil {i : ℕ} : Closes s 0 i i
  | cons {depth i j k : ℕ} (hitems : s.Items i j) (hclose : s.ClosesAt j)
      (hrest : Closes s depth (j + 2) k) : Closes s (depth + 1) i k

theorem closes_of_readComment {depth : ℕ} (hdepth : 0 < depth) (hi : i ≤ s.bytes.size)
    (h : s.readComment depth i = some k) : s.Closes depth i k ∨ k = s.bytes.size := by
  fun_induction readComment s depth i with
  | case1 => exact absurd hdepth (Nat.lt_irrefl 0)
  | case2 i hlt hclose =>
    obtain rfl := Option.some.inj h
    exact .inl (.cons .nil (by simpa [ClosesAt] using hclose) .nil)
  | case3 i hlt hclose depth ih =>
    have hclose : s.ClosesAt i := by simpa [ClosesAt] using hclose
    exact (ih (by omega) (lt_size_of_hasAt hclose.2) h).imp_left (.cons .nil hclose)
  | case4 depth i hlt _ hopen ih =>
    have hopen : s.OpensAt i := by simpa [OpensAt] using hopen
    refine (ih (by omega) (lt_size_of_hasAt hopen.2) h).imp_left fun hcloses => ?_
    -- the first comment to be closed is the one opened here
    obtain - | ⟨hinside, hclose, hrest⟩ := hcloses
    obtain - | ⟨hitems, houter, hrest⟩ := hrest
    · exact absurd hdepth (Nat.lt_irrefl 0)
    · exact .cons (.comment hopen hinside hclose hitems) houter hrest
  | case5 depth i hlt hclose hopen ih =>
    refine (ih hdepth hlt h).imp_left fun hcloses => ?_
    obtain - | ⟨hitems, hnext, hrest⟩ := hcloses
    · exact absurd hdepth (Nat.lt_irrefl 0)
    · have hopen : ¬ s.OpensAt i := by simpa [OpensAt] using hopen
      have hclose : ¬ s.ClosesAt i := by simpa [ClosesAt] using hclose
      exact .cons (.byte hlt hopen hclose hitems) hnext hrest
  | case6 depth i hge =>
    obtain rfl := Option.some.inj h
    exact .inr (by omega)

theorem isComment_of_readComment (hopen : s.OpensAt i) (h : s.readComment 1 (i + 2) = some k) :
    s.IsComment i k ∨ k = s.bytes.size := by
  have hlt := lt_size_of_hasAt hopen.2
  refine (closes_of_readComment Nat.one_pos (by omega) h).imp_left fun hcloses => ?_
  obtain - | ⟨hinside, hclose, ⟨⟩⟩ := hcloses
  exact .intro hopen hinside hclose

end Source

variable {d : Dialect} {text : String} {body : List Char}

/-! ## The first token -/

theorem scan_of_commentSign (d : Dialect) (before : Option Char) (body : List Char) :
    Token.scan d before '/' ('*' :: body) = (.blockComment, 1 + commentLength 0 body) := by
  simp [Token.scan, scanQuoted?, isSpace]

theorem opensAt_of_commentSign (htext : text.toList = '/' :: '*' :: body) :
    (Source.of text).OpensAt 0 := by
  have hstart : (Source.of text).At 0 [] ('/' :: '*' :: body) := ⟨htext, rfl⟩
  have hstar : (Source.of text).At 1 ['/'] ('*' :: body) := hstart.next rfl
  exact ⟨(hstart.hasAt_iff rfl).mpr rfl, (hstar.hasAt_iff rfl).mpr rfl⟩

theorem head?_tokenize_of_commentSign (d : Dialect) (htext : text.toList = '/' :: '*' :: body) :
    ∃ k, (Source.of text).readComment 1 2 = some k ∧
      (tokenize d text).head? = some ⟨.blockComment, 0, k⟩ := by
  have hbody : (Source.of text).At 2 ['/', '*'] body := ⟨htext, rfl⟩
  refine ⟨_, hbody.readComment, ?_⟩
  rw [tokenize_eq_spans, htext, Lexeme.all, scan_of_commentSign, Lexeme.spans, List.head?_cons,
    Nat.add_comm 1, List.take_succ_cons]
  have hsigns : byteLength ('/' :: '*' :: body.take (commentLength 0 body)) =
      2 + byteLength (body.take (commentLength 0 body)) := byteLength_append ['/', '*'] _
  rw [hsigns, Nat.zero_add]

/-- A text that begins with the sign for a block comment begins with one comment of the grammar at
most. That comment is its first token, and the whole text is if there is none. No scan closes a
comment that is not open. -/
theorem comment_extent (d : Dialect) (text : String) (htext : "/*".toList <+: text.toList) :
    (∀ k, (Source.of text).IsComment 0 k →
      (tokenize d text).head? = some ⟨.blockComment, 0, k⟩ ∧
        ∀ j, (Source.of text).IsComment 0 j → j = k) ∧
    ((¬ ∃ k, (Source.of text).IsComment 0 k) →
      (tokenize d text).head? = some ⟨.blockComment, 0, size text⟩) ∧
    ∀ outer i, ((Source.of text).readComment (outer + 1) i).isSome = true := by
  obtain ⟨body, hbody⟩ := htext
  have hopen := opensAt_of_commentSign hbody.symm
  obtain ⟨stop, hstop, htoken⟩ := head?_tokenize_of_commentSign d hbody.symm
  have hunique : ∀ k, (Source.of text).IsComment 0 k → k = stop := fun k hk =>
    Option.some.inj ((Source.readComment_of_isComment hk).symm.trans hstop)
  refine ⟨?_, ?_, ?_⟩
  · intro k hk
    obtain rfl := hunique k hk
    exact ⟨htoken, hunique⟩
  · intro hnone
    have hend := (Source.isComment_of_readComment hopen hstop).resolve_left fun hk =>
      hnone ⟨stop, hk⟩
    rw [htoken, hend, Source.size_bytes]
    rfl
  · intro outer i
    rw [Source.readComment_eq]
    rfl

/-- A sign that shares a byte with one already read neither opens nor closes a comment. -/
theorem comment_extent_overlaps :
    let text := "/*/ /*é*/**/ x"
    "/*".toList <+: text.toList ∧ (Source.of text).IsComment 0 13 ∧
      (tokenize .standard text).head? = some ⟨.blockComment, 0, 13⟩ := by
  intro text
  have hopen : "/*".toList <+: text.toList := by decide
  have hinner : (Source.of text).Items 6 8 :=
    .byte (by decide) (by decide) (by decide) <| .byte (by decide) (by decide) (by decide) .nil
  have hinside : (Source.of text).Items 2 11 :=
    .byte (by decide) (by decide) (by decide) <| .byte (by decide) (by decide) (by decide) <|
      .comment (by decide) hinner (by decide) <| .byte (by decide) (by decide) (by decide) .nil
  have hcomment : (Source.of text).IsComment 0 13 := .intro (by decide) hinside (by decide)
  exact ⟨hopen, hcomment, ((comment_extent .standard text hopen).1 13 hcomment).1⟩

end SchemaAssist

import Mathlib.Data.List.Chain
import SchemaAssist.Proofs.Token.Rules

/-! # Tokens partition the text

The scan of any text in any dialect runs to the end of the text. Its tokens are not empty and stand
side by side from the first byte to the last, each end between two characters.
-/
namespace SchemaAssist
open Text

/-- The tokens stand side by side, not empty, from the start of the text to its end. -/
structure Partitions (text : String) (tokens : List Token) : Prop where
  nil_iff : tokens = [] ↔ text = ""
  first : ∀ t, tokens.head? = some t → t.start = 0
  adjacent : tokens.IsChain fun a b => a.stop = b.start
  nonempty : ∀ t ∈ tokens, t.start < t.stop
  last : ∀ t, tokens.getLast? = some t → t.stop = size text
  boundaries : ∀ t ∈ tokens, IsBoundary text t.start ∧ IsBoundary text t.stop
  texts : ∃ parts, tokens.map (·.text? text) = parts.map some ∧ String.join parts = text

namespace Lexeme

theorem chars_ne_nil_of_mem_all {d : Dialect} {before : Option Char} {cs : List Char} {x : Lexeme}
    (h : x ∈ all d before cs) : x.chars ≠ [] := by
  fun_induction all d before cs with
  | case1 => simp at h
  | case2 before c rest found chars ih =>
    rcases List.mem_cons.mp h with rfl | h
    · exact List.cons_ne_nil _ _
    · exact ih h

theorem byteLength_pos {cs : List Char} (h : cs ≠ []) : 0 < byteLength cs := by
  cases cs with
  | nil => exact absurd rfl h
  | cons c rest =>
    have := Char.utf8Size_pos c
    rw [byteLength_cons]
    omega

theorem head?_spans {start : Nat} {xs : List Lexeme} {t : Token}
    (h : (spans start xs).head? = some t) : t.start = start := by
  cases xs with
  | nil => simp [spans] at h
  | cons x rest =>
    obtain rfl : _ = t := by simpa [spans] using h
    rfl

theorem isChain_spans (start : Nat) (xs : List Lexeme) :
    (spans start xs).IsChain fun a b => a.stop = b.start := by
  induction xs generalizing start with
  | nil => exact .nil
  | cons x rest ih =>
    rw [spans]
    cases rest with
    | nil => exact .singleton _
    | cons y more => exact .cons_cons rfl (ih _)

theorem getLast?_spans {start : Nat} {xs : List Lexeme} {t : Token}
    (h : (spans start xs).getLast? = some t) :
    t.stop = start + byteLength (xs.flatMap (·.chars)) := by
  induction xs generalizing start with
  | nil => simp [spans] at h
  | cons x rest ih =>
    rw [spans] at h
    rw [List.flatMap_cons, byteLength_append, ← Nat.add_assoc]
    cases rest with
    | nil =>
      obtain rfl : _ = t := by simpa [spans] using h
      rfl
    | cons y more => exact ih (by simpa [spans] using h)

theorem lt_of_mem_spans {start : Nat} {xs : List Lexeme} {t : Token}
    (hxs : ∀ x ∈ xs, x.chars ≠ []) (h : t ∈ spans start xs) : t.start < t.stop := by
  induction xs generalizing start with
  | nil => simp [spans] at h
  | cons x rest ih =>
    rcases List.mem_cons.mp h with rfl | h
    · have := byteLength_pos (hxs x List.mem_cons_self)
      exact Nat.lt_add_of_pos_right this
    · exact ih (fun y hy => hxs y (List.mem_cons_of_mem _ hy)) h

theorem isBoundary_of_mem_spans {text : String} {pre : List Char} {xs : List Lexeme} {t : Token}
    (htext : text.toList = pre ++ xs.flatMap (·.chars)) (h : t ∈ spans (byteLength pre) xs) :
    IsBoundary text t.start ∧ IsBoundary text t.stop := by
  induction xs generalizing pre with
  | nil => simp [spans] at h
  | cons x rest ih =>
    have hnext : text.toList = (pre ++ x.chars) ++ rest.flatMap (·.chars) := by
      rw [htext, List.flatMap_cons, List.append_assoc]
    rcases List.mem_cons.mp h with rfl | h
    · exact ⟨⟨pre, _, htext, rfl⟩, ⟨_, _, hnext, byteLength_append _ _⟩⟩
    · rw [← byteLength_append] at h
      exact ih hnext h

theorem map_text?_spans {text : String} {pre : List Char} {xs : List Lexeme}
    (htext : text.toList = pre ++ xs.flatMap (·.chars)) :
    (spans (byteLength pre) xs).map (·.text? text) =
      (xs.map fun x => String.ofList x.chars).map some := by
  induction xs generalizing pre with
  | nil => rfl
  | cons x rest ih =>
    have hnext : text.toList = (pre ++ x.chars) ++ rest.flatMap (·.chars) := by
      rw [htext, List.flatMap_cons, List.append_assoc]
    have hrest := ih hnext
    rw [byteLength_append] at hrest
    rw [spans, List.map_cons, List.map_cons, List.map_cons, hrest, Token.text?, slice?_eq hnext]

theorem join_texts (xs : List Lexeme) :
    String.join (xs.map fun x => String.ofList x.chars) =
      String.ofList (xs.flatMap (·.chars)) := by
  apply String.toList_inj.mp
  simp [List.flatMap_map]

end Lexeme

/-- Scanning goes through to the end of any text, whatever the dialect, and the tokens partition the
text. -/
theorem tokenize_partitions (d : Dialect) (text : String) :
    (Source.of text).tokensFrom d 0 = some (tokenize d text) ∧
      Partitions text (tokenize d text) := by
  have hchars := Lexeme.flatMap_chars_all d none text.toList
  have hpre : text.toList = [] ++ (Lexeme.all d none text.toList).flatMap (·.chars) := hchars.symm
  rw [tokenize_eq_spans]
  refine ⟨Source.tokensFrom_of d text, ?_⟩
  constructor
  case nil_iff =>
    constructor
    · intro h
      have hparts := Lexeme.map_text?_spans hpre
      rw [byteLength_nil, h] at hparts
      have hnil : Lexeme.all d none text.toList = [] := by
        simpa using hparts.symm
      rw [hnil, List.flatMap_nil] at hchars
      exact String.toList_inj.mp hchars.symm
    · rintro rfl
      simp [Lexeme.all, Lexeme.spans]
  case first => exact fun t ht => Lexeme.head?_spans ht
  case adjacent => exact Lexeme.isChain_spans _ _
  case nonempty =>
    exact fun t ht => Lexeme.lt_of_mem_spans (fun x hx => Lexeme.chars_ne_nil_of_mem_all hx) ht
  case last =>
    intro t ht
    rw [Lexeme.getLast?_spans ht, hchars, Nat.zero_add, size]
  case boundaries => exact fun t ht => Lexeme.isBoundary_of_mem_spans hpre ht
  case texts =>
    refine ⟨_, Lexeme.map_text?_spans hpre, ?_⟩
    rw [Lexeme.join_texts, hchars, String.ofList_toList]

end SchemaAssist

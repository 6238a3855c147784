import Mathlib.Data.List.TakeWhile
import SchemaAssist.Completion.Snippet

/-! # Templates as plain text

A template is written from literal texts and tab stops, with a backslash before each character that has
a meaning of its own. Read as plain text the literals come back. A default text is read with its
backslashes and only up to its first closing brace, so it comes back just if it has none of those
characters.
-/
namespace SchemaAssist.Completion

/-! ## Writing templates -/

/-- Characters that are written with a backslash. -/
def special : List Char := ['\\', '$', '\x7d']

def escape (cs : List Char) : List Char := cs.flatMap fun c => if c ∈ special then ['\\', c] else [c]

/-- What a template is made of. -/
inductive Segment where
  | literal (text : String)
  | stop (number : ℕ)
  /-- A tab stop with a default text. -/
  | filled (number : ℕ) (text : String)
  deriving Repr, DecidableEq

namespace Segment

/-- How a segment is written. -/
def chars : Segment → List Char
  | literal text => escape text.toList
  | stop number => '$' :: '\x7b' :: (Nat.toDigits 10 number ++ ['\x7d'])
  | filled number text =>
    '$' :: '\x7b' :: (Nat.toDigits 10 number ++ ':' :: (escape text.toList ++ ['\x7d']))

/-- What a segment means as plain text. -/
def text : Segment → String
  | literal text => text
  | stop _ => ""
  | filled _ text => text

/-- A default text as it is read. Its first closing brace ends the tab stop, and what follows is read
as if it were not part of it. -/
def shownDefault (cs : List Char) : List Char :=
  match cs.dropWhile (· ≠ '\x7d') with
  | [] => escape cs
  | _ :: after => escape (cs.takeWhile (· ≠ '\x7d')) ++ '\\' :: (after ++ ['\x7d'])

/-- What a segment is read as. -/
def shown : Segment → List Char
  | literal text => text.toList
  | stop _ => []
  | filled _ text => shownDefault text.toList

/-- No character of a default text has a meaning of its own. -/
def Plain : Segment → Prop
  | filled _ text => ∀ c ∈ text.toList, c ∉ special
  | _ => True

end Segment

/-- The template of some segments. -/
def templateOf (segments : List Segment) : String := String.ofList (segments.flatMap Segment.chars)

variable {c : Char} {cs rest before after : List Char}

theorem isEscapable_iff : isEscapable c = true ↔ c ∈ special := by
  simp only [isEscapable, special, Bool.or_eq_true, decide_eq_true_iff, List.mem_cons,
    List.not_mem_nil, or_false]
  exact or_comm

theorem escape_cons_of_mem (h : c ∈ special) : escape (c :: cs) = '\\' :: c :: escape cs := by
  rw [escape, List.flatMap_cons, if_pos h]
  rfl

theorem escape_cons_of_notMem (h : c ∉ special) : escape (c :: cs) = c :: escape cs := by
  rw [escape, List.flatMap_cons, if_neg h]
  rfl

theorem escape_append (a b : List Char) : escape (a ++ b) = escape a ++ escape b :=
  List.flatMap_append

theorem brace_notMem_escape (h : '\x7d' ∉ cs) : '\x7d' ∉ escape cs := by
  intro hmem
  obtain ⟨c, hc, hmem⟩ := List.mem_flatMap.mp hmem
  have hne : '\x7d' ≠ c := fun heq => h (heq ▸ hc)
  split at hmem
  · exact absurd hmem (by simp [hne])
  · exact hne (List.mem_singleton.mp hmem)

theorem escape_eq_self (h : ∀ c ∈ cs, c ∉ special) : escape cs = cs := by
  induction cs with
  | nil => rfl
  | cons c cs ih =>
    rw [List.forall_mem_cons] at h
    rw [escape_cons_of_notMem h.1, ih h.2]

theorem length_le_escape (cs : List Char) : cs.length ≤ (escape cs).length := by
  induction cs with
  | nil => exact Nat.le_refl _
  | cons c cs ih =>
    by_cases h : c ∈ special
    · rw [escape_cons_of_mem h, List.length_cons, List.length_cons, List.length_cons]
      omega
    · rw [escape_cons_of_notMem h, List.length_cons, List.length_cons]
      omega

theorem length_lt_escape (hc : c ∈ cs) (h : c ∈ special) : cs.length < (escape cs).length := by
  obtain ⟨before, after, rfl⟩ := List.append_of_mem hc
  have hbefore := length_le_escape before
  have hafter := length_le_escape after
  rw [escape_append, escape_cons_of_mem h]
  simp only [List.length_append, List.length_cons]
  omega

/-! ## Reading templates -/

theorem plainChars_escaped (h : c ∈ special) :
    plainChars ('\\' :: c :: rest) = c :: plainChars rest := by
  rw [plainChars, if_pos (isEscapable_iff.mpr h)]

theorem plainChars_cons (hbackslash : c ≠ '\\') (hdollar : c ≠ '$') :
    plainChars (c :: rest) = c :: plainChars rest := by
  rw [plainChars]
  · rintro d rest' rfl
    exact fun _ => hbackslash rfl
  · rintro rest' rfl
    exact fun _ => hdollar rfl
  · rintro d rest' rfl
    exact fun _ => hdollar rfl

theorem plainChars_escape (cs rest : List Char) :
    plainChars (escape cs ++ rest) = cs ++ plainChars rest := by
  induction cs with
  | nil => rfl
  | cons c cs ih =>
    by_cases h : c ∈ special
    · rw [escape_cons_of_mem h, List.cons_append, List.cons_append, plainChars_escaped h, ih,
        List.cons_append]
    · have hbackslash : c ≠ '\\' := fun heq => h (heq ▸ List.mem_cons_self)
      have hdollar : c ≠ '$' := fun heq => h (heq ▸ List.mem_cons_of_mem _ List.mem_cons_self)
      rw [escape_cons_of_notMem h, List.cons_append, plainChars_cons hbackslash hdollar, ih,
        List.cons_append]

theorem dropWhile_digits (number : ℕ) (hc : c.isDigit = false) (rest : List Char) :
    (Nat.toDigits 10 number ++ c :: rest).dropWhile Char.isDigit = c :: rest := by
  have hdigits : ∀ d ∈ Nat.toDigits 10 number, d.isDigit = true := fun d hd =>
    Nat.isDigit_of_mem_toDigits (by decide) (by decide) hd
  rw [List.dropWhile_append_of_pos hdigits, List.dropWhile_cons_of_neg (by rw [hc]; decide)]

theorem plainChars_stop (number : ℕ) (hc : c.isDigit = false) (rest : List Char) :
    plainChars ('$' :: '\x7b' :: (Nat.toDigits 10 number ++ c :: rest)) =
      defaultText (c :: rest) ++ plainChars (afterStop (c :: rest)) := by
  rw [plainChars, dropWhile_digits number hc]

theorem forall_ne_brace (h : '\x7d' ∉ cs) : ∀ c ∈ cs, decide (c ≠ '\x7d') = true := by
  intro c hc
  exact decide_eq_true fun heq => h (heq ▸ hc)

theorem takeWhile_brace (h : '\x7d' ∉ cs) (rest : List Char) :
    (cs ++ '\x7d' :: rest).takeWhile (· ≠ '\x7d') = cs := by
  rw [List.takeWhile_append_of_pos (forall_ne_brace h), List.takeWhile_cons_of_neg (by decide),
    List.append_nil]

theorem dropWhile_brace (h : '\x7d' ∉ cs) (rest : List Char) :
    (cs ++ '\x7d' :: rest).dropWhile (· ≠ '\x7d') = '\x7d' :: rest := by
  rw [List.dropWhile_append_of_pos (forall_ne_brace h), List.dropWhile_cons_of_neg (by decide)]

theorem plainChars_filled (number : ℕ) (h : '\x7d' ∉ cs) (rest : List Char) :
    plainChars ('$' :: '\x7b' :: (Nat.toDigits 10 number ++ ':' :: (cs ++ '\x7d' :: rest))) =
      cs ++ plainChars rest := by
  rw [plainChars_stop number (by decide), defaultText, takeWhile_brace h, afterStop,
    List.dropWhile_cons_of_pos (by decide), dropWhile_brace h, List.drop_one, List.tail_cons]

namespace Segment

theorem shownDefault_of_notMem (h : '\x7d' ∉ cs) : shownDefault cs = escape cs := by
  rw [shownDefault, List.dropWhile_eq_nil_iff.mpr (forall_ne_brace h)]

theorem shownDefault_append (h : '\x7d' ∉ before) (after : List Char) :
    shownDefault (before ++ '\x7d' :: after) = escape before ++ '\\' :: (after ++ ['\x7d']) := by
  rw [shownDefault, dropWhile_brace h, takeWhile_brace h]

theorem plainChars_chars (segment : Segment) (rest : List Char) :
    plainChars (segment.chars ++ rest) = segment.shown ++ plainChars rest := by
  cases segment with
  | literal text => exact plainChars_escape _ _
  | stop number =>
    rw [chars, List.cons_append, List.cons_append, List.append_assoc, List.singleton_append,
      plainChars_stop number (by decide)]
    rfl
  | filled number text =>
    simp only [chars, shown, List.cons_append, List.append_assoc, List.nil_append]
    by_cases h : '\x7d' ∈ text.toList
    · obtain ⟨before, after, htext, hbefore⟩ := List.eq_append_cons_of_mem h
      rw [htext, shownDefault_append hbefore, escape_append, escape_cons_of_mem (by decide)]
      -- the backslash before the brace is the last character that is read as default text
      have hread : '\x7d' ∉ escape before ++ ['\\'] := by
        simp [brace_notMem_escape hbefore]
      have hfilled := plainChars_filled number hread (escape after ++ '\x7d' :: rest)
      simp only [List.append_assoc, List.cons_append, List.nil_append] at hfilled ⊢
      rw [hfilled, plainChars_escape, plainChars_cons (by decide) (by decide)]
    · rw [plainChars_filled number (brace_notMem_escape h), shownDefault_of_notMem h]

/-- Only default texts without characters of their own meaning come back; others get longer. -/
theorem plain_or_longer (segment : Segment) : segment.Plain ∧ segment.shown = segment.text.toList ∨
    ¬segment.Plain ∧ segment.text.toList.length < segment.shown.length := by
  cases segment with
  | literal text => exact .inl ⟨trivial, rfl⟩
  | stop number => exact .inl ⟨trivial, rfl⟩
  | filled number text =>
    by_cases h : ∀ c ∈ text.toList, c ∉ special
    · have hbrace : '\x7d' ∉ text.toList := fun hmem => h _ hmem (by decide)
      exact .inl ⟨h, (shownDefault_of_notMem hbrace).trans (escape_eq_self h)⟩
    · refine .inr ⟨h, ?_⟩
      rw [shown, Segment.text]
      by_cases hbrace : '\x7d' ∈ text.toList
      · obtain ⟨before, after, htext, hbefore⟩ := List.eq_append_cons_of_mem hbrace
        have hle := length_le_escape before
        rw [htext, shownDefault_append hbefore]
        simp only [List.length_append, List.length_cons, List.length_nil]
        omega
      · simp only [not_forall, not_not] at h
        obtain ⟨c, hc, hspecial⟩ := h
        rw [shownDefault_of_notMem hbrace]
        exact length_lt_escape hc hspecial

theorem length_text_le (segment : Segment) :
    segment.text.toList.length ≤ segment.shown.length := by
  rcases segment.plain_or_longer with ⟨-, heq⟩ | ⟨-, hlt⟩
  · rw [heq]
  · exact Nat.le_of_lt hlt

theorem plain_iff {segment : Segment} :
    segment.Plain ↔ segment.shown.length = segment.text.toList.length := by
  rcases segment.plain_or_longer with ⟨hplain, heq⟩ | ⟨hplain, hlt⟩
  · exact iff_of_true hplain (by rw [heq])
  · exact iff_of_false hplain (Nat.ne_of_gt hlt)

end Segment

/-! ## Whole templates -/

theorem plainChars_flatMap (segments : List Segment) :
    plainChars (segments.flatMap Segment.chars) = segments.flatMap Segment.shown := by
  induction segments with
  | nil => rw [List.flatMap_nil, List.flatMap_nil, plainChars]
  | cons segment segments ih =>
    rw [List.flatMap_cons, Segment.plainChars_chars, ih, List.flatMap_cons]

theorem length_texts_le (segments : List Segment) :
    (segments.flatMap (·.text.toList)).length ≤ (segments.flatMap Segment.shown).length := by
  induction segments with
  | nil => exact Nat.le_refl _
  | cons segment segments ih =>
    have hle := segment.length_text_le
    rw [List.flatMap_cons, List.flatMap_cons, List.length_append, List.length_append]
    omega

theorem flatMap_shown_eq_iff (segments : List Segment) :
    segments.flatMap Segment.shown = segments.flatMap (·.text.toList) ↔
      ∀ segment ∈ segments, segment.Plain := by
  induction segments with
  | nil => simp
  | cons segment segments ih =>
    rw [List.forall_mem_cons, ← ih, Segment.plain_iff, List.flatMap_cons, List.flatMap_cons]
    constructor
    · intro h
      -- neither part is shorter than its text, so neither is longer
      have hlength := congrArg List.length h
      have hfirst := segment.length_text_le
      have hothers := length_texts_le segments
      rw [List.length_append, List.length_append] at hlength
      have heq : segment.shown.length = segment.text.toList.length := by omega
      exact ⟨heq, (List.append_inj h heq).2⟩
    · rintro ⟨hfirst, hothers⟩
      rw [hothers]
      rcases segment.plain_or_longer with ⟨-, heq⟩ | ⟨-, hlt⟩
      · rw [heq]
      · omega

/-- Made plain, a template is what its segments are read as. It is the literal and default texts just
if no default text has a character that is written with a backslash. -/
theorem plainText_templateOf (segments : List Segment) :
    plainText (templateOf segments) = String.ofList (segments.flatMap Segment.shown) ∧
      (plainText (templateOf segments) = String.ofList (segments.flatMap (·.text.toList)) ↔
        ∀ segment ∈ segments, segment.Plain) := by
  have hshown : plainText (templateOf segments) = String.ofList (segments.flatMap Segment.shown) := by
    rw [plainText, templateOf, String.toList_ofList, plainChars_flatMap]
  refine ⟨hshown, ?_⟩
  rw [hshown, String.ofList_inj, flatMap_shown_eq_iff]

/-- A closing brace in a default text ends it, and its backslash stays. -/
theorem plainText_cuts_default :
    let segments : List Segment := [.filled 1 "a\x7db"]
    templateOf segments = "$\x7b1:a\\\x7db\x7d" ∧ plainText (templateOf segments) = "a\\b\x7d" ∧
      plainText (templateOf segments) ≠ String.ofList (segments.flatMap (·.text.toList)) := by
  intro segments
  have hplain : plainText (templateOf segments) = "a\\b\x7d" := by
    rw [plainText, templateOf, String.toList_ofList, plainChars_flatMap]
    decide +kernel
  refine ⟨by decide +kernel, hplain, ?_⟩
  rw [hplain]
  decide +kernel

end SchemaAssist.Completion

import Mathlib.Tactic.SplitIfs
import SchemaAssist.Json.Reader
import SchemaAssist.Json.Writer

/-! # Reading what was written

A value without numbers is read back from the text it is written as, whatever follows it there. In
particular every text can stand in a string literal.
-/
namespace SchemaAssist.Json

/-! ## String literals -/

/-- How a character stands in a literal: control characters without a letter of their own are given
by a unit. -/
def pieceOf (c : Char) : Piece :=
  if c.toNat < 0x20 ∧ c ≠ '\n' ∧ c ≠ '\r' ∧ c ≠ '\t' then .unit c.toNat else .char c

theorem hexDigit?_hexChar : ∀ d < 16, hexDigit? (hexChar d) = some d := by
  decide

theorem hexUnit?_hexChar {n : Nat} (h : n < 0x20) :
    hexUnit? '0' '0' (hexChar (n / 16)) (hexChar (n % 16)) = some n := by
  have hzero : hexDigit? '0' = some 0 := by decide
  simp only [hexUnit?, hzero, hexDigit?_hexChar (n / 16) (by omega),
    hexDigit?_hexChar (n % 16) (by omega), Option.bind_eq_bind, Option.bind_some, Option.pure_def,
    Option.some.injEq]
  omega

theorem readPieces_cons {c : Char} (hquote : c ≠ '"') (hslash : c ≠ '\\')
    (hcode : ¬c.toNat < 0x20) (rest : List Char) :
    readPieces (c :: rest) = (readPieces rest).map fun r => (.char c :: r.1, r.2) := by
  rw [readPieces.eq_def]
  split
  case h_5 heq =>
    obtain ⟨rfl, rfl⟩ := List.cons.inj heq
    cases readPieces rest <;> simp [hslash, hcode]
  all_goals simp_all

theorem readPieces_short {c e : Char} (hunit : e ≠ 'u') (he : shortEscape? e = some c)
    (rest : List Char) :
    readPieces ('\\' :: e :: rest) = (readPieces rest).map fun r => (.char c :: r.1, r.2) := by
  rw [readPieces.eq_def]
  split
  case h_4 heq =>
    simp only [List.cons.injEq, true_and] at heq
    obtain ⟨rfl, rfl⟩ := heq
    cases readPieces rest <;> simp [he]
  all_goals grind

theorem readPieces_escapeChar (c : Char) (rest : List Char) :
    readPieces (escapeChar c ++ rest) =
      (readPieces rest).map fun r => (pieceOf c :: r.1, r.2) := by
  unfold escapeChar
  split_ifs with hquote hslash hnewline hreturn htab hcode
  rotate_left 5
  · simp only [List.cons_append, List.nil_append, readPieces, hexUnit?_hexChar hcode, pieceOf]
    cases readPieces rest <;> simp [hcode, hnewline, hreturn, htab]
  · rw [List.singleton_append, readPieces_cons hquote hslash hcode]
    simp [pieceOf, hcode]
  -- the characters that have a letter of their own
  all_goals
    subst c
    exact readPieces_short (by decide) (by decide) rest

theorem readPieces_text (cs after : List Char) :
    readPieces (cs.foldr (fun c rest => escapeChar c ++ rest) ('"' :: after)) =
      some (cs.map pieceOf, after) := by
  induction cs with
  | nil => rfl
  | cons c cs ih => rw [List.foldr_cons, readPieces_escapeChar, ih, Option.map_some, List.map_cons]

theorem joinPieces_unit {n : Nat} (h : n < 0x20) (pieces : List Piece) :
    joinPieces (.unit n :: pieces) = (joinPieces pieces).map (Char.ofNat n :: ·) := by
  have hhigh : isHighUnit n = false := by simp [isHighUnit]; omega
  have hlow : isLowUnit n = false := by simp [isLowUnit]; omega
  rw [joinPieces.eq_def]
  split <;> simp_all

theorem joinPieces_map_pieceOf (cs : List Char) : joinPieces (cs.map pieceOf) = some cs := by
  induction cs with
  | nil => rfl
  | cons c cs ih =>
    rw [List.map_cons, pieceOf]
    split_ifs with h
    · rw [joinPieces_unit h.1, ih, Char.ofNat_toNat]
      rfl
    · rw [joinPieces, ih]
      rfl

theorem length_lt_writeString (text : String) (after : List Char) :
    after.length < (writeString text after).length := by
  have hchars : ∀ cs : List Char, after.length ≤
      (cs.foldr (fun c rest => escapeChar c ++ rest) ('"' :: after)).length := by
    intro cs
    induction cs with
    | nil => simp
    | cons c cs ih =>
      rw [List.foldr_cons, List.length_append]
      omega
  have := hchars text.toList
  rw [writeString, List.length_cons]
  omega

/-! ## Values -/

/-- Values without numbers in them. -/
inductive Textual : Json → Prop where
  | null : Textual .null
  | bool (b : Bool) : Textual (.bool b)
  | str (text : String) : Textual (.str text)
  | arr {items : List Json} : (∀ v ∈ items, Textual v) → Textual (.arr items)
  | obj {fields : List (String × Json)} : (∀ f ∈ fields, Textual f.2) → Textual (.obj fields)

/-- What is known of a value as written: how it begins, that it takes space, and that it is read
back where the nesting is allowed to be twice as deep as the text is long. -/
structure ReadsBack (v : Json) : Prop where
  opens : ∀ after, ∃ c rest, write v after = c :: rest ∧ isSpace c = false ∧ c ≠ ']'
  longer : ∀ after, after.length < (write v after).length
  read : ∀ fuel after, 2 * (write v after).length ≤ fuel + 1 + 2 * after.length →
    readValue (fuel + 1) (write v after) = some (v, after)

theorem skipSpace_cons {c : Char} (hc : isSpace c = false) (rest : List Char) :
    skipSpace (c :: rest) = c :: rest := by
  simp [skipSpace, hc]

theorem ReadsBack.readValue_write {v : Json} (h : ReadsBack v) (fuel : Nat) (after : List Char)
    (hfuel : 2 * (write v after).length ≤ fuel + 2 * after.length) :
    readValue fuel (write v after) = some (v, after) := by
  cases fuel with
  | zero =>
    have := h.longer after
    omega
  | succ fuel => exact h.read fuel after hfuel

theorem readsBack_null : ReadsBack .null where
  opens := fun after => ⟨'n', _, rfl, by decide, by decide⟩
  longer := fun after => by simp [write]; omega
  read := fun fuel after _ => by simp [write, readValue, skipSpace_cons, isSpace, afterWord?]

theorem readsBack_bool (b : Bool) : ReadsBack (.bool b) where
  opens := by
    intro after
    cases b with
    | true => exact ⟨'t', _, rfl, by decide, by decide⟩
    | false => exact ⟨'f', _, rfl, by decide, by decide⟩
  longer := fun after => by cases b <;> simp [write] <;> omega
  read := by
    intro fuel after _
    cases b <;> simp [write, readValue, skipSpace_cons, isSpace, afterWord?]

theorem readsBack_str (text : String) : ReadsBack (.str text) where
  opens := fun after => ⟨'"', _, rfl, by decide, by decide⟩
  longer := fun after => by
    rw [write]
    exact length_lt_writeString text after
  read := by
    intro fuel after _
    have hquote : isSpace '"' = false := by decide
    rw [write, writeString, readValue, skipSpace_cons hquote]
    simp only [readPieces_text, joinPieces_map_pieceOf, Option.bind_eq_bind, Option.bind_some,
      Option.pure_def, String.ofList_toList]

theorem length_le_writeItems {items : List Json} (h : ∀ v ∈ items, ReadsBack v)
    (after : List Char) : after.length ≤ (writeItems items after).length := by
  induction items with
  | nil => exact Nat.le_refl _
  | cons v rest ih =>
    obtain ⟨hv, hrest⟩ := List.forall_mem_cons.mp h
    cases rest with
    | nil => exact Nat.le_of_lt (hv.longer after)
    | cons w rest =>
      have htail := ih hrest
      have hhead := hv.longer (',' :: writeItems (w :: rest) after)
      rw [List.length_cons] at hhead
      rw [writeItems]
      omega

theorem readItems_writeItems {items : List Json} (h : ∀ v ∈ items, ReadsBack v)
    (hne : items ≠ []) (fuel : Nat) (after : List Char)
    (hfuel : 2 * (writeItems items (']' :: after)).length < fuel + 2 * after.length) :
    readItems fuel (writeItems items (']' :: after)) = some (items, after) := by
  have hbracket : isSpace ']' = false := by decide
  have hcomma : isSpace ',' = false := by decide
  induction items generalizing fuel with
  | nil => exact absurd rfl hne
  | cons v rest ih =>
    obtain ⟨hv, hrest⟩ := List.forall_mem_cons.mp h
    have hlength := length_le_writeItems h (']' :: after)
    rw [List.length_cons] at hlength
    obtain ⟨fuel, rfl⟩ : ∃ f, fuel = f + 1 := ⟨fuel - 1, by omega⟩
    cases rest with
    | nil =>
      rw [writeItems] at hfuel ⊢
      have hread := hv.readValue_write fuel (']' :: after)
        (by rw [List.length_cons]; omega)
      simp [readItems, hread, skipSpace_cons hbracket]
    | cons w rest =>
      have htail := length_le_writeItems hrest (']' :: after)
      have hhead := hv.longer (',' :: writeItems (w :: rest) (']' :: after))
      rw [List.length_cons] at htail hhead
      rw [writeItems] at hfuel ⊢
      have hread := hv.readValue_write fuel
        (',' :: writeItems (w :: rest) (']' :: after)) (by rw [List.length_cons]; omega)
      have hmore := ih hrest (List.cons_ne_nil w rest) fuel (by omega)
      simp [readItems, hread, skipSpace_cons hcomma, hmore]

theorem readsBack_arr {items : List Json} (h : ∀ v ∈ items, ReadsBack v) :
    ReadsBack (.arr items) where
  opens := fun after => ⟨'[', _, rfl, by decide, by decide⟩
  longer := by
    intro after
    have := length_le_writeItems h (']' :: after)
    rw [List.length_cons] at this
    rw [write, List.length_cons]
    omega
  read := by
    intro fuel after hfuel
    have hbracket : isSpace '[' = false := by decide
    rw [write, List.length_cons] at hfuel
    rw [write, readValue, skipSpace_cons hbracket]
    cases items with
    | nil => rfl
    | cons v rest =>
      have hread := readItems_writeItems h (List.cons_ne_nil v rest) fuel after (by omega)
      obtain ⟨c, more, heq, hspace, hclose⟩ : ∃ c more, writeItems (v :: rest) (']' :: after) =
          c :: more ∧ isSpace c = false ∧ c ≠ ']' := by
        cases rest with
        | nil => exact (h v List.mem_cons_self).opens _
        | cons w rest => exact (h v List.mem_cons_self).opens _
      rw [heq] at hread ⊢
      simp only [skipSpace_cons hspace]
      split
      · next hbad => exact absurd (List.cons.inj hbad).1 hclose
      · simp [hread]

theorem length_le_writeFields {fields : List (String × Json)}
    (h : ∀ f ∈ fields, ReadsBack f.2) (after : List Char) :
    after.length ≤ (writeFields fields after).length := by
  induction fields with
  | nil => exact Nat.le_refl _
  | cons f rest ih =>
    obtain ⟨name, v⟩ := f
    have hv : ReadsBack v := h (name, v) List.mem_cons_self
    have hrest : ∀ g ∈ rest, ReadsBack g.2 := fun g hg => h g (List.mem_cons_of_mem _ hg)
    have hname := fun more => length_lt_writeString name (':' :: more)
    cases rest with
    | nil =>
      have hhead := hv.longer after
      have := hname (write v after)
      rw [List.length_cons] at this
      rw [writeFields]
      omega
    | cons g rest =>
      have htail := ih hrest
      have hhead := hv.longer (',' :: writeFields (g :: rest) after)
      have := hname (write v (',' :: writeFields (g :: rest) after))
      rw [List.length_cons] at hhead this
      rw [writeFields]
      omega

theorem readFields_writeFields {fields : List (String × Json)} (h : ∀ f ∈ fields, ReadsBack f.2)
    (hne : fields ≠ []) (fuel : Nat) (after : List Char)
    (hfuel : 2 * (writeFields fields ('\x7d' :: after)).length < fuel + 2 * after.length) :
    readFields fuel (writeFields fields ('\x7d' :: after)) =
      some (fields.map fun f => (some f.1.toList, f.2), after) := by
  have hquote : isSpace '"' = false := by decide
  have hcolon : isSpace ':' = false := by decide
  have hcomma : isSpace ',' = false := by decide
  have hbrace : isSpace '\x7d' = false := by decide
  induction fields generalizing fuel with
  | nil => exact absurd rfl hne
  | cons f rest ih =>
    obtain ⟨name, v⟩ := f
    have hv : ReadsBack v := h (name, v) List.mem_cons_self
    have hrest : ∀ g ∈ rest, ReadsBack g.2 := fun g hg => h g (List.mem_cons_of_mem _ hg)
    have hlength := length_le_writeFields h ('\x7d' :: after)
    rw [List.length_cons] at hlength
    obtain ⟨fuel, rfl⟩ : ∃ f, fuel = f + 1 := ⟨fuel - 1, by omega⟩
    cases rest with
    | nil =>
      have hname := length_lt_writeString name (':' :: write v ('\x7d' :: after))
      rw [List.length_cons] at hname
      rw [writeFields] at hfuel ⊢
      have hread := hv.readValue_write fuel ('\x7d' :: after)
        (by rw [List.length_cons]; omega)
      rw [writeString, readFields, skipSpace_cons hquote]
      simp only [readPieces_text, skipSpace_cons hcolon, hread, joinPieces_map_pieceOf,
        skipSpace_cons hbrace, Option.bind_eq_bind, Option.bind_some, Option.pure_def, List.map_cons,
        List.map_nil]
    | cons g rest =>
      have htail := length_le_writeFields hrest ('\x7d' :: after)
      have hhead := hv.longer (',' :: writeFields (g :: rest) ('\x7d' :: after))
      have hname := length_lt_writeString name
        (':' :: write v (',' :: writeFields (g :: rest) ('\x7d' :: after)))
      rw [List.length_cons] at htail hhead hname
      rw [writeFields] at hfuel ⊢
      have hread := hv.readValue_write fuel
        (',' :: writeFields (g :: rest) ('\x7d' :: after)) (by rw [List.length_cons]; omega)
      have hmore := ih hrest (List.cons_ne_nil g rest) fuel (by omega)
      rw [writeString, readFields, skipSpace_cons hquote]
      simp only [readPieces_text, skipSpace_cons hcolon, hread, joinPieces_map_pieceOf,
        skipSpace_cons hcomma, hmore, Option.bind_eq_bind, Option.bind_some, Option.pure_def, List.map_cons]

theorem mapM_map_eq_some {α β : Type} (encode : α → β) (decode : β → Option α)
    (hdecode : ∀ a, decode (encode a) = some a) (xs : List α) :
    (xs.map encode).mapM decode = some xs := by
  induction xs with
  | nil => rfl
  | cons a rest ih =>
    simp only [List.map_cons, List.mapM_cons, hdecode, ih, Option.bind_eq_bind, Option.bind_some,
      Option.pure_def]

theorem ofFields_map (fields : List (String × Json)) :
    ofFields (fields.map fun f => (some f.1.toList, f.2)) = .obj fields := by
  have hnames := mapM_map_eq_some (fun f : String × Json => (some f.1.toList, f.2))
    (fun f => f.1.map fun name => (String.ofList name, f.2)) (by simp) fields
  rw [ofFields, hnames]

theorem readsBack_obj {fields : List (String × Json)} (h : ∀ f ∈ fields, ReadsBack f.2) :
    ReadsBack (.obj fields) where
  opens := fun after => ⟨'\x7b', _, rfl, by decide, by decide⟩
  longer := by
    intro after
    have := length_le_writeFields h ('\x7d' :: after)
    rw [List.length_cons] at this
    rw [write, List.length_cons]
    omega
  read := by
    intro fuel after hfuel
    have hbrace : isSpace '\x7b' = false := by decide
    rw [write, List.length_cons] at hfuel
    rw [write, readValue, skipSpace_cons hbrace]
    cases fields with
    | nil => rfl
    | cons f rest =>
      have hread := readFields_writeFields h (List.cons_ne_nil f rest) fuel after
        (by omega)
      obtain ⟨more, heq⟩ : ∃ more, writeFields (f :: rest) ('\x7d' :: after) = '"' :: more := by
        cases rest with
        | nil => exact ⟨_, rfl⟩
        | cons g rest => exact ⟨_, rfl⟩
      have hquote : isSpace '"' = false := by decide
      rw [heq] at hread ⊢
      simp only [skipSpace_cons hquote, hread, Option.bind_eq_bind, Option.bind_some, ofFields_map,
        Option.pure_def]
      rfl

theorem Textual.readsBack {v : Json} (h : Textual v) : ReadsBack v := by
  induction h with
  | null => exact readsBack_null
  | bool b => exact readsBack_bool b
  | str text => exact readsBack_str text
  | arr _ ih => exact readsBack_arr ih
  | obj _ ih => exact readsBack_obj ih

/-- A value without numbers is what is read from the text it is written as. -/
theorem read_render {v : Json} (h : Textual v) : read (render v) = some v := by
  have hread := h.readsBack.readValue_write (2 * (write v []).length + 2) [] (by omega)
  rw [read, render, String.toList_ofList]
  simp only [hread, Option.bind_eq_bind, Option.bind_some]
  rfl

end SchemaAssist.Json

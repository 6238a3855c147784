import SchemaAssist.Text.Ranges

/-! # Blank characters

The characters with the Unicode property White_Space, and the operations that go by them:
trimming both ends and splitting into words.
-/
namespace SchemaAssist.Text

/-- Ranges of the property White_Space. -/
def blankRanges : List (Nat × Nat) :=
  [(0x9, 0xD), (0x20, 0x20), (0x85, 0x85), (0xA0, 0xA0), (0x1680, 0x1680), (0x2000, 0x200A),
   (0x2028, 0x2029), (0x202F, 0x202F), (0x205F, 0x205F), (0x3000, 0x3000)]

def isBlank (c : Char) : Bool := inRanges blankRanges c.toNat

def trimChars (cs : List Char) : List Char :=
  ((cs.dropWhile isBlank).reverse.dropWhile isBlank).reverse

def trim (text : String) : String := String.ofList (trimChars text.toList)

def isBlankText (text : String) : Bool := text.toList.all isBlank

theorem trimChars_eq_nil_iff {cs : List Char} : trimChars cs = [] ↔ cs.all isBlank = true := by
  induction cs with
  | nil => simp [trimChars]
  | cons c rest ih =>
    by_cases hc : isBlank c = true
    · simpa [trimChars, hc] using ih
    · have hend : (rest.reverse ++ [c]).dropWhile isBlank ≠ [] := by
        rw [List.dropWhile_append]
        split <;> simp_all
      have hne : trimChars (c :: rest) ≠ [] := by
        rw [trimChars, List.dropWhile_cons_of_neg hc, List.reverse_cons]
        exact mt List.reverse_eq_nil_iff.mp hend
      exact iff_of_false hne (by simp [hc])

/-- Nothing is left of a blank text, and of no other. -/
theorem trim_eq_empty_iff {text : String} : trim text = "" ↔ isBlankText text = true := by
  rw [trim, isBlankText, ← trimChars_eq_nil_iff, ← String.toList_inj]
  simp

/-- The words of what is left to read, the first of them begun with `begun`. -/
def wordsFrom (begun : List Char) : List Char → List (List Char)
  | [] => if begun.isEmpty then [] else [begun]
  | c :: rest =>
    if isBlank c then
      if begun.isEmpty then wordsFrom [] rest else begun :: wordsFrom [] rest
    else wordsFrom (begun ++ [c]) rest

/-- The longest runs without a blank, in order. -/
def words (text : String) : List String := (wordsFrom [] text.toList).map String.ofList

end SchemaAssist.Text

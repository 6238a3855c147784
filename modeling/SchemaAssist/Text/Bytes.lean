/-! # Text measured in bytes

An offset into a text counts the bytes of its UTF-8 form. A boundary is an offset at which a
character starts or the text ends. Cutting is defined on boundaries only, so a slice that
exists is a run of whole characters.
-/
namespace SchemaAssist.Text

/-- Bytes of the UTF-8 form. -/
def byteLength : List Char → Nat
  | [] => 0
  | c :: rest => c.utf8Size + byteLength rest

@[simp] theorem byteLength_nil : byteLength [] = 0 := rfl

@[simp] theorem byteLength_cons (c : Char) (rest : List Char) :
    byteLength (c :: rest) = c.utf8Size + byteLength rest := rfl

@[simp] theorem byteLength_append (a b : List Char) :
    byteLength (a ++ b) = byteLength a + byteLength b := by
  induction a with
  | nil => simp
  | cons c rest ih => simp [ih, Nat.add_assoc]

def utf8 (cs : List Char) : List UInt8 := cs.flatMap String.utf8EncodeChar

/-- The characters before and from a boundary; `none` off the boundaries. -/
def splitAt? : Nat → List Char → Option (List Char × List Char)
  | 0, cs => some ([], cs)
  | _ + 1, [] => none
  | n + 1, c :: rest =>
    if c.utf8Size ≤ n + 1 then
      (splitAt? (n + 1 - c.utf8Size) rest).map fun cut => (c :: cut.1, cut.2)
    else none

/-- A cut loses nothing, and its first part has the asked length. -/
theorem append_of_splitAt? {n : Nat} {cs a b : List Char} (h : splitAt? n cs = some (a, b)) :
    a ++ b = cs ∧ byteLength a = n := by
  induction cs generalizing n a b with
  | nil =>
    cases n with
    | zero => simp [splitAt?] at h; simp [h]
    | succ n => simp [splitAt?] at h
  | cons c rest ih =>
    cases n with
    | zero => simp [splitAt?] at h; simp [h]
    | succ n =>
      simp only [splitAt?] at h
      split at h
      · obtain ⟨⟨x, y⟩, hxy, hab⟩ := Option.map_eq_some_iff.1 h
        obtain ⟨rfl, rfl⟩ := Prod.mk.injEq .. ▸ hab
        obtain ⟨h₁, h₂⟩ := ih hxy
        simp only [List.cons_append, h₁, byteLength_cons, h₂, true_and]
        omega
      · simp at h

/-- The length of a first part is a boundary. -/
theorem splitAt?_byteLength (a b : List Char) : splitAt? (byteLength a) (a ++ b) = some (a, b) := by
  induction a with
  | nil => simp [splitAt?]
  | cons c rest ih =>
    have hc : 0 < c.utf8Size := Char.utf8Size_pos c
    obtain ⟨k, hk⟩ : ∃ k, c.utf8Size + byteLength rest = k + 1 := ⟨_, (Nat.succ_pred (by omega)).symm⟩
    rw [byteLength_cons, hk, List.cons_append, splitAt?, if_pos (by omega)]
    rw [show k + 1 - c.utf8Size = byteLength rest by omega, ih]
    rfl

/-- The characters between two boundaries in order; `none` otherwise. -/
def sliceChars? (cs : List Char) (first last : Nat) : Option (List Char) :=
  if first ≤ last then
    (splitAt? first cs).bind fun cut => (splitAt? (last - first) cut.2).map (·.1)
  else none

/-- The largest boundary at or below an offset. -/
def floorBoundary : List Char → Nat → Nat
  | [], _ => 0
  | c :: rest, offset =>
    if c.utf8Size ≤ offset then c.utf8Size + floorBoundary rest (offset - c.utf8Size) else 0

theorem floorBoundary_le (cs : List Char) (offset : Nat) : floorBoundary cs offset ≤ offset := by
  induction cs generalizing offset with
  | nil => simp [floorBoundary]
  | cons c rest ih =>
    simp only [floorBoundary]
    split
    · have := ih (offset - c.utf8Size)
      omega
    · omega

def size (text : String) : Nat := byteLength text.toList

/-- The part of a text between two boundaries in order; `none` otherwise. -/
def slice? (text : String) (first last : Nat) : Option String :=
  (sliceChars? text.toList first last).map String.ofList

/-- The text with a piece put in at the nearest boundary at or below an offset. -/
def insertAt (text piece : String) (offset : Nat) : String :=
  let cs := text.toList
  match splitAt? (floorBoundary cs offset) cs with
  | some (before, after) => String.ofList (before ++ piece.toList ++ after)
  | none => text

end SchemaAssist.Text

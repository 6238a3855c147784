/-! # Snippets

Templates with tab stops: `$1` and `${1}` are empty stops, `${1:text}` one with a default text, and
`$0` is where the cursor ends up.
-/
namespace SchemaAssist.Completion

structure Snippet where
  label : String
  detail : Option String
  template : String
  deriving Repr, DecidableEq

def scriptSnippets : List Snippet :=
  [⟨"tb", some "table block", "Table $\x7b1:table_name\x7d \x7b\n\t$0\n\x7d\n"⟩]

def tableSnippets : List Snippet :=
  [⟨"idx", some "indexes block", "Indexes \x7b\n\t$0\n\x7d\n"⟩,
   ⟨"id", some "id bigint not null pk auto",
    "id $\x7b1:bigint\x7d not null pk $\x7b2:auto\x7d $0"⟩,
   ⟨"is", some "is_xx tinyint(1) not null default 0",
    "is_$1 $\x7b2:tinyint(1)\x7d not null default 0"⟩]

def dataTypeSnippets : List Snippet :=
  [⟨"utf8mb4", none, "CHARACTER SET utf8mb4 COLLATE utf8mb4_unicode_ci "⟩,
   ⟨"utf8", none, "CHARACTER SET utf8 COLLATE utf8_unicode_ci "⟩,
   ⟨"varchar", none, "varchar($\x7b1:255\x7d) $0"⟩,
   ⟨"int", none, "int($\x7b1:10\x7d) $0"⟩,
   ⟨"decimal", none, "decimal($\x7b1:10\x7d, $\x7b2:2\x7d) $0"⟩,
   ⟨"string", some "varchar(255)", "varchar($\x7b1:255\x7d) $0"⟩]

/-- Characters that a backslash takes the meaning from. -/
def isEscapable (c : Char) : Bool := c = '$' || c = '\x7d' || c = '\\'

/-- The default text after the number of a tab stop. -/
def defaultText : List Char → List Char
  | ':' :: rest => rest.takeWhile (· ≠ '\x7d')
  | _ => []

/-- What follows the closing brace of a tab stop. -/
def afterStop (cs : List Char) : List Char := (cs.dropWhile (· ≠ '\x7d')).drop 1

theorem length_afterStop_le (cs : List Char) : (afterStop cs).length ≤ cs.length := by
  have : (cs.dropWhile (· ≠ '\x7d')).length ≤ cs.length := (List.dropWhile_sublist _).length_le
  simp only [afterStop, List.length_drop]
  omega

theorem length_dropWhile_le (p : Char → Bool) (cs : List Char) :
    (cs.dropWhile p).length ≤ cs.length := (List.dropWhile_sublist p).length_le

/-- A template as plain text: tab stops become their default text or nothing, escapes what they
stand for. -/
def plainChars : List Char → List Char
  | [] => []
  | '\\' :: c :: rest =>
    if isEscapable c then c :: plainChars rest else '\\' :: plainChars (c :: rest)
  | '$' :: '\x7b' :: rest =>
    let body := rest.dropWhile Char.isDigit
    defaultText body ++ plainChars (afterStop body)
  | '$' :: c :: rest =>
    if c.isDigit then plainChars (rest.dropWhile Char.isDigit) else '$' :: plainChars (c :: rest)
  | c :: rest => c :: plainChars rest
termination_by cs => cs.length
decreasing_by
  all_goals
    have h₁ := length_dropWhile_le Char.isDigit rest
    have h₂ := length_afterStop_le (rest.dropWhile Char.isDigit)
    simp only [List.length_cons]
    omega

def plainText (template : String) : String := String.ofList (plainChars template.toList)

end SchemaAssist.Completion

import Mathlib.Data.List.Forall2
import SchemaAssist.Dialect.Builtin
import SchemaAssist.Proofs.Schema.Rendered
import SchemaAssist.Proofs.Token.Words

/-! # Tokens of written tables

Where all names in tables are words, the tokens of the written tables and the leaves of their tree
are the same spans, but for blanks. This holds in every dialect that gives no role of its own to a
character that stands in words or between them.
-/
namespace SchemaAssist.Schema
open Syntax Layout Text Token

/-- A node without children, with its span. -/
structure Leaf where
  kind : Kind
  start : ℕ
  stop : ℕ
  deriving Repr, DecidableEq

/-- The leaf that a node is, if it has no children and spans some text. -/
def leaf? (t : Tree) (i : ℕ) : Option Leaf :=
  if (t.children i).isEmpty && decide (t.start i < t.stop i) then
    some ⟨t.kind i, t.start i, t.stop i⟩
  else none

/-- The leaves of a tree in the order of its nodes. -/
def leavesOf (t : Tree) : List Leaf := t.ids.filterMap (leaf? t)

/-- Whether a token of a kind may stand for a leaf of a kind. -/
def standsFor : Kind → TokenKind → Bool
  | .table, k | .indexes, k | .identifier, k | .type, k | .keyword, k => k.isWord
  | .parenOpen, k => k = .parenOpen
  | .parenClose, k => k = .parenClose
  | .braceOpen, k => k = .braceOpen
  | .braceClose, k => k = .braceClose
  | .punctuation, k => k = .punctuation
  | _, _ => false

/-- The token spans the leaf and is of a kind for it. -/
structure Matches (tok : Token) (x : Leaf) : Prop where
  start : tok.start = x.start
  stop : tok.stop = x.stop
  kind : standsFor x.kind tok.kind = true

/-- A letter or an underscore, and any letters, digits and underscores behind it. -/
def isName (text : String) : Bool :=
  match text.toList with
  | [] => false
  | c :: rest => (c = '_' || c.isAlpha) && rest.all isWordChar

/-- Whether an index names its columns by words or leaves them out, and has words for a type. -/
def Index.named (ix : Index) : Bool :=
  (ix.columns.all fun name => name.isEmpty || isName name) &&
    ix.type.all fun type => (words type).all isName

/-- Whether all that a table names is named by words. -/
def Table.named (t : Table) : Bool :=
  isName t.name && (t.columns.all fun c => isName c.1 && isName c.2) && t.indexes.all Index.named

/-! ## Leaves of layouts -/

namespace Layout

/-- The leaf that a node is, read from all its children. -/
def leafOf? (n : Info) : Option Leaf :=
  if n.children.isEmpty && decide (n.start < n.stop) then some ⟨n.kind, n.start, n.stop⟩ else none

/-- A leaf of so many bytes at an offset, if there are any. -/
def leafAt (kind : Kind) (pos n : ℕ) : List Leaf := if 0 < n then [⟨kind, pos, pos + n⟩] else []

mutual

/-- The leaves of a layout whose text starts at an offset. -/
def leaves (pos : ℕ) : Layout → List Leaf
  | .gap _ => []
  | .leaf kind text => leafAt kind pos (size text)
  | .node kind parts =>
    if countAll parts = 0 then leafAt kind pos (size (textAll parts)) else leavesAll pos parts

def leavesAll (pos : ℕ) : List Layout → List Leaf
  | [] => []
  | p :: rest => leaves pos p ++ leavesAll (pos + size (text p)) rest

end

theorem leavesAll_append (pos : ℕ) (a b : List Layout) :
    leavesAll pos (a ++ b) = leavesAll pos a ++ leavesAll (pos + size (textAll a)) b := by
  induction a generalizing pos with
  | nil => simp [leavesAll, textAll, size]
  | cons p rest ih => simp [leavesAll, textAll, size_append, ih, Nat.add_assoc]

theorem leaves_node {pos : ℕ} {kind : Kind} {parts : List Layout}
    (h : parts.head?.all (·.kind?.isSome) = true) :
    leaves pos (.node kind parts) = leavesAll pos parts := by
  cases parts with
  | nil => rfl
  | cons p rest =>
    obtain ⟨k, hk⟩ := Option.isSome_iff_exists.mp h
    rw [leaves, countAll, count_eq hk, if_neg (by omega)]

theorem roots_eq_nil_iff {id : ℕ} {ls : List Layout} : roots id ls = [] ↔ countAll ls = 0 := by
  induction ls generalizing id with
  | nil => simp [roots, countAll]
  | cons p rest ih => cases p <;> simp [roots, countAll, count, kind?, ih]

theorem leafOf?_eq {kind : Kind} {pos n : ℕ} {parent : Option ℕ} :
    (leafOf? ⟨kind, pos, pos + n, parent, []⟩).toList = leafAt kind pos n := by
  by_cases hn : 0 < n <;> simp [leafOf?, leafAt, hn]

mutual

theorem Placed.leaves_eq {f : ℕ → Option Info} : ∀ {l : Layout} {parent : Option ℕ} {pos id : ℕ},
    Placed f parent pos id l →
      ((List.range' id l.count).flatMap fun i => ((f i).bind leafOf?).toList) = l.leaves pos
  | .gap _, _, _, _, _ => rfl
  | .leaf kind text, parent, pos, id, h => by
    rw [Placed] at h
    simp [count, leaves, h, leafOf?_eq]
  | .node kind parts, parent, pos, id, h => by
    rw [Placed] at h
    rw [count, List.range'_succ, List.flatMap_cons, h.1, leaves]
    split_ifs with hcount
    -- a node with no node among its parts is a leaf itself
    · rw [hcount, roots_eq_nil_iff.mpr hcount, Option.bind_some, leafOf?_eq]
      exact List.append_nil _
    · have hroots : roots (id + 1) parts ≠ [] := mt roots_eq_nil_iff.mp hcount
      rw [PlacedAll.leaves_eq h.2]
      simp [leafOf?, hroots]

theorem PlacedAll.leaves_eq {f : ℕ → Option Info} : ∀ {ls : List Layout} {parent : Option ℕ}
    {pos id : ℕ}, PlacedAll f parent pos id ls →
      ((List.range' id (countAll ls)).flatMap fun i => ((f i).bind leafOf?).toList) =
        leavesAll pos ls
  | [], _, _, _, _ => rfl
  | p :: rest, parent, pos, id, h => by
    rw [PlacedAll] at h
    rw [countAll, ← List.range'_append_1, List.flatMap_append, Placed.leaves_eq h.1,
      PlacedAll.leaves_eq h.2, leavesAll]

end

end Layout

theorem leavesOf_ofLayout {l : Layout} {kind : Kind} (hkind : l.kind? = some kind) :
    leavesOf (Document.ofLayout l).tree = l.leaves 0 := by
  obtain ⟨hlinked, hsize, hplaced⟩ := placed_ofLayout hkind
  rw [← hplaced.leaves_eq, ← List.filterMap_eq_flatMap_toList, ← hsize, leavesOf, Tree.ids,
    List.range_eq_range']
  refine List.filterMap_congr fun i hi => ?_
  rw [info_eq hlinked (by simpa using hi)]
  rfl

/-! ## Texts read token by token -/

/-- Whether a text is some blanks. -/
def isGap (text : String) : Bool := !text.isEmpty && text.toList.all isSpace

/-- Whether a text is one of the signs, of a kind that stands for the leaf. -/
def isSignOf (kind : Kind) (text : String) : Bool :=
  match text.toList with
  | [c] => isSign c && standsFor kind ((signKind? c).getD .unknown)
  | _ => false

/-- The tokens of a text, but for blanks, match the leaves, whatever stands before it. -/
def Reads (d : Dialect) (pos : ℕ) (cs : List Char) (xs : List Leaf) : Prop :=
  ∀ before, List.Forall₂ Matches (solid d before pos cs) xs

section
variable {d : Dialect} {pos : ℕ} {after : List Char} {xs : List Leaf} {kind : Kind} {text : String}

theorem exists_of_isName (h : isName text = true) : ∃ c w, text.toList = c :: w ∧
    (c = '_' || c.isAlpha) = true ∧ ∀ x ∈ w, isWordChar x = true := by
  unfold isName at h
  split at h
  · cases h
  · rename_i c w htext
    rw [Bool.and_eq_true] at h
    exact ⟨c, w, htext, h.1, List.all_eq_true.mp h.2⟩

theorem exists_of_isSignOf (h : isSignOf kind text = true) : ∃ c, text.toList = [c] ∧
    isSign c = true ∧ standsFor kind ((signKind? c).getD .unknown) = true := by
  unfold isSignOf at h
  split at h
  · rename_i c htext
    rw [Bool.and_eq_true] at h
    exact ⟨c, htext, h⟩
  · cases h

theorem Reads.nil (d : Dialect) (pos : ℕ) : Reads d pos [] [] := by
  intro before
  simp [solid, Lexeme.all, Lexeme.spans]

theorem Reads.gap (htext : text.toList.all isSpace = true)
    (h : Reads d (pos + size text) after xs) : Reads d pos (text.toList ++ after) xs := by
  rw [size] at h
  generalize text.toList = w at htext h ⊢
  induction w generalizing pos with
  | nil => exact h
  | cons c w ih =>
    rw [List.all_cons, Bool.and_eq_true] at htext
    intro before
    rw [byteLength_cons, utf8Size_of_isAscii (withinAscii_isSpace c htext.1), ← Nat.add_assoc] at h
    rw [List.cons_append, solid_space htext.1]
    exact ih htext.2 h _

theorem Reads.word (hd : d.sparesPlain = true) (hname : isName text = true)
    (hkind : standsFor kind = TokenKind.isWord) (hafter : endsWord after = true)
    (h : Reads d (pos + size text) after xs) :
    Reads d pos (text.toList ++ after) (leafAt kind pos (size text) ++ xs) := by
  obtain ⟨c, w, htext, hc, hw⟩ := exists_of_isName hname
  intro before
  rw [size, htext] at h ⊢
  have hword := isWord_wordKind d before (c :: w) after
  have hpos : 0 < byteLength (c :: w) := Nat.add_pos_left (Char.utf8Size_pos c) _
  rw [← hkind] at hword
  rw [List.cons_append, solid_word hd hc hw hafter, leafAt, if_pos hpos]
  exact .cons ⟨rfl, rfl, hword⟩ (h _)

theorem Reads.sign (hd : d.sparesPlain = true) (hsign : isSignOf kind text = true)
    (h : Reads d (pos + size text) after xs) :
    Reads d pos (text.toList ++ after) (leafAt kind pos (size text) ++ xs) := by
  obtain ⟨c, htext, hc, hkind⟩ := exists_of_isSignOf hsign
  intro before
  have hsize : byteLength [c] = 1 := utf8Size_of_isSign hc
  rw [size, htext, hsize] at h ⊢
  rw [List.singleton_append, solid_sign hd hc, leafAt, if_pos Nat.one_pos]
  exact .cons ⟨rfl, rfl, hkind⟩ (h _)

end

/-! ## Layouts whose tokens are their leaves -/

/-- The tokens of the parts are their leaves where no word goes on behind them. What follows is left
open, since a name may be the last part of a node and is then told from what is behind the node. -/
structure Spelled (d : Dialect) (ls : List Layout) : Prop where
  reads : ∀ {pos after xs}, endsWord after = true → Reads d (pos + size (textAll ls)) after xs →
    Reads d pos ((textAll ls).toList ++ after) (leavesAll pos ls ++ xs)

/-- Such parts that no word goes on into. -/
structure Apart (d : Dialect) (ls : List Layout) : Prop extends Spelled d ls where
  ends : ∀ {after}, endsWord after = true → endsWord ((textAll ls).toList ++ after) = true

section
variable {d : Dialect} {kind : Kind} {text : String} {parts ls ls' : List Layout}

namespace Spelled

theorem nil : Spelled d [] where
  reads := fun _ h => by simpa [textAll, leavesAll, size] using h

theorem append (h : Spelled d ls) (h' : Apart d ls') : Spelled d (ls ++ ls') where
  reads := by
    intro pos after xs hafter hreads
    rw [textAll_append, size_append, ← Nat.add_assoc] at hreads
    rw [textAll_append, leavesAll_append, String.toList_append, List.append_assoc,
      List.append_assoc]
    exact h.reads (h'.ends hafter) (h'.reads hafter hreads)

/-- The first part is read with the others behind it. -/
theorem cons {p : Layout} (h : Spelled d ls)
    (hp : ∀ {pos after xs}, endsWord after = true →
      Reads d (pos + size p.text) ((textAll ls).toList ++ after) xs →
        Reads d pos (p.text.toList ++ ((textAll ls).toList ++ after)) (p.leaves pos ++ xs)) :
    Spelled d (p :: ls) where
  reads := by
    intro pos after xs hafter hreads
    rw [textAll, size_append, ← Nat.add_assoc] at hreads
    rw [textAll, leavesAll, String.toList_append, List.append_assoc, List.append_assoc]
    exact hp hafter (h.reads hafter hreads)

theorem gap (htext : isGap text = true) (h : Spelled d ls) : Spelled d (.gap text :: ls) :=
  h.cons fun _ hreads => .gap (Bool.and_eq_true_iff.mp htext).2 hreads

theorem sign (hd : d.sparesPlain = true) (hsign : isSignOf kind text = true)
    (h : Spelled d ls) : Spelled d (.leaf kind text :: ls) :=
  h.cons fun _ hreads => .sign hd hsign hreads

theorem word (hd : d.sparesPlain = true) (hname : isName text = true)
    (hkind : standsFor kind = TokenKind.isWord) (h : Apart d ls) :
    Spelled d (.leaf kind text :: ls) :=
  h.toSpelled.cons fun hafter hreads => .word hd hname hkind (h.ends hafter) hreads

theorem node (hparts : Spelled d parts) (hfirst : parts.head?.all (·.kind?.isSome) = true)
    (h : Apart d ls) : Spelled d (.node kind parts :: ls) :=
  h.toSpelled.cons fun hafter hreads => by
    rw [leaves_node hfirst]
    exact hparts.reads (h.ends hafter) hreads

end Spelled

namespace Apart

theorem nil : Apart d [] where
  toSpelled := .nil
  ends := fun h => by simpa [textAll] using h

theorem append (h : Apart d ls) (h' : Apart d ls') : Apart d (ls ++ ls') where
  toSpelled := h.toSpelled.append h'
  ends := by
    intro after hafter
    rw [textAll_append, String.toList_append, List.append_assoc]
    exact h.ends (h'.ends hafter)

theorem flatMap {α : Type} {g : α → List Layout} {xs : List α} (h : ∀ a ∈ xs, Apart d (g a)) :
    Apart d (xs.flatMap g) := by
  induction xs with
  | nil => exact .nil
  | cons a rest ih =>
    rw [List.flatMap_cons]
    exact (h a List.mem_cons_self).append (ih fun b hb => h b (List.mem_cons_of_mem a hb))

theorem cons {p : Layout} {c : Char} {rest : List Char} (htext : p.text.toList = c :: rest)
    (hc : (isSpace c || isSign c) = true) (h : Spelled d (p :: ls)) : Apart d (p :: ls) where
  toSpelled := h
  ends := by
    intro after _
    rw [textAll, String.toList_append, htext, List.append_assoc]
    exact endsWord_cons hc

theorem gap (htext : isGap text = true) (h : Spelled d ls) : Apart d (.gap text :: ls) := by
  obtain ⟨c, rest, hcons⟩ : ∃ c rest, text.toList = c :: rest := by
    refine List.exists_cons_of_ne_nil fun hnil => ?_
    simp [isGap, String.toList_eq_nil_iff.mp hnil] at htext
  have hspace : isSpace c = true := by
    simp_all [isGap]
  exact .cons hcons (by rw [hspace, Bool.true_or]) (h.gap htext)

theorem sign (hd : d.sparesPlain = true) (hsign : isSignOf kind text = true)
    (h : Spelled d ls) : Apart d (.leaf kind text :: ls) := by
  obtain ⟨c, hcons, hc, -⟩ := exists_of_isSignOf hsign
  exact .cons hcons (by rw [hc, Bool.or_true]) (h.sign hd hsign)

end Apart

/-! ## Written tables -/

variable (hd : d.sparesPlain = true)
include hd

theorem spelled_slot {name : String} (h : (name.isEmpty || isName name) = true) :
    Spelled d (Index.slot name) := by
  unfold Index.slot
  split_ifs with hempty
  · exact .nil
  · rw [Bool.or_eq_true] at h
    exact .node (.word hd (h.resolve_left hempty) rfl .nil) rfl .nil

theorem spelled_slots {names : List String}
    (h : (names.all fun name => name.isEmpty || isName name) = true) :
    Spelled d (Index.slots names) := by
  cases names with
  | nil => exact .nil
  | cons name rest =>
    rw [List.all_cons, Bool.and_eq_true] at h
    refine (spelled_slot hd h.1).append (.flatMap fun later hlater => ?_)
    exact .sign hd rfl (.gap rfl (spelled_slot hd (List.all_eq_true.mp h.2 later hlater)))

theorem spelled_keywords {words : List String} (h : words.all isName = true) :
    Spelled d (Index.keywords words) := by
  unfold Index.keywords
  cases words with
  | nil => exact .nil
  | cons word rest =>
    rw [List.all_cons, Bool.and_eq_true] at h
    induction rest generalizing word with
    | nil => exact .word hd h.1 rfl .nil
    | cons next rest ih =>
      have hrest := h.2
      rw [List.all_cons, Bool.and_eq_true] at hrest
      exact .word hd h.1 rfl (.gap rfl (ih next hrest))

theorem spelled_index {ix : Index} (h : ix.named = true) : Spelled d ix.layout.parts := by
  rw [Index.named, Bool.and_eq_true] at h
  have hblock : Spelled d (.leaf .parenOpen "(" :: Index.slots ix.columns ++
      [.leaf .parenClose ")"]) :=
    (Spelled.sign hd rfl (spelled_slots hd h.1)).append (.sign hd rfl .nil)
  refine .node hblock rfl ?_
  cases htype : ix.type with
  | none => exact .nil
  | some type =>
    rw [htype, Option.all_some] at h
    refine .gap rfl (.node (spelled_keywords hd h.2) ?_ .nil)
    rcases words type with - | ⟨word, - | ⟨next, rest⟩⟩ <;> rfl

theorem apart_lines {indexes : List Index} (h : indexes.all Index.named = true) :
    Apart d (Index.lines indexes) := by
  refine .flatMap fun ix hix => .gap rfl ?_
  exact .node (spelled_index hd (List.all_eq_true.mp h ix hix)) rfl (.gap rfl .nil)

theorem apart_block {indexes : List Index} (h : indexes.all Index.named = true) :
    Apart d (Index.block indexes) := by
  unfold Index.block
  split_ifs
  · exact .nil
  · refine .gap rfl (.node ?_ rfl (.gap rfl .nil))
    refine .append (.append (.word hd rfl rfl ?_) (apart_lines hd h)) ?_
    · exact .gap rfl (.sign hd rfl (.gap rfl .nil))
    · exact .gap rfl (.sign hd rfl .nil)

theorem apart_columnLines {columns : List (String × String)}
    (h : (columns.all fun c => isName c.1 && isName c.2) = true) :
    Apart d (Table.columnLines columns) := by
  refine .flatMap fun c hc => .gap rfl (.node ?_ rfl (.gap rfl .nil))
  have hnames := List.all_eq_true.mp h c hc
  rw [Bool.and_eq_true] at hnames
  refine .node (.word hd hnames.1 rfl .nil) rfl (.gap rfl ?_)
  exact .node (.word hd hnames.2 rfl .nil) rfl .nil

theorem spelled_table {t : Table} (h : t.named = true) : Spelled d t.layout.parts := by
  rw [Table.named, Bool.and_eq_true, Bool.and_eq_true] at h
  obtain ⟨⟨hname, hcolumns⟩, hindexes⟩ := h
  refine .append (.append (.append ?_ (apart_columnLines hd hcolumns)) (apart_block hd hindexes))
    (.sign hd rfl .nil)
  refine .word hd rfl rfl (.gap rfl (.node (.word hd hname rfl .nil) rfl ?_))
  exact .gap rfl (.sign hd rfl (.gap rfl .nil))

theorem spelled_tables {tables : List Table} (h : ∀ t ∈ tables, t.named = true) :
    Spelled d (tables.flatMap fun t => [t.layout, .gap "\n"]) := by
  induction tables with
  | nil => exact .nil
  | cons t rest ih =>
    have hrest := ih fun u hu => h u (List.mem_cons_of_mem t hu)
    exact .node (spelled_table hd (h t List.mem_cons_self)) rfl (.gap rfl hrest)

end

/-- Where all names are words, the tokens of written tables are the leaves of their tree, in every
dialect that has no list with a character of words and signs. The builtin dialects have none. -/
theorem tokenize_matches_leaves :
    (∀ d ∈ Dialect.builtins, d.sparesPlain = true) ∧
      ∀ d : Dialect, d.sparesPlain = true → ∀ tables : List Table,
        (∀ t ∈ tables, t.named = true) →
          List.Forall₂ Matches
            ((tokenize d (render tables).source).filter fun t => t.kind ≠ .whitespace)
            (leavesOf (render tables).tree) := by
  refine ⟨List.all_eq_true.mp (by decide +kernel), fun d hd tables hnamed => ?_⟩
  have hspelled : Spelled d [layout tables] := by
    refine .node (spelled_tables hd hnamed) ?_ .nil
    cases tables <;> rfl
  have hreads : Reads d 0 (layout tables).text.toList ((layout tables).leaves 0) := by
    simpa [textAll, leavesAll] using hspelled.reads rfl (Reads.nil d _)
  have hleaves : leavesOf (render tables).tree = (layout tables).leaves 0 := leavesOf_ofLayout rfl
  rw [hleaves, tokenize_eq_spans]
  exact hreads none

/-- Names that begin like marked strings, an empty slot and a type of two words. -/
theorem tokenize_matches_leaves_prefixes :
    let d := Dialect.define { Dialect.Spec.named "d" with
      keywords := some "unique", types := some "", charSetCasts := some true,
      plsqlQuotingMechanism := some true, unquotedBitLiterals := some true }
    let tables : List Table :=
      [⟨"q", [("_n", "b"), ("e0", "x")], [⟨["_n", "", "e0"], some "unique N"⟩]⟩]
    let found := (tokenize d (render tables).source).filter fun t => t.kind ≠ .whitespace
    d.sparesPlain = true ∧ (∀ t ∈ tables, t.named = true) ∧
      List.Forall₂ Matches found (leavesOf (render tables).tree) ∧
      found.length = 19 ∧ found[15]? = some ⟨.keyword, 51, 57⟩ := by
  intro d tables found
  have hd : d.sparesPlain = true := by
    decide +kernel
  have hnamed : ∀ t ∈ tables, t.named = true := by
    decide +kernel
  exact ⟨hd, hnamed, tokenize_matches_leaves.2 d hd tables hnamed, by decide +kernel,
    by decide +kernel⟩

end SchemaAssist.Schema

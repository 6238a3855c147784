import SchemaAssist.Proofs.Completion.IndexType
import SchemaAssist.Proofs.Completion.Ranking
import SchemaAssist.Proofs.Completion.Written
import SchemaAssist.Proofs.Schema.Reading
import SchemaAssist.Proofs.Text.Search

/-! # Types of written indexes

Right behind an index that has a type, the parts of a type are suggested that its words do not
mention yet, and they replace the last word. Only this index counts, and once a word tells that it is
unique and a word tells its method, nothing is suggested.
-/
namespace SchemaAssist.Completion
open Syntax Schema Text

/-- Some word has the part of a type in it, in any letter case. -/
def Mentions (ws : List String) (part : String) : Prop :=
  ∃ w ∈ ws, part.toList <:+: (lowerAscii w).toList

instance (ws : List String) (part : String) : Decidable (Mentions ws part) :=
  inferInstanceAs (Decidable (∃ w ∈ ws, part.toList <:+: (lowerAscii w).toList))

/-- Some word has a method in it. -/
def MentionsMethod (ws : List String) : Prop := Mentions ws "btree" ∨ Mentions ws "hash"

instance (ws : List String) : Decidable (MentionsMethod ws) :=
  inferInstanceAs (Decidable (Mentions ws "btree" ∨ Mentions ws "hash"))

/-- The parts of a type that its words leave to be written. -/
def missingParts (ws : List String) : List String :=
  (if MentionsMethod ws then [] else ["btree", "hash"]) ++
    if Mentions ws "unique" then [] else ["unique"]

/-! ## The words of a type -/

section
variable {a c w : List Char} {b : Char} {ws : List String} {part : String}

theorem lowerAscii_append (x y : String) : lowerAscii (x ++ y) = lowerAscii x ++ lowerAscii y := by
  simp [lowerAscii]

theorem lowerAscii_intercalate (ws : List String) :
    lowerAscii (" ".intercalate ws) = " ".intercalate (ws.map lowerAscii) := by
  induction ws using List.twoStepInduction with
  | nil => rfl
  | singleton word => simp
  | cons_cons word next rest _ ih =>
    rw [String.intercalate_cons_cons, lowerAscii_append, lowerAscii_append, ih, List.map_cons,
      List.map_cons, List.map_cons, String.intercalate_cons_cons]
    rfl

theorem contains_eq_mentions (hspace : ' ' ∉ part.toList) (hne : part ≠ "") :
    contains (lowerAscii (" ".intercalate ws)) part = decide (Mentions ws part) := by
  rw [Bool.eq_iff_iff, decide_eq_true_iff, lowerAscii_intercalate, contains_intercalate hspace hne]
  simp only [List.mem_map, exists_exists_and_eq_and, contains_iff, Mentions]

theorem lastWord_append_cons (hb : isSpaceOrTab b = true) (a c : List Char) :
    lastWord (a ++ b :: c) = lastWord c := by
  change (a ++ b :: c).rtakeWhile (!isSpaceOrTab ·) = c.rtakeWhile (!isSpaceOrTab ·)
  induction c using List.reverseRecOn with
  | nil => simp [hb]
  | append_singleton c x ih =>
    rw [← List.cons_append, ← List.append_assoc, List.rtakeWhile_concat, List.rtakeWhile_concat, ih]

theorem isSpaceOrTab_of_isBlank {x : Char} (h : isBlank x = false) : isSpaceOrTab x = false := by
  rw [← Bool.not_eq_true, isSpaceOrTab, Bool.or_eq_true, decide_eq_true_iff, decide_eq_true_iff]
  rintro (rfl | rfl) <;> cases h

theorem lastWord_eq_self (h : ∀ x ∈ w, isBlank x = false) : lastWord w = w := by
  refine List.rtakeWhile_eq_self_iff.mpr fun x hx => ?_
  rw [isSpaceOrTab_of_isBlank (h x hx)]
  rfl

theorem lastWord_intercalate (h : ∀ word ∈ ws, ∀ x ∈ word.toList, isBlank x = false) :
    lastWord (" ".intercalate ws).toList = (ws.getLast?.getD "").toList := by
  induction ws using List.twoStepInduction with
  | nil => rfl
  | singleton word => simpa using lastWord_eq_self (h word List.mem_cons_self)
  | cons_cons word next rest _ ih =>
    rw [String.intercalate_cons_cons, String.toList_append, String.toList_append,
      List.append_assoc, List.getLast?_cons_cons, ← ih next (List.forall_mem_cons.mp h).2]
    exact lastWord_append_cons rfl _ _

theorem slice?_lastWord {text piece : String} {first last : ℕ}
    (h : slice? text first last = some piece) :
    slice? text (last - byteLength (lastWord piece.toList)) last =
      some (String.ofList (lastWord piece.toList)) := by
  obtain ⟨a, c, htext, hfirst, hlast⟩ := append_of_slice? h
  have hpiece : piece.toList.rdropWhile (!isSpaceOrTab ·) ++ lastWord piece.toList = piece.toList :=
    List.rdropWhile_append_rtakeWhile
  generalize piece.toList.rdropWhile (!isSpaceOrTab ·) = front at hpiece
  generalize lastWord piece.toList = word at hpiece ⊢
  rw [← hpiece, ← List.append_assoc] at htext
  rw [← hpiece, byteLength_append] at hlast
  have hslice := slice?_eq htext
  rw [byteLength_append, hfirst, Nat.add_assoc, hlast] at hslice
  rwa [show last - byteLength word = first + byteLength front by omega]

theorem textAll_keywords (ws : List String) :
    Layout.textAll (Index.keywords ws) = " ".intercalate ws := by
  unfold Index.keywords
  induction ws using List.twoStepInduction with
  | nil => rfl
  | singleton word => simp [Layout.textAll, Layout.text]
  | cons_cons word next rest _ ih =>
    rw [String.intercalate_cons_cons, ← ih next]
    simp [Layout.textAll, Layout.text, String.append_assoc]

end

/-! ## The cursor behind a type -/

section
variable {doc : Document} {i : ℕ} {ix : Schema.Index} {type : String}
  (hwritten : Written doc.source doc.tree) (h : doc.Shows i ix.layout)
include hwritten h

theorem exists_type (htype : ix.type = some type) : ∃ b m, doc.tree.children i = [b, m] ∧
    doc.tree.child? i .indexType = some m ∧ doc.tree.kind m = .indexType ∧
    doc.tree.stop m = doc.tree.stop i ∧
    slice? doc.source (doc.tree.start m) (doc.tree.stop i) = some (" ".intercalate (words type)) := by
  have hlinked := hwritten.nested.linked
  have hik : doc.tree.kind i = .index := (Option.some.inj (h.kind_eq hlinked)).symm
  have hparts := ofKind_type ix
  rw [htype] at hparts
  obtain ⟨m, hm, hshows⟩ := h.child? hlinked hparts
  have hmk : doc.tree.kind m = .indexType := (Option.some.inj (hshows.kind_eq hlinked)).symm
  have hmem : m ∈ doc.tree.children i := List.mem_of_find?_eq_some hm
  obtain ⟨b, hbk, -, -, ⟨hone, -⟩ | ⟨m', htwo, -, -, -, hstop⟩⟩ := hwritten.index i h.lt_size hik
  · rw [hone, List.mem_singleton] at hmem
    rw [hmem, hbk] at hmk
    cases hmk
  · rw [htwo, List.mem_pair] at hmem
    rcases hmem with rfl | rfl
    · rw [hbk] at hmk
      cases hmk
    obtain ⟨piece, hpiece⟩ := hwritten.spans m hshows.lt_size
    have htext := hshows.text_eq hlinked
    rw [Tree.text, hpiece, Option.getD_some, Layout.text, textAll_keywords] at htext
    exact ⟨b, m, htwo, hm, hmk, hstop, by rw [← hstop, hpiece, htext]⟩

theorem indexTypeContext_behind (htype : ix.type = some type) :
    indexTypeContext doc.source doc.tree i (doc.tree.stop i) =
      some (.indexType i (doc.tree.stop i - size ((words type).getLast?.getD ""))
        (decide (Mentions (words type) "unique")) (decide (MentionsMethod (words type)))) := by
  obtain ⟨b, m, hchildren, hm, -, hstop, hslice⟩ := exists_type hwritten h htype
  have htext : doc.tree.text doc.source m = " ".intercalate (words type) := by
    rw [Tree.text, hstop, hslice, Option.getD_some]
  have hblank : ∀ word ∈ words type, ∀ x ∈ word.toList, isBlank x = false :=
    fun _ hword => isBlank_of_mem_words hword
  have hword := lastWord_intercalate hblank
  have hlast : (doc.tree.node i).lastChild = some m := by
    rw [lastChild_eq hwritten h.lt_size, hchildren]
    rfl
  unfold indexTypeContext
  simp only [hlast, hstop, hslice, hm, htext, hword, Nat.lt_irrefl, if_false]
  rw [contains_eq_mentions (by decide) (by decide), contains_eq_mentions (by decide) (by decide),
    contains_eq_mentions (by decide) (by decide), ← Bool.decide_or]
  rfl

theorem stop_le_size : doc.tree.stop i ≤ size doc.source := by
  obtain ⟨piece, hpiece⟩ := hwritten.spans i h.lt_size
  obtain ⟨a, c, htext, hfirst, hlast⟩ := append_of_slice? hpiece
  rw [size, htext, byteLength_append, byteLength_append]
  omega

theorem detect_behind (htype : ix.type = some type) :
    detect doc.source doc.tree (doc.tree.stop i) =
      some (.indexType i (doc.tree.stop i - size ((words type).getLast?.getD ""))
        (decide (Mentions (words type) "unique")) (decide (MentionsMethod (words type)))) := by
  obtain ⟨b, m, hchildren, -, hmk, -⟩ := exists_type hwritten h htype
  have hlinked := hwritten.nested.linked
  have hik : doc.tree.kind i = .index := (Option.some.inj (h.kind_eq hlinked)).symm
  have hle := stop_le_size hwritten h
  have hat : AtType doc.tree (doc.tree.stop i) i :=
    ⟨h.lt_size, hik, ⟨m, by simp [hchildren], hmk⟩, rfl⟩
  obtain ⟨start, hasUnique, hasMethod, hdetect⟩ := detect_indexType hwritten hle hat
  obtain ⟨-, hcontext⟩ := indexTypeContext_of_detect hlinked hdetect
  rw [Nat.min_eq_left hle, indexTypeContext_behind hwritten h htype] at hcontext
  rw [hdetect, hcontext]

end

/-! ## Parts of a type -/

/-- What is suggested at an offset right behind a type with the given words. -/
structure SuggestsParts (source : String) (offset : ℕ) (upperCase : Bool) (ws : List String)
    (answer : Option Result) : Prop where
  none_iff : answer = none ↔ Mentions ws "unique" ∧ MentionsMethod ws
  labels : ∀ r, answer = some r →
    r.labels = (missingParts ws).map fun part => if upperCase then upperAscii part else part
  keywords : ∀ r, answer = some r → ∀ it ∈ r.items, it.kind = .keyword
  /-- The last word is replaced; without words, nothing is. -/
  replaces : ∀ r, answer = some r → r.replaceFrom = offset - size (ws.getLast?.getD "") ∧
    slice? source r.replaceFrom offset = some (ws.getLast?.getD "")

/-- The offer of the parts that are not written. -/
def partsOffer (replaceFrom : ℕ) (hasUnique hasMethod : Bool) : Offer :=
  ⟨replaceFrom, [], [indexTypeSet.exclude (writtenWords hasUnique hasMethod)], []⟩

theorem labels_partsOffer (replaceFrom : ℕ) (hasUnique hasMethod upperCase : Bool) :
    ((partsOffer replaceFrom hasUnique hasMethod).result upperCase).labels =
      ((if hasMethod then [] else ["btree", "hash"]) ++ if hasUnique then [] else ["unique"]).map
        fun part => if upperCase then upperAscii part else part := by
  rw [Result.labels, items_result]
  change (Result.distinct ((partsOffer 0 hasUnique hasMethod).items upperCase)).map (·.label) = _
  revert hasUnique hasMethod upperCase
  decide +kernel

theorem kind_of_mem_partsOffer {replaceFrom : ℕ} {hasUnique hasMethod upperCase : Bool} {it : Item}
    (h : it ∈ ((partsOffer replaceFrom hasUnique hasMethod).result upperCase).items) :
    it.kind = .keyword := by
  rw [items_result] at h
  have hmem := Result.mem_of_mem_distinct h
  simp only [Offer.items, partsOffer, snippetItems, List.zipIdx_nil, List.map_nil, List.nil_append,
    List.flatMap_singleton, List.append_nil] at hmem
  rw [(of_mem_wordItems hmem).1]
  rfl

theorem resolve_indexType {d : Dialect} {upperCase : Bool} {text : String} {t : Tree}
    {offset index replaceFrom : ℕ} {hasUnique hasMethod : Bool}
    (h : detect text t offset = some (.indexType index replaceFrom hasUnique hasMethod)) :
    resolve d upperCase text t offset = if hasUnique && hasMethod then none
      else some ((partsOffer replaceFrom hasUnique hasMethod).result upperCase) := by
  rw [resolve_eq, h, Option.bind_some, offer]
  split <;> rfl

theorem suggestsParts {doc : Document} {i : ℕ} {ix : Schema.Index} {type : String} (d : Dialect)
    (upperCase : Bool) (hwritten : Written doc.source doc.tree) (h : doc.Shows i ix.layout)
    (htype : ix.type = some type) :
    SuggestsParts doc.source (doc.tree.stop i) upperCase (words type)
      (resolve d upperCase doc.source doc.tree (doc.tree.stop i)) := by
  obtain ⟨b, m, -, -, -, -, hslice⟩ := exists_type hwritten h htype
  have hblank : ∀ word ∈ words type, ∀ x ∈ word.toList, isBlank x = false :=
    fun _ hword => isBlank_of_mem_words hword
  have hreplaced := slice?_lastWord hslice
  rw [lastWord_intercalate hblank, String.ofList_toList, ← size] at hreplaced
  rw [resolve_indexType (detect_behind hwritten h htype)]
  by_cases hdone : Mentions (words type) "unique" ∧ MentionsMethod (words type)
  · rw [if_pos (by simpa using hdone)]
    refine ⟨iff_of_true rfl hdone, ?_, ?_, ?_⟩
    all_goals
      intro r hr
      cases hr
  · rw [if_neg (by simpa using hdone)]
    refine ⟨iff_of_false (Option.some_ne_none _) hdone, ?_, ?_, ?_⟩
    · intro r hr
      rw [← Option.some.inj hr, labels_partsOffer, missingParts]
      simp only [decide_eq_true_eq]
    · intro r hr it hit
      rw [← Option.some.inj hr] at hit
      exact kind_of_mem_partsOffer hit
    · intro r hr
      rw [← Option.some.inj hr, replaceFrom_result]
      exact ⟨rfl, hreplaced⟩

/-- Right behind an index with a type, in any dialect, the parts of a type are suggested that no word
of the type has in it, and nothing if one word tells that the index is unique and one tells its
method. The other indexes and tables do not matter. -/
theorem type_suggestions (tables : List Schema.Table) (d : Dialect) (upperCase : Bool) :
    let doc := render tables
    List.Forall₂ (fun i ix => doc.index? i = some ix.summary ∧ ∀ type, ix.type = some type →
        SuggestsParts doc.source (doc.tree.stop i) upperCase (words type)
          (resolve d upperCase doc.source doc.tree (doc.tree.stop i)))
      doc.indexNodes (tables.flatMap (·.indexes)) :=
  (indexes_of_render tables).imp fun _ _ h =>
    ⟨index?_eq (linked_render tables) h, fun _ => suggestsParts d upperCase (written_render tables) h⟩

/-- A type with a unique mark, and one that is complete. -/
theorem type_suggestions_complete :
    let doc := render [⟨"t", [], [⟨["a"], some "Unique"⟩, ⟨[], some " hash\tuniquely"⟩]⟩]
    let d := Dialect.define (.named "d")
    doc.indexNodes = [9, 17] ∧
      (∃ r, resolve d true doc.source doc.tree (doc.tree.stop 9) = some r ∧
        r.labels = ["BTREE", "HASH"] ∧
        slice? doc.source r.replaceFrom (doc.tree.stop 9) = some "Unique") ∧
      resolve d true doc.source doc.tree (doc.tree.stop 17) = none := by
  intro doc d
  have hnodes : doc.indexNodes = [9, 17] := by
    decide +kernel
  have h : List.Forall₂ _ doc.indexNodes _ := type_suggestions _ d true
  rw [hnodes] at h
  obtain ⟨⟨-, hunique⟩, h⟩ := List.forall₂_cons.mp h
  obtain ⟨⟨-, hcomplete⟩, -⟩ := List.forall₂_cons.mp h
  have hunique := hunique "Unique" rfl
  have hcomplete := hcomplete " hash\tuniquely" rfl
  refine ⟨hnodes, ?_, hcomplete.none_iff.mpr (by decide +kernel)⟩
  cases hr : resolve d true doc.source doc.tree (doc.tree.stop 9) with
  | none => exact absurd (hunique.none_iff.mp hr) (by decide +kernel)
  | some r =>
    exact ⟨r, rfl, (hunique.labels r hr).trans (by decide +kernel), (hunique.replaces r hr).2⟩

end SchemaAssist.Completion

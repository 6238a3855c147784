import SchemaAssist.Schema.Layout
import SchemaAssist.Proofs.Syntax.Outlines
import SchemaAssist.Proofs.Text.Utf8

/-! # Layouts placed in trees

A layout is placed in a tree when its nodes stand there one after the other, parents first, each
with its kind, the span of its text, its parent and its children. What holds of every part of the
layout, with the text that follows it, is then known of every node.
-/
namespace SchemaAssist.Schema.Layout
open Syntax Text

theorem size_append (a b : String) : size (a ++ b) = size a + size b := by
  simp [size]

def kind? : Layout → Option Kind
  | .gap _ => none
  | .leaf kind _ => some kind
  | .node kind _ => some kind

def parts : Layout → List Layout
  | .node _ parts => parts
  | _ => []

mutual

def count : Layout → ℕ
  | .gap _ => 0
  | .leaf _ _ => 1
  | .node _ parts => countAll parts + 1

def countAll : List Layout → ℕ
  | [] => 0
  | p :: rest => count p + countAll rest

end

/-- The numbers of the outermost nodes, the first node being `id`. -/
def roots (id : ℕ) : List Layout → List ℕ
  | [] => []
  | p :: rest => (if p.kind?.isSome then [id] else []) ++ roots (id + p.count) rest

mutual

/-- The nodes from `id` on are those of the layout with its text at `pos`. -/
def Placed (f : ℕ → Option Info) (parent : Option ℕ) (pos id : ℕ) : Layout → Prop
  | .gap _ => True
  | .leaf kind text => f id = some ⟨kind, pos, pos + size text, parent, []⟩
  | .node kind parts =>
    f id = some ⟨kind, pos, pos + size (textAll parts), parent, roots (id + 1) parts⟩ ∧
      PlacedAll f (some id) pos (id + 1) parts

def PlacedAll (f : ℕ → Option Info) (parent : Option ℕ) (pos id : ℕ) : List Layout → Prop
  | [] => True
  | p :: rest =>
    Placed f parent pos id p ∧ PlacedAll f parent (pos + size (text p)) (id + count p) rest

end

mutual

/-- A property of all parts, each with the text that follows it. -/
def Everywhere (P : Layout → List Char → Prop) (after : List Char) : Layout → Prop
  | .gap _ => True
  | .leaf kind text => P (.leaf kind text) after
  | .node kind parts => P (.node kind parts) after ∧ EverywhereAll P after parts

def EverywhereAll (P : Layout → List Char → Prop) (after : List Char) : List Layout → Prop
  | [] => True
  | p :: rest => Everywhere P ((textAll rest).toList ++ after) p ∧ EverywhereAll P after rest

end

section
variable {f : ℕ → Option Info} {parent : Option ℕ} {pos id : ℕ} {l p : Layout}
  {ls rest : List Layout} {kind : Kind} {P : Layout → List Char → Prop} {before after : List Char}

theorem textAll_append (a b : List Layout) : textAll (a ++ b) = textAll a ++ textAll b := by
  induction a with
  | nil => simp [textAll]
  | cons p rest ih => simp [textAll, ih, String.append_assoc]

theorem count_eq (h : l.kind? = some kind) : l.count = countAll l.parts + 1 := by
  cases l with
  | gap _ => cases h
  | leaf _ _ => rfl
  | node _ _ => rfl

theorem size_parts_le (l : Layout) : size (textAll l.parts) ≤ size l.text := by
  cases l with
  | node _ _ => exact le_rfl
  | _ => exact Nat.zero_le _

theorem placed_iff (h : l.kind? = some kind) : Placed f parent pos id l ↔
    f id = some ⟨kind, pos, pos + size l.text, parent, roots (id + 1) l.parts⟩ ∧
      PlacedAll f (some id) pos (id + 1) l.parts := by
  cases l with
  | gap _ => cases h
  | leaf _ _ =>
    obtain rfl := Option.some.inj h
    simp [Placed, PlacedAll, parts, roots, Layout.text]
  | node _ _ =>
    obtain rfl := Option.some.inj h
    simp [Placed, parts, Layout.text]

theorem everywhereAll_append (a b : List Layout) : EverywhereAll P after (a ++ b) ↔
    EverywhereAll P ((textAll b).toList ++ after) a ∧ EverywhereAll P after b := by
  induction a with
  | nil => simp [EverywhereAll]
  | cons p rest ih => simp [EverywhereAll, ih, textAll_append, and_assoc]

/-! ## Nodes and parts -/

/-- The node is placed with a part of the source, of which the property holds. -/
def Found (f : ℕ → Option Info) (P : Layout → List Char → Prop) (source : List Char) (x : ℕ) :
    Prop :=
  ∃ before l after parent kind, source = before ++ l.text.toList ++ after ∧ l.kind? = some kind ∧
    P l after ∧ Placed f parent (byteLength before) x l ∧ (x = 0 ∨ parent.isSome)

mutual

theorem Placed.found : ∀ {l : Layout} {parent : Option ℕ} {before after : List Char} {id x : ℕ},
    Placed f parent (byteLength before) id l → Everywhere P after l → (id = 0 ∨ parent.isSome) →
      id ≤ x → x < id + l.count → Found f P (before ++ l.text.toList ++ after) x
  | .gap _, _, _, _, id, x, _, _, _, hx, hlt => by
    rw [count] at hlt
    omega
  | .leaf kind text, parent, before, after, id, x, h, hP, hparent, hx, hlt => by
    rw [count] at hlt
    obtain rfl : x = id := by omega
    exact ⟨before, .leaf kind text, after, parent, kind, rfl, rfl, hP, h, hparent⟩
  | .node kind parts, parent, before, after, id, x, h, hP, hparent, hx, hlt => by
    rw [count] at hlt
    rw [Everywhere] at hP
    rcases hx.eq_or_lt with rfl | hx
    · exact ⟨before, .node kind parts, after, parent, kind, rfl, rfl, hP.1, h, hparent⟩
    · rw [Placed] at h
      rw [Layout.text]
      exact PlacedAll.found h.2 hP.2 rfl hx (by omega)

theorem PlacedAll.found : ∀ {ls : List Layout} {parent : Option ℕ} {before after : List Char}
    {id x : ℕ}, PlacedAll f parent (byteLength before) id ls → EverywhereAll P after ls →
      parent.isSome → id ≤ x → x < id + countAll ls →
        Found f P (before ++ (textAll ls).toList ++ after) x
  | [], _, _, _, id, x, _, _, _, hx, hlt => by
    rw [countAll] at hlt
    omega
  | p :: rest, parent, before, after, id, x, h, hP, hparent, hx, hlt => by
    rw [PlacedAll] at h
    rw [EverywhereAll] at hP
    rw [countAll] at hlt
    by_cases hp : x < id + p.count
    · have hfound := Placed.found h.1 hP.1 (.inr hparent) hx hp
      simpa [textAll, List.append_assoc] using hfound
    · have hrest : PlacedAll f parent (byteLength (before ++ p.text.toList)) (id + p.count) rest := by
        rw [byteLength_append]
        exact h.2
      have hfound := PlacedAll.found hrest hP.2 hparent (Nat.le_of_not_lt hp) (by omega)
      simpa [textAll, List.append_assoc] using hfound

end

/-! ## Children of a placed node -/

theorem PlacedAll.root (h : PlacedAll f parent pos id ls) : ∀ c ∈ roots id ls,
    ∃ p ∈ ls, ∃ nd, f c = some nd ∧ p.kind? = some nd.kind ∧ nd.parent = parent ∧
      pos ≤ nd.start ∧ nd.start ≤ nd.stop ∧ nd.stop ≤ pos + size (textAll ls) := by
  induction ls generalizing pos id with
  | nil => simp [roots]
  | cons p rest ih =>
    intro c hc
    rw [PlacedAll] at h
    rw [roots, List.mem_append] at hc
    rw [textAll, size_append]
    rcases hc with hc | hc
    · cases hkind : p.kind? with
      | none => simp [hkind] at hc
      | some kind =>
        simp only [hkind, Option.isSome_some, if_true, List.mem_singleton] at hc
        subst hc
        refine ⟨p, List.mem_cons_self, _, ((placed_iff hkind).mp h.1).1, hkind, rfl, le_rfl, ?_, ?_⟩
        · exact Nat.le_add_right _ _
        · simp only
          omega
    · obtain ⟨q, hq, nd, hnd, hkind, hparent, hfirst, hle, hlast⟩ := ih h.2 c hc
      exact ⟨q, List.mem_cons_of_mem _ hq, nd, hnd, hkind, hparent, by omega, hle, by omega⟩

theorem PlacedAll.pairwise (h : PlacedAll f parent pos id ls) : (roots id ls).Pairwise fun a b =>
    ∀ na nb, f a = some na → f b = some nb → na.stop ≤ nb.start := by
  induction ls generalizing pos id with
  | nil => exact .nil
  | cons p rest ih =>
    rw [PlacedAll] at h
    rw [roots]
    cases hkind : p.kind? with
    | none => simpa using ih h.2
    | some kind =>
      refine List.pairwise_cons.mpr ⟨fun c hc na nb ha hb => ?_, ih h.2⟩
      obtain ⟨-, -, nd, hnd, -, -, hfirst, -⟩ := h.2.root c hc
      rw [((placed_iff hkind).mp h.1).1] at ha
      obtain rfl := Option.some.inj ha
      obtain rfl := Option.some.inj (hnd.symm.trans hb)
      exact hfirst

end
end SchemaAssist.Schema.Layout

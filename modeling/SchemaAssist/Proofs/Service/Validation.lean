import Mathlib.Data.List.Find
import Mathlib.Data.List.Nodup
import SchemaAssist.Proofs.Text.Lowercase
import SchemaAssist.Service.Config

/-! # Valid configurations

A configuration is valid when its own dialects have names that differ by more than case, and the
dialect it chooses is one of these or builtin. An invalid one is turned down for the first of its
dialects whose name is at fault; its choice counts only when no name is. Whether it is valid and
which dialect it chooses do not depend on the order of its own dialects.
-/
namespace SchemaAssist.Config
open Dialect (Spec)
open Text

/-- What is wrong with the name of a dialect when some names are taken, in lower case. -/
inductive NameFault (taken : List String) (s : Spec) : ConfigError → Prop where
  | missing : trim s.name = "" → NameFault taken s (.invalidDialect .missingName)
  | repeated : trim s.name ≠ "" → lowercase s.name ∈ taken →
      NameFault taken s (.duplicateDialect s.name)

/-- The names of dialects, as they are compared with each other. -/
def namesOf (specs : List Spec) : List String := specs.map fun s => lowercase s.name

/-- Dialects whose names are there and differ by more than case. -/
structure WellNamed (specs : List Spec) : Prop where
  named : ∀ s ∈ specs, trim s.name ≠ ""
  distinct : (namesOf specs).Nodup

variable {c : Config} {specs front rest : List Spec} {s : Spec} {seen : List String}
  {e : ConfigError}

/-! ## Names -/

theorem checkNames_cons_of_fault (h : NameFault seen s e) :
    checkNames seen (s :: rest) = .error e := by
  cases h with
  | missing hblank => rw [checkNames, if_pos (trim_eq_empty_iff.mp hblank)]
  | repeated hname htaken =>
    rw [checkNames, if_neg (mt trim_eq_empty_iff.mpr hname), if_pos (List.contains_iff_mem.mpr htaken)]

theorem checkNames_cons_of_fit (hname : trim s.name ≠ "") (hfree : lowercase s.name ∉ seen) :
    checkNames seen (s :: rest) = checkNames (lowercase s.name :: seen) rest := by
  rw [checkNames, if_neg (mt trim_eq_empty_iff.mpr hname), if_neg (mt List.contains_iff_mem.mp hfree)]

theorem fault_or_fit (seen : List String) (s : Spec) :
    (∃ e, NameFault seen s e) ∨ trim s.name ≠ "" ∧ lowercase s.name ∉ seen := by
  by_cases hblank : trim s.name = ""
  · exact .inl ⟨_, .missing hblank⟩
  · by_cases htaken : lowercase s.name ∈ seen
    · exact .inl ⟨_, .repeated hblank htaken⟩
    · exact .inr ⟨hblank, htaken⟩

theorem wellNamed_nil : WellNamed [] := ⟨by simp, by simp [namesOf]⟩

theorem wellNamed_cons : WellNamed (s :: rest) ↔
    trim s.name ≠ "" ∧ lowercase s.name ∉ namesOf rest ∧ WellNamed rest := by
  constructor
  · rintro ⟨hnamed, hdistinct⟩
    obtain ⟨hnew, hdistinct⟩ := List.nodup_cons.mp hdistinct
    obtain ⟨hname, hnamed⟩ := List.forall_mem_cons.mp hnamed
    exact ⟨hname, hnew, hnamed, hdistinct⟩
  · rintro ⟨hname, hnew, hnamed, hdistinct⟩
    exact ⟨List.forall_mem_cons.mpr ⟨hname, hnamed⟩, List.nodup_cons.mpr ⟨hnew, hdistinct⟩⟩

theorem WellNamed.perm (h : WellNamed rest) (hperm : specs.Perm rest) : WellNamed specs where
  named := fun s hs => h.named s (hperm.mem_iff.mp hs)
  distinct := (hperm.map _).nodup_iff.mpr h.distinct

theorem checkNames_eq_ok_iff : checkNames seen specs = .ok () ↔
    WellNamed specs ∧ ∀ s ∈ specs, lowercase s.name ∉ seen := by
  induction specs generalizing seen with
  | nil => simp [checkNames, wellNamed_nil]
  | cons s rest ih =>
    rw [wellNamed_cons, List.forall_mem_cons]
    rcases fault_or_fit seen s with ⟨e, hfault⟩ | ⟨hname, hfree⟩
    · rw [checkNames_cons_of_fault hfault]
      cases hfault with
      | missing hblank => simp [hblank]
      | repeated _ htaken => simp [htaken]
    · rw [checkNames_cons_of_fit hname hfree, ih]
      have hnew : lowercase s.name ∉ namesOf rest ↔ ∀ r ∈ rest, lowercase r.name ≠ lowercase s.name := by
        simp [namesOf]
      simp only [List.mem_cons, not_or, hnew]
      constructor
      · rintro ⟨hrest, hnone⟩
        exact ⟨⟨hname, fun r hr => (hnone r hr).1, hrest⟩, hfree, fun r hr => (hnone r hr).2⟩
      · rintro ⟨⟨-, hne, hrest⟩, -, hnone⟩
        exact ⟨hrest, fun r hr => ⟨hne r hr, hnone r hr⟩⟩

theorem checkNames_append (h : checkNames seen front = .ok ()) :
    checkNames seen (front ++ rest) = checkNames ((namesOf front).reverse ++ seen) rest := by
  induction front generalizing seen with
  | nil => rfl
  | cons s front ih =>
    rcases fault_or_fit seen s with ⟨e, hfault⟩ | ⟨hname, hfree⟩
    · rw [checkNames_cons_of_fault hfault] at h
      cases h
    · rw [checkNames_cons_of_fit hname hfree] at h
      rw [List.cons_append, checkNames_cons_of_fit hname hfree, ih h]
      simp [namesOf]

theorem checkNames_eq_error_iff : checkNames seen specs = .error e ↔ ∃ front s rest,
    specs = front ++ s :: rest ∧ checkNames seen front = .ok () ∧
      NameFault ((namesOf front).reverse ++ seen) s e := by
  constructor
  · intro h
    induction specs generalizing seen with
    | nil => cases h
    | cons s rest ih =>
      rcases fault_or_fit seen s with ⟨e', hfault⟩ | ⟨hname, hfree⟩
      · rw [checkNames_cons_of_fault hfault] at h
        cases h
        exact ⟨[], s, rest, rfl, rfl, hfault⟩
      · rw [checkNames_cons_of_fit hname hfree] at h
        obtain ⟨front, r, back, rfl, hfront, hfault⟩ := ih h
        refine ⟨s :: front, r, back, rfl, ?_, ?_⟩
        · rwa [checkNames_cons_of_fit hname hfree]
        · simpa [namesOf] using hfault
  · rintro ⟨front, s, rest, rfl, hfront, hfault⟩
    rw [checkNames_append hfront, checkNames_cons_of_fault hfault]

theorem NameFault.congr {taken taken' : List String} (h : NameFault taken s e)
    (hmem : ∀ name ∈ taken, name ∈ taken') : NameFault taken' s e := by
  cases h with
  | missing hblank => exact .missing hblank
  | repeated hname htaken => exact .repeated hname (hmem _ htaken)

/-- Names are at fault from the first dialect on that has none or one that is taken. -/
theorem checkNames_nil_eq_error_iff : checkNames [] specs = .error e ↔ ∃ front s rest,
    specs = front ++ s :: rest ∧ WellNamed front ∧ NameFault (namesOf front) s e := by
  rw [checkNames_eq_error_iff]
  refine exists_congr fun front => exists_congr fun s => exists_congr fun rest => ?_
  have hfront : checkNames [] front = .ok () ↔ WellNamed front := by
    simp [checkNames_eq_ok_iff]
  have hfault : NameFault ((namesOf front).reverse ++ []) s e ↔ NameFault (namesOf front) s e :=
    ⟨fun h => h.congr (by simp), fun h => h.congr (by simp)⟩
  rw [hfront, hfault]

/-! ## The choice -/

theorem validate_eq (c : Config) : c.validate =
    (checkNames [] c.customDialects).bind fun _ => c.resolveDialect.map fun _ => () := by
  unfold validate
  cases checkNames [] c.customDialects with
  | error e => rfl
  | ok u => cases c.resolveDialect <;> rfl

theorem eq_unknownDialect (h : WellNamed c.customDialects) (he : c.resolveDialect = .error e) :
    e = .unknownDialect c.dialect := by
  rw [resolveDialect] at he
  cases hfind : c.customDialects.find? fun s => sameWord s.name c.dialect with
  | some s =>
    have hname := mt trim_eq_empty_iff.mpr (h.named s (List.mem_of_find?_eq_some hfind))
    rw [hfind] at he
    simp only [Dialect.defineNamed, if_neg hname] at he
    cases he
  | none =>
    rw [hfind] at he
    cases hbuiltin : Dialect.builtin? c.dialect with
    | ok d =>
      rw [hbuiltin] at he
      cases he
    | error cause =>
      rw [hbuiltin] at he
      exact (Except.error.inj he).symm

/-- At most one dialect of the configuration has the chosen name up to the case of ASCII letters. -/
theorem resolveDialect_perm (h : WellNamed c.customDialects) (hperm : specs.Perm c.customDialects) :
    { c with customDialects := specs }.resolveDialect = c.resolveDialect := by
  have hone : {s ∈ c.customDialects | sameWord s.name c.dialect}.Subsingleton := by
    rintro a ⟨ha, hadialect⟩ b ⟨hb, hbdialect⟩
    have hlower : lowercase a.name = lowercase b.name :=
      (lowercase_eq_of_sameWord hadialect).trans (lowercase_eq_of_sameWord hbdialect).symm
    exact List.inj_on_of_nodup_map h.distinct ha hb hlower
  rw [resolveDialect, resolveDialect, List.find?_eq_find?_of_perm hperm.symm hone]

theorem validate_eq_ok_iff :
    c.validate = .ok () ↔ WellNamed c.customDialects ∧ ∃ d, c.resolveDialect = .ok d := by
  have hnames : checkNames [] c.customDialects = .ok () ↔ WellNamed c.customDialects := by
    simp [checkNames_eq_ok_iff]
  rw [← hnames, validate_eq]
  cases checkNames [] c.customDialects with
  | error e => simp [Except.bind]
  | ok u => cases c.resolveDialect <;> simp [Except.bind, Except.map]

/-- Names come first, the choice is looked at when none of them is at fault. -/
theorem validate_eq_error_iff : c.validate = .error e ↔
    (∃ front s rest, c.customDialects = front ++ s :: rest ∧ WellNamed front ∧
      NameFault (namesOf front) s e) ∨
    WellNamed c.customDialects ∧ c.resolveDialect = .error e := by
  have hnames : checkNames [] c.customDialects = .ok () ↔ WellNamed c.customDialects := by
    simp [checkNames_eq_ok_iff]
  rw [← checkNames_nil_eq_error_iff, ← hnames, validate_eq]
  cases checkNames [] c.customDialects with
  | error e' => simp [Except.bind]
  | ok u => cases c.resolveDialect <;> simp [Except.bind, Except.map]

/-- A configuration is valid exactly when its dialects are well named and its choice exists. The
first fault in the order of the dialects is reported, an unknown choice only without one. In any
other order a valid configuration is valid and chooses the same dialect. -/
theorem validate_by_names :
    (∀ c : Config, c.validate = .ok () ↔
      (∀ s ∈ c.customDialects, trim s.name ≠ "") ∧
      (c.customDialects.map fun s => lowercase s.name).Nodup ∧
      ∃ d, c.resolveDialect = .ok d) ∧
    (∀ (c : Config) (e : ConfigError), c.validate = .error e ↔
      (∃ front s rest, c.customDialects = front ++ s :: rest ∧ WellNamed front ∧
        NameFault (namesOf front) s e) ∨
      WellNamed c.customDialects ∧ c.resolveDialect = .error e ∧
        e = .unknownDialect c.dialect) ∧
    ∀ (c : Config) (specs : List Spec), c.validate = .ok () → specs.Perm c.customDialects →
      { c with customDialects := specs }.validate = .ok () ∧
      { c with customDialects := specs }.resolveDialect = c.resolveDialect := by
  refine ⟨fun c => ?_, fun c e => ?_, fun c specs hvalid hperm => ?_⟩
  · rw [validate_eq_ok_iff, ← and_assoc]
    exact and_congr_left fun _ => ⟨fun h => ⟨h.named, h.distinct⟩, fun h => ⟨h.1, h.2⟩⟩
  · rw [validate_eq_error_iff]
    refine or_congr_right (and_congr_right fun hnames => ?_)
    exact ⟨fun he => ⟨he, eq_unknownDialect hnames he⟩, fun he => he.1⟩
  · obtain ⟨hnames, hchoice⟩ := validate_eq_ok_iff.mp hvalid
    have hsame := resolveDialect_perm hnames hperm
    refine ⟨validate_eq_ok_iff.mpr ⟨hnames.perm hperm, ?_⟩, hsame⟩
    rw [hsame]
    exact hchoice

/-- Two dialects named in Greek, and a choice that differs from a third name by case. The fold of a
name that ends in a capital sigma depends on what is before the sigma. -/
theorem validate_by_names_reordered :
    let c : Config := ⟨"aCME", false, true, [.named "ΛΟΓΟΣ", .named "Acme", .named "Σ"]⟩
    let specs : List Spec := [.named "Acme", .named "Σ", .named "ΛΟΓΟΣ"]
    c.validate = .ok () ∧ specs.Perm c.customDialects ∧
      { c with customDialects := specs }.validate = .ok () ∧
      { c with customDialects := specs }.resolveDialect = c.resolveDialect := by
  intro c specs
  have hvalid : c.validate = .ok () := by
    decide +kernel
  have hperm : specs.Perm c.customDialects := by
    decide
  exact ⟨hvalid, hperm, validate_by_names.2.2 c specs hvalid hperm⟩

end SchemaAssist.Config

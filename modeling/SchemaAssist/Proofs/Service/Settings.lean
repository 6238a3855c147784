import Mathlib.Data.List.Nodup
import SchemaAssist.Proofs.Json.RoundTrip
import SchemaAssist.Service.Config

/-! # Settings handed around as JSON

Every descriptor of a dialect and every configuration is read back from the fields it is written
as: absent entries are written as `null`, and no field is taken for another or left out. So what
can be wrong with them is only what their own checks find.
-/
namespace SchemaAssist
open Dialect (Spec)

/-! ## Fields -/

namespace Json

theorem optional?_ofOption {α : Type} (encode : α → Json) (decode : Json → Option α)
    (hnull : ∀ a, encode a ≠ .null) (hdecode : ∀ a, decode (encode a) = some a) (x : Option α) :
    optional? decode (ofOption encode x) = some x := by
  cases x with
  | none => rfl
  | some a =>
    have hvalue : optional? decode (encode a) = (decode (encode a)).map some := by
      cases hencode : encode a with
      | null => exact absurd hencode (hnull a)
      | _ => rfl
    rw [ofOption, hvalue, hdecode]
    rfl

theorem optionalText_ofOption (x : Option String) :
    optional? text? (ofOption str x) = some x :=
  optional?_ofOption str text? (fun _ => Json.noConfusion) (fun _ => rfl) x

theorem optionalFlag_ofOption (x : Option Bool) :
    optional? bool? (ofOption bool x) = some x :=
  optional?_ofOption bool bool? (fun _ => Json.noConfusion) (fun _ => rfl) x

theorem items?_ofList {α : Type} {encode : α → Json} {decode : Json → Option α}
    (hdecode : ∀ a, decode (encode a) = some a) (items : List α) :
    (ofList encode items).items?.bind (·.mapM decode) = some items := by
  rw [ofList, items?, Option.bind_some, mapM_map_eq_some encode decode hdecode]

theorem textual_ofOption {α : Type} {encode : α → Json} (h : ∀ a, Textual (encode a))
    (x : Option α) : Textual (ofOption encode x) := by
  cases x with
  | none => exact .null
  | some a => exact h a

end Json

theorem Record.repeats_eq_false {α : Type} {fields : List (String × α)}
    (h : (fields.map (·.1)).Nodup) (names : List String) : repeats names fields = false := by
  refine List.any_eq_false.mpr fun name _ => ?_
  have hcount : (fields.filter fun f => f.1 = name).length = (fields.map (·.1)).count name := by
    rw [List.count, List.countP_map, List.countP_eq_length_filter]
    rfl
  have hle := List.nodup_iff_count_le_one.mp h name
  simp only [hcount, decide_eq_true_eq]
  omega

/-! ## Descriptors -/

namespace Dialect.Spec

theorem ofJson?_toJson (s : Spec) : ofJson? s.toJson = some s := by
  simp [ofJson?, toJson, Record.ofLenient, ofFields, Record.fieldOr, List.lookup_cons, Json.scalars,
    Json.text?, Json.optionalText_ofOption, Json.optionalFlag_ofOption]

theorem textual_toJson (s : Spec) : Json.Textual s.toJson := by
  have htext := Json.textual_ofOption Json.Textual.str
  have hflag := Json.textual_ofOption Json.Textual.bool
  refine .obj ?_
  simp only [List.forall_mem_cons]
  exact ⟨.str s.name, htext _, htext _, htext _, hflag _, hflag _, hflag _, hflag _, hflag _,
    hflag _, hflag _, hflag _, hflag _, hflag _, htext _, htext _, htext _, List.forall_mem_nil _⟩

theorem ofJsonText_of_read {s : Spec} {source : String} (h : Json.read source = some s.toJson) :
    ofJsonText source = .ok s := by
  obtain ⟨fields, hfields, hnames⟩ : ∃ fields, s.toJson = .obj fields ∧
      fields.map (·.1) = fieldNames := ⟨_, rfl, rfl⟩
  have hnodup : (fields.map (·.1)).Nodup := hnames ▸ by decide
  have hread : ofJson? (.obj fields) = some s := hfields ▸ s.ofJson?_toJson
  simp [ofJsonText, h, hfields, Record.repeats_eq_false hnodup, hread]

end Dialect.Spec

theorem Dialect.ofJsonText_of_read {s : Spec} {source : String}
    (h : Json.read source = some s.toJson) :
    ofJsonText source =
      if Text.trim s.name = "" then .error .missingName else .ok (.define s) := by
  rw [Dialect.ofJsonText, Spec.ofJsonText_of_read h]
  simp only [Text.trim_eq_empty_iff]
  rfl

/-! ## Configurations -/

namespace Config

theorem ofJson?_toJson (c : Config) : ofJson? c.toJson = some c := by
  simp [ofJson?, toJson, Record.ofLenient, ofFields, Record.fieldOr, List.lookup_cons, Json.scalars,
    Json.text?, Json.bool?, Json.items?_ofList Spec.ofJson?_toJson]

theorem ofSettings_toJson (c : Config) : ofSettings (.obj [("dbdl", c.toJson)]) = c.checked := by
  have hsection : (Json.obj [("dbdl", c.toJson)]).field? "dbdl" = some c.toJson := rfl
  rw [ofSettings, hsection]
  simp only [ofJson?_toJson]

end Config

/-- What is written as JSON is read back: a descriptor, from its fields and from its text, and a
configuration. A dialect read so is the one described, if that has a name; settings with a
configuration in them are that configuration, if it is valid, and its fault otherwise. -/
theorem settings_round_trip :
    (∀ s : Spec, Spec.ofJson? s.toJson = some s) ∧
    (∀ s : Spec, Json.read (Json.render s.toJson) = some s.toJson) ∧
    (∀ (s : Spec) (source : String), Json.read source = some s.toJson →
      Dialect.ofJsonText source =
        if Text.trim s.name = "" then .error .missingName else .ok (.define s)) ∧
    (∀ c : Config, Config.ofJson? c.toJson = some c) ∧
    ∀ c : Config, Config.ofSettings (.obj [("dbdl", c.toJson)]) =
      match c.validate with
      | .ok _ => .ok c
      | .error e => .error e := by
  refine ⟨Spec.ofJson?_toJson, fun s => Json.read_render s.textual_toJson, fun s source h =>
    Dialect.ofJsonText_of_read h, Config.ofJson?_toJson, fun c => ?_⟩
  rw [Config.ofSettings_toJson, Config.checked]
  cases c.validate <;> rfl

/-- A descriptor whose name needs escapes, and whose special characters are none. -/
theorem settings_round_trip_escaped :
    let s : Spec := { Spec.named "a\"\\\x01é" with specialVar := some "", hashComments := some true }
    Json.read (Json.render s.toJson) = some s.toJson ∧
      Dialect.ofJsonText (Json.render s.toJson) = .ok (.define s) := by
  intro s
  have hread : Json.read (Json.render s.toJson) = some s.toJson := settings_round_trip.2.1 s
  have hname : Text.trim s.name ≠ "" := by
    decide
  exact ⟨hread, (settings_round_trip.2.2.1 s _ hread).trans (if_neg hname)⟩

end SchemaAssist

import SchemaAssist.Proofs.Service.Validation
import SchemaAssist.Service.Basic

/-! # Services that are reconfigured

However often a service is asked to take another configuration, its dialect is the one its
configuration chooses. A configuration that is refused leaves no trace, so the service answers as
one made anew with the last configuration that was accepted.
-/
namespace SchemaAssist.Service
open Protocol (Position Range)

variable {m : Type → Type} {s : Service m} {c : Config} {d : Dialect} {parser : Parser m}

/-- The service after it was asked to take some configurations, one after the other. -/
def reconfigureAll (s : Service m) (cs : List Config) : Service m :=
  cs.foldl (fun s c => (s.reconfigure c).1) s

/-- The last configuration the service accepts when asked to take some; `c` if it refuses all. -/
def lastAccepted (s : Service m) (c : Config) : List Config → Config
  | [] => c
  | next :: cs =>
    match s.reconfigure next with
    | (s, none) => s.lastAccepted next cs
    | (s, some _) => s.lastAccepted c cs

/-- Two services that no request tells apart. -/
structure SameAnswers [Monad m] (a b : Service m) : Prop where
  tokens : ∀ text, a.tokens text = b.tokens text
  suggestions : ∀ text offset, a.suggestions text offset = b.suggestions text offset
  problems : ∀ text, a.problems text = b.problems text
  completion : ∀ text p, a.completion text p = b.completion text p
  diagnostics : ∀ text, a.diagnostics text = b.diagnostics text
  codeActions : ∀ uri text r, a.codeActions uri text r = b.codeActions uri text r

theorem SameAnswers.refl [Monad m] (s : Service m) : SameAnswers s s :=
  ⟨fun _ => rfl, fun _ _ => rfl, fun _ => rfl, fun _ _ => rfl, fun _ => rfl, fun _ _ _ => rfl⟩

/-! ## One configuration -/

theorem dialectOf_eq_ok_iff :
    dialectOf c = .ok d ↔ c.validate = .ok () ∧ c.resolveDialect = .ok d := by
  unfold dialectOf
  cases c.validate with
  | error e => simp [bind, Except.bind, Except.mapError]
  | ok u => cases c.resolveDialect <;> simp [bind, Except.bind, Except.mapError]

theorem exists_dialectOf_iff : (∃ d, dialectOf c = .ok d) ↔ c.validate = .ok () := by
  constructor
  · rintro ⟨d, hd⟩
    exact (dialectOf_eq_ok_iff.mp hd).1
  · intro hvalid
    obtain ⟨-, d, hd⟩ := Config.validate_eq_ok_iff.mp hvalid
    exact ⟨d, dialectOf_eq_ok_iff.mpr ⟨hvalid, hd⟩⟩

theorem new_eq_ok_iff :
    new c parser = .ok s ↔ s.config = c ∧ s.parser = parser ∧ dialectOf c = .ok s.dialect := by
  unfold new
  cases dialectOf c with
  | error e => simp [Except.map]
  | ok d =>
    obtain ⟨c', d', parser'⟩ := s
    simp only [Except.map, Except.ok.injEq, mk.injEq]
    constructor
    · rintro ⟨rfl, rfl, rfl⟩
      exact ⟨rfl, rfl, rfl⟩
    · rintro ⟨rfl, rfl, rfl⟩
      exact ⟨rfl, rfl, rfl⟩

theorem reconfigure_cases (s : Service m) (c : Config) :
    (∃ d, dialectOf c = .ok d ∧
      s.reconfigure c = ({ s with config := c, dialect := d }, none)) ∨
    ∃ e, dialectOf c = .error e ∧ s.reconfigure c = (s, some e) := by
  unfold reconfigure
  cases dialectOf c with
  | ok d => exact .inl ⟨d, rfl, rfl⟩
  | error e => exact .inr ⟨e, rfl, rfl⟩

theorem reconfigure_eq_none_iff : (s.reconfigure c).2 = none ↔ c.validate = .ok () := by
  rw [← exists_dialectOf_iff]
  rcases s.reconfigure_cases c with ⟨d, hd, heq⟩ | ⟨e, he, heq⟩
  · simp [heq, hd]
  · simp [heq, he]

theorem eq_of_reconfigure_eq_some {e : ServiceError} (h : (s.reconfigure c).2 = some e) :
    (s.reconfigure c).1 = s := by
  rcases s.reconfigure_cases c with ⟨d, -, heq⟩ | ⟨e', -, heq⟩
  · simp [heq] at h
  · rw [heq]

/-! ## Runs -/

/-- A service made anew stays as good as new, for the configuration accepted last. -/
theorem new_lastAccepted (h : new c parser = .ok s) (cs : List Config) :
    new (s.lastAccepted c cs) parser = .ok (s.reconfigureAll cs) := by
  induction cs generalizing s c with
  | nil => exact h
  | cons next cs ih =>
    rw [reconfigureAll, List.foldl_cons, lastAccepted]
    rcases s.reconfigure_cases next with ⟨d, hd, heq⟩ | ⟨e, -, heq⟩
    · rw [heq]
      have hparser := (new_eq_ok_iff.mp h).2.1
      exact ih (new_eq_ok_iff.mpr ⟨rfl, hparser, hd⟩)
    · rw [heq]
      exact ih h

/-- After any run of requests for other configurations, a service takes exactly the valid ones and
stays as it is when asked for another, its dialect is the choice of its configuration, and it
answers as one made anew with the configuration accepted last. -/
theorem reconfigured_answers_anew [Monad m] (h : new c parser = .ok s) (cs : List Config) :
    (∀ next, ((s.reconfigureAll cs).reconfigure next).2 = none ↔ next.validate = .ok ()) ∧
    (∀ next e, ((s.reconfigureAll cs).reconfigure next).2 = some e →
      ((s.reconfigureAll cs).reconfigure next).1 = s.reconfigureAll cs) ∧
    (s.reconfigureAll cs).config.resolveDialect = .ok (s.reconfigureAll cs).dialect ∧
    (s.reconfigureAll cs).config = s.lastAccepted c cs ∧
    ∃ fresh, new (s.lastAccepted c cs) parser = .ok fresh ∧
      SameAnswers (s.reconfigureAll cs) fresh := by
  have hnew := new_lastAccepted h cs
  obtain ⟨hconfig, -, hdialect⟩ := new_eq_ok_iff.mp hnew
  refine ⟨fun next => reconfigure_eq_none_iff, fun next e => eq_of_reconfigure_eq_some, ?_, hconfig,
    s.reconfigureAll cs, hnew, SameAnswers.refl _⟩
  rw [hconfig]
  exact (dialectOf_eq_ok_iff.mp hdialect).2

/-- An accepted configuration, then one whose dialect does not exist. -/
theorem reconfigured_answers_anew_refused :
    let parser : Parser Id := fun _ _ => pure (.empty 0)
    let s : Service Id := ⟨.standard, .standard, parser⟩
    let loud : Config := ⟨"pg", true, true, []⟩
    let cs : List Config := [loud, ⟨"db2", false, true, []⟩]
    new .standard parser = .ok s ∧ (s.reconfigureAll cs).config = loud ∧
      ∃ fresh, new loud parser = .ok fresh ∧ SameAnswers (s.reconfigureAll cs) fresh := by
  intro parser s loud cs
  have hvalid : Config.standard.validate = .ok () := by
    decide +kernel
  have hnew : new .standard parser = .ok s :=
    new_eq_ok_iff.mpr ⟨rfl, rfl, dialectOf_eq_ok_iff.mpr ⟨hvalid, rfl⟩⟩
  obtain ⟨d, hd⟩ : ∃ d, dialectOf loud = .ok d := exists_dialectOf_iff.mpr (by decide +kernel)
  have hunknown : dialectOf ⟨"db2", false, true, []⟩ = .error (.config (.unknownDialect "db2")) := by
    decide +kernel
  have hlast : s.lastAccepted .standard cs = loud := by
    simp only [lastAccepted, cs, reconfigure, hd, hunknown]
  have hrun := reconfigured_answers_anew hnew cs
  rw [hlast] at hrun
  exact ⟨hnew, hrun.2.2.2⟩

end SchemaAssist.Service

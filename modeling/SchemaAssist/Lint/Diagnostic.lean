import SchemaAssist.Text.Bytes

/-! # Diagnostics and fixes -/
namespace SchemaAssist.Lint

inductive Severity where
  | error
  | hint
  deriving Repr, DecidableEq

structure Fix where
  insertAt : Nat
  text : String
  deriving Repr, DecidableEq

/-- The document with the text inserted, at the nearest boundary at or below the offset. -/
def Fix.apply (f : Fix) (document : String) : String := Text.insertAt document f.text f.insertAt

structure Diagnostic where
  start : Nat
  stop : Nat
  severity : Severity
  message : String
  fix : Option Fix
  deriving Repr, DecidableEq

namespace Diagnostic

def error (start stop : Nat) (message : String) : Diagnostic := ⟨start, stop, .error, message, none⟩

def hint (start stop : Nat) (message : String) : Diagnostic := ⟨start, stop, .hint, message, none⟩

def withFix (d : Diagnostic) (f : Fix) : Diagnostic := { d with fix := some f }

def isError (d : Diagnostic) : Bool := d.severity = .error

end Diagnostic
end SchemaAssist.Lint

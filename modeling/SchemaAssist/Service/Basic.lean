import SchemaAssist.Completion.Resolver
import SchemaAssist.Lint.Document
import SchemaAssist.Protocol.Render
import SchemaAssist.Service.Config
import SchemaAssist.Token.Scanner

/-! # Language service

A service answers an editor for one configuration. Each request reads the text anew: tokens by the
configured dialect, a tree by the parser of the host, and suggestions or diagnostics from the tree.

The parser may have effects of its own. What a service answers depends on them only through the
trees it is given.
-/
namespace SchemaAssist
open Protocol (Position)

/-- Trees from a text and its tokens. -/
abbrev Parser (m : Type → Type) := String → List Token → m Syntax.Tree

inductive ServiceError where
  | config (cause : ConfigError)
  /-- The line of the position does not exist. -/
  | invalidPosition (position : Position)
  deriving Repr, DecidableEq

namespace ServiceError

def message : ServiceError → String
  | .config cause => "Configuration error: " ++ cause.message
  | .invalidPosition p =>
    "Invalid position: " ++
      Config.showRecord "Position" [("line", toString p.line), ("character", toString p.character)]

/-- Whether a client should get an empty answer in place of the error. -/
def answersEmpty : ServiceError → Bool
  | .config _ => false
  | .invalidPosition _ => true

end ServiceError

structure Service (m : Type → Type) where
  config : Config
  dialect : Dialect
  parser : Parser m

namespace Service
variable {m : Type → Type}

def dialectOf (c : Config) : Except ServiceError Dialect :=
  (c.validate >>= fun _ => c.resolveDialect).mapError .config

def new (c : Config) (parser : Parser m) : Except ServiceError (Service m) :=
  (dialectOf c).map fun d => ⟨c, d, parser⟩

/-- The service with another configuration; an invalid one leaves the service as it is. -/
def reconfigure (s : Service m) (c : Config) : Service m × Option ServiceError :=
  match dialectOf c with
  | .ok d => ({ s with config := c, dialect := d }, none)
  | .error e => (s, some e)

def tokens (s : Service m) (text : String) : List Token := tokenize s.dialect text

def parse (s : Service m) (text : String) : m Syntax.Tree := s.parser text (s.tokens text)

section requests
variable [Monad m]

def suggestions (s : Service m) (text : String) (offset : Nat) : m (Option Completion.Result) := do
  let t ← s.parse text
  return Completion.resolve s.dialect s.config.upperCaseKeywords text t offset

/-- Diagnostics of a document; an empty one is not parsed. -/
def problems (s : Service m) (text : String) : m (List Lint.Diagnostic) := do
  if text.isEmpty then return []
  else
    let t ← s.parse text
    return lint text t

def completion (s : Service m) (text : String) (p : Position) :
    m (Except ServiceError (Option (List Protocol.CompletionItem))) := do
  match Protocol.offsetAt? text p with
  | none => return .error (.invalidPosition p)
  | some offset =>
    let r ← s.suggestions text offset
    return .ok (r.map fun r => Protocol.completionList text r offset s.config.snippetSupport)

def diagnostics (s : Service m) (text : String) : m (List Protocol.Diagnostic) := do
  return (← s.problems text).map (Protocol.diagnostic text)

/-- Quick fixes of the diagnostics that touch a range. A line past the end means the end. -/
def codeActions (s : Service m) (uri text : String) (r : Protocol.Range) :
    m (List Protocol.CodeAction) := do
  let start := (Protocol.offsetAt? text r.start).getD (Text.size text)
  let stop := (Protocol.offsetAt? text r.stop).getD (Text.size text)
  let found ← s.problems text
  return (found.filter fun d => decide (d.start ≤ stop) && decide (start ≤ d.stop)).filterMap
    (Protocol.codeAction? uri text)

end requests

def summary (s : Service m) : String :=
  "LanguageService \x7b config: " ++ s.config.summary ++ ", dialect: " ++
    Text.quote s.dialect.name ++ ", .. \x7d"

end Service
end SchemaAssist

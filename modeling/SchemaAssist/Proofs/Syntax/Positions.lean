import SchemaAssist.Proofs.Syntax.Laminar

/-! # Innermost nodes

Two nodes are looked for at a position. One is the innermost node that reaches it, found on the way
down from the root; this needs spans that nest. The other is the innermost error that touches it,
found among all nodes.
-/
namespace SchemaAssist.Syntax

variable {t : Tree} {a i pos : ℕ}

namespace Tree.Enclosing

variable (h : t.Enclosing) {x y : ℕ}
include h

end Tree.Enclosing

end SchemaAssist.Syntax

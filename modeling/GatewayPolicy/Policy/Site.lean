import GatewayPolicy.Model.Part
import GatewayPolicy.Policy.Problem
import GatewayPolicy.Policy.Reported

/-! # Where policy code stands

  Code is read in the light of its surroundings: all classes of the
  compilation, the part that the code stands in, the parameter on which
  operations are called, and the local names that hold variables of the gateway.

  - `Site` is what does not change within a section.
  - `Bindings` are the local names bound so far.
-/

namespace GatewayPolicy

/-! ## Sites -/

/-- The surroundings of a section's code. -/
structure Site where
  model : Model
  part : Part
  /-- The parameter that operations are called on. -/
  receiver : String
  deriving Inhabited

namespace Site

/-- The class that the code stands in. -/
def className (s : Site) : String := s.part.decl.name

/-- The text that a span covers. -/
def slice (s : Site) (span : Span) : String := s.part.file.slice span

/-- The diagnostic of a problem in this file. -/
def diagnostic (s : Site) (p : Problem) (span : Span) : Diagnostic :=
  p.locatedAt (s.part.file.location span)

/-- Reports a problem in this file. -/
def report (s : Site) (p : Problem) (span : Span) : Reported Unit :=
  Reported.report (s.diagnostic p span)

end Site

/-! ## Bindings -/

/-- Local names and the gateway variables they stand for, the newest first. -/
abbrev Bindings := List (String × String)

namespace Bindings

/-- Binds a local name to a variable. -/
def bind (b : Bindings) (name holder : String) : Bindings := (name, holder) :: b

/-- The variable that a local name stands for. -/
def lookup? (b : Bindings) (name : String) : Option String :=
  (b.find? (·.1 == name)).map (·.2)

end Bindings

end GatewayPolicy

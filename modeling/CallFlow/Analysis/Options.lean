import CallFlow.Flow.Propagation

/-!
# Options of an analysis

What a user may choose about an analysis.
-/

namespace CallFlow

structure AnalysisOptions where
  strategy : Strategy := .demand
  /-- Whether calls may reach built-in functions. -/
  natives : Bool := true
deriving DecidableEq, Repr, Inhabited

end CallFlow

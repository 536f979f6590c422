/-!
# Faults and errors

A computation can stop early in two ways. An *error* is reported to its caller,
who may go on. A *fault* abandons the run: no operation of this library catches
one, and what was done before it stays done. `Stop` keeps the two apart.
-/

namespace Graft

/-- Why a run is abandoned. -/
inductive Fault where
  /-- A node had to be selected where none has any weight. -/
  | noSelectableNode
  /-- An edit was aimed past the end of a node's children, or a row chosen past the last. -/
  | positionPastEnd (position length : Nat)
  /-- A number had to be drawn from an empty range. -/
  | emptyRange
  /-- A sample declares a text or a list that no allocation can hold. -/
  | oversizedLength (length : Nat)
  /-- A worker had to choose among the samples it keeps and keeps none. -/
  | noKeptSample
  /-- A node would have to be deeper than depths are counted. -/
  | depthUncountable
  /-- A repetition outlasted the limit that the caller set. -/
  | patienceExhausted
deriving DecidableEq, Repr

/-- The text a fault leaves behind, if it has one. -/
def Fault.message? : Fault → Option String
  | .noSelectableNode => some "Error selecting grammar node to mutate"
  | _ => none

/-- An early end of a computation whose reported errors have type `ε`. -/
inductive Stop (ε : Type) where
  | fault (fault : Fault)
  | error (error : ε)
deriving DecidableEq, Repr

namespace Stop

/-- Report an error in the terms of a surrounding computation. Faults pass
    through unchanged. -/
def mapError {ε δ : Type} (wrap : ε → δ) : Stop ε → Stop δ
  | .fault cause => .fault cause
  | .error reported => .error (wrap reported)

end Stop

end Graft

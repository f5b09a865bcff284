import Recordgen.Specification.Walk

/-! # Leading a visitor through a specification

A traversal goes through a specification in the order of a walk and calls the hooks of a visitor: at
every node one of them, or one before and one behind what is inside the node. A hook may change the
state of the visitor, and it may stop the traversal. Then no other hook is called, and the state
stays as the hook has left it. The hooks for the sorts of nodes fall back on two that take any node,
so a visitor gives only those that it cares about.
-/

namespace Recordgen

/-- What hooks do: they may change the state of a visitor, and they may stop the traversal. -/
abbrev VisitM (State Stop : Type) : Type → Type :=
  ExceptT Stop (StateM State)

/-- The hooks of a visitor. -/
structure Hooks (State Stop : Type) where
  enterNode (node : Node) : VisitM State Stop Unit := pure ()
  leaveNode (node : Node) : VisitM State Stop Unit := pure ()
  enterSpecification : VisitM State Stop Unit := enterNode .specification
  leaveSpecification : VisitM State Stop Unit := leaveNode .specification
  parameter (key : String) : VisitM State Stop Unit := do
    enterNode (.parameter key)
    leaveNode (.parameter key)
  function (id : ComponentId) : VisitM State Stop Unit := do
    enterNode (.function id)
    leaveNode (.function id)
  enumSet (id : ComponentId) : VisitM State Stop Unit := do
    enterNode (.enumSet id)
    leaveNode (.enumSet id)
  enterSequence (id : SequenceId) : VisitM State Stop Unit := enterNode (.sequence id)
  leaveSequence (id : SequenceId) : VisitM State Stop Unit := leaveNode (.sequence id)
  field (id : FieldId) : VisitM State Stop Unit := do
    enterNode (.field id)
    leaveNode (.field id)
  reference (id : ReferenceId) : VisitM State Stop Unit := do
    enterNode (.reference id)
    leaveNode (.reference id)
  enterSetter (id : ComponentId) : VisitM State Stop Unit := enterNode (.setter id)
  leaveSetter (id : ComponentId) : VisitM State Stop Unit := leaveNode (.setter id)
  enterComponent (id : ComponentId) : VisitM State Stop Unit := enterNode (.component id)
  leaveComponent (id : ComponentId) : VisitM State Stop Unit := leaveNode (.component id)

/-- Where a traversal starts. -/
inductive TraversalStart where
  | specification
  | sequence (sequence : RecordSequence)
  | component (id : ComponentId)
  deriving DecidableEq, Repr

namespace Specification

variable {phase : Phase} {State Stop : Type}

/-- Goes through a component and what is nested in it, down to the given depth. -/
def acceptComponentTo (spec : Specification phase) (hooks : Hooks State Stop) :
    (depth : Nat) → ComponentId → VisitM State Stop Unit
  | 0, id => do
    hooks.enterComponent id
    hooks.leaveComponent id
  | depth + 1, id => do
    hooks.enterComponent id
    (spec.component id).children.forM (spec.acceptComponentTo hooks depth)
    hooks.leaveComponent id

/-- Goes through a component and what is nested in it. No path from a component to a nested one is
longer than the number of components. -/
def acceptComponent (spec : Specification phase) (hooks : Hooks State Stop) (id : ComponentId) :
    VisitM State Stop Unit :=
  spec.acceptComponentTo hooks spec.components.size id

/-- Goes through a setter and what is nested in it. -/
def acceptSetter (spec : Specification phase) (hooks : Hooks State Stop)
    (setter : Component phase) : VisitM State Stop Unit := do
  hooks.enterSetter setter.id
  setter.children.forM (spec.acceptComponent hooks)
  hooks.leaveSetter setter.id

/-- Goes through a record sequence. -/
def acceptSequence (spec : Specification phase) (hooks : Hooks State Stop)
    (sequence : RecordSequence) : VisitM State Stop Unit := do
  hooks.enterSequence sequence.id
  (spec.orderedFields sequence).forM fun field => hooks.field field.id
  (spec.orderedReferences sequence).forM fun reference => hooks.reference reference.id
  (spec.orderedSetters sequence).forM (spec.acceptSetter hooks)
  [sequence.estimator, sequence.sequenceIterator, sequence.outputFormat].forM fun id? =>
    id?.toList.forM (spec.acceptComponent hooks)
  hooks.leaveSequence sequence.id

/-- Goes through a whole specification. -/
def accept (spec : Specification phase) (hooks : Hooks State Stop) : VisitM State Stop Unit := do
  hooks.enterSpecification
  spec.parameters.values.forM fun parameter => hooks.parameter parameter.key
  spec.functions.values.forM hooks.function
  spec.enumSets.values.forM hooks.enumSet
  spec.sequences.toList.forM (spec.acceptSequence hooks)
  hooks.leaveSpecification

/-- Goes through the part of a specification at which a traversal starts. -/
def acceptFrom (spec : Specification phase) (hooks : Hooks State Stop) :
    TraversalStart → VisitM State Stop Unit
  | .specification => spec.accept hooks
  | .sequence sequence => spec.acceptSequence hooks sequence
  | .component id => spec.acceptComponent hooks id

/-- Walks the part of a specification at which a traversal starts. -/
def walkFrom (spec : Specification phase) : TraversalStart → List WalkEvent
  | .specification => spec.walk
  | .sequence sequence => spec.walkSequence sequence
  | .component id => spec.walkComponent id

end Specification

/-- What a visitor that records events has noted down. -/
structure Recording where
  /-- The events recorded. -/
  events : List WalkEvent := []
  /-- The events refused. -/
  refused : List WalkEvent := []
  deriving DecidableEq, Repr

/-- Records an event, or refuses it and stops when as many events are recorded as the budget
allows. -/
def recordEvent (budget : Option Nat) (event : WalkEvent) : VisitM Recording Unit Unit := do
  let recording ← get
  if budget.all fun limit => recording.events.length < limit then
    set { recording with events := recording.events ++ [event] }
  else
    set { recording with refused := recording.refused ++ [event] }
    throw ()

/-- The hooks of a visitor that records all events. -/
def recordingHooks (budget : Option Nat) : Hooks Recording Unit where
  enterNode node := recordEvent budget (.enter node)
  leaveNode node := recordEvent budget (.leave node)

/-- What is noted down in a traversal, and whether the traversal came to its end. -/
def Specification.record {phase : Phase} (spec : Specification phase) (budget : Option Nat)
    (start : TraversalStart) : Except Unit Unit × Recording :=
  (spec.acceptFrom (recordingHooks budget) start).run.run {}

end Recordgen

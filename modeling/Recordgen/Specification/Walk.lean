import Recordgen.Specification.Basic

/-! # Walking a specification

A walk enters and leaves every node of a specification in a fixed order: parameters, functions and
enumerations by key, then the sequences in document order; in a sequence the fields, references and
setters by order key, then estimator, iterator and output format. Components are walked depth first.
The walk is given as the list of its events, and a visitor is a step function that is run over them
and may stop the walk.
-/

namespace Recordgen

/-- A node of a specification as a walk meets it. -/
inductive Node where
  | specification
  | parameter (key : String)
  | function (id : ComponentId)
  | enumSet (id : ComponentId)
  | sequence (id : SequenceId)
  | field (id : FieldId)
  | reference (id : ReferenceId)
  | setter (id : ComponentId)
  | component (id : ComponentId)
  deriving DecidableEq, Repr

/-- One step of a walk. -/
inductive WalkEvent where
  | enter (node : Node)
  | leave (node : Node)
  deriving DecidableEq, Repr

/-- Enters a node, walks inside, and leaves the node. -/
def walkInside (node : Node) (inside : List WalkEvent) : List WalkEvent :=
  .enter node :: inside ++ [.leave node]

namespace Specification

variable {phase : Phase}

/-- Walks a component and what is nested in it, down to the given depth. -/
def walkComponentTo (spec : Specification phase) : (depth : Nat) → ComponentId → List WalkEvent
  | 0, id => walkInside (.component id) []
  | depth + 1, id =>
    walkInside (.component id) ((spec.component id).children.flatMap (spec.walkComponentTo depth))

/-- Walks a component and what is nested in it. -/
def walkComponent (spec : Specification phase) (id : ComponentId) : List WalkEvent :=
  spec.walkComponentTo spec.components.size id

/-- Walks a setter and what is nested in it. -/
def walkSetter (spec : Specification phase) (setter : Component phase) : List WalkEvent :=
  walkInside (.setter setter.id) (setter.children.flatMap spec.walkComponent)

/-- Walks a record sequence. -/
def walkSequence (spec : Specification phase) (sequence : RecordSequence) : List WalkEvent :=
  walkInside (.sequence sequence.id) <|
    (spec.orderedFields sequence).flatMap (fun field => walkInside (.field field.id) []) ++
    (spec.orderedReferences sequence).flatMap
      (fun reference => walkInside (.reference reference.id) []) ++
    (spec.orderedSetters sequence).flatMap spec.walkSetter ++
    [sequence.estimator, sequence.sequenceIterator, sequence.outputFormat].flatMap fun id? =>
      id?.toList.flatMap spec.walkComponent

/-- Walks a whole specification. -/
def walk (spec : Specification phase) : List WalkEvent :=
  walkInside .specification <|
    spec.parameters.values.flatMap (fun parameter => walkInside (.parameter parameter.key) []) ++
    spec.functions.values.flatMap (fun id => walkInside (.function id) []) ++
    spec.enumSets.values.flatMap (fun id => walkInside (.enumSet id) []) ++
    spec.sequences.toList.flatMap spec.walkSequence

end Specification

/-- A visitor: its state, and what it does at each event of a walk. -/
structure Visitor (State Stop : Type) where
  visit : State → WalkEvent → Except Stop State

/-- Runs a visitor over a walk. The state in which it stopped is kept. -/
def Visitor.run {State Stop : Type} (visitor : Visitor State Stop) :
    State → List WalkEvent → State × Option Stop
  | state, [] => (state, none)
  | state, event :: events =>
    match visitor.visit state event with
    | .ok next => visitor.run next events
    | .error stop => (state, some stop)

/-- The visitor that records the events it sees, and stops when it has recorded as many as its
budget allows. -/
def recorder (budget : Option Nat) : Visitor (List WalkEvent) Unit where
  visit recorded event :=
    if budget.all fun limit => recorded.length < limit then .ok (recorded ++ [event])
    else .error ()

end Recordgen

import Recordgen.Markup.Tag

/-! # From events to a tree

Reading a document gives events: an element starts, an element stands alone, the innermost open
element ends, or something happens that the tree does not show. `Element.ofEvents` builds the tree
that the events spell out, and `Element.events` spells a tree.
-/

namespace Recordgen.Markup

/-- What is met while a document is read. -/
inductive Event where
  | start (tag : Tag)
  | empty (tag : Tag)
  | stop
  | other
  deriving DecidableEq, Repr

/-- The tree under construction. -/
structure Builder where
  /-- The open elements, innermost first. -/
  opened : List Element := []
  /-- The finished outermost element. -/
  root : Option Element := none

namespace Builder

/-- Puts a finished element into the innermost open one, or makes it the root. -/
def attach (builder : Builder) (element : Element) : Except Fault Builder :=
  match builder.opened with
  | parent :: outer =>
    .ok { builder with opened := { parent with children := parent.children ++ [element] } :: outer }
  | [] =>
    match builder.root with
    | none => .ok { builder with root := some element }
    | some _ => .error (.secondRoot element.name)

/-- Takes one event into account. -/
def step (builder : Builder) : Event → Except Fault Builder
  | .start tag => .ok { builder with opened := tag.element :: builder.opened }
  | .empty tag => builder.attach tag.element
  | .stop =>
    match builder.opened with
    | element :: outer => attach { builder with opened := outer } element
    | [] => .error .unbalancedEnd
  | .other => .ok builder

/-- Takes all events into account, in order. -/
def run (builder : Builder) (events : List Event) : Except Fault Builder :=
  events.foldlM step builder

/-- The finished tree. -/
def finish (builder : Builder) : Except Fault Element :=
  match builder.opened, builder.root with
  | _ :: _, _ => .error .unexpectedEnd
  | [], none => .error .noRoot
  | [], some root => .ok root

end Builder

/-- The tree that a sequence of events spells. -/
def Element.ofEvents (events : List Event) : Except Fault Element := do
  (← Builder.run {} events).finish

mutual

/-- The events that spell a tree. -/
def Element.events : Element → List Event
  | ⟨name, attributes, children⟩ =>
    .start { name := name, attributes := attributes } :: listEvents children ++ [.stop]

/-- The events that spell several trees, one after the other. -/
def listEvents : List Element → List Event
  | [] => []
  | element :: rest => element.events ++ listEvents rest

end

end Recordgen.Markup

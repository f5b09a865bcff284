import Recordgen.Proofs.MarkupText

/-! # Which events spell a tree

An event is a start, an end, both at once or neither (`Event.brackets`). A tree under construction
keeps all that was read: the finished root, then every open element with its finished children
(`Builder.events`), and each event adds its brackets to that (`Builder.events_step`). So the events
that give a tree are those whose brackets are the events of one tree, and each way in which brackets
fail to be that has its own fault (`Broken`, `tree_of_events`).
-/

namespace Recordgen.Markup

open Outcome

/-- The starts and ends that an event stands for. -/
def Event.brackets : Event → List Event
  | .start tag => [.start tag]
  | .empty tag => [.start tag, .stop]
  | .stop => [.stop]
  | .other => []

/-- The events of an element that is still open: its start, and its finished children. -/
def Element.openEvents (element : Element) : List Event :=
  .start ⟨element.name, element.attributes⟩ :: listEvents element.children

/-- How brackets fail to be the events of one tree, and the fault that is reported. -/
inductive Broken : List Event → Fault → Prop
  /-- Behind one finished element, or at the start, there is an end too many. -/
  | unmatchedEnd (root : Option Element) (rest : List Event) :
      Broken (listEvents root.toList ++ .stop :: rest) .unbalancedEnd
  /-- A second element is finished outside of the first one. -/
  | secondRoot (first second : Element) (rest : List Event) :
      Broken (first.events ++ (second.events ++ rest)) (.secondRoot second.name)
  /-- The last elements, given from the outermost to the innermost, are not closed. -/
  | unclosed (root : Option Element) (opened : List Element) (present : opened ≠ []) :
      Broken (listEvents root.toList ++ opened.flatMap Element.openEvents) .unexpectedEnd
  | noElement : Broken [] .noRoot

private theorem Element.events_eq (element : Element) :
    element.events = element.openEvents ++ [.stop] := by
  obtain ⟨name, attributes, children⟩ := element
  rw [Element.events, openEvents]

private theorem listEvents_append (first second : List Element) :
    listEvents (first ++ second) = listEvents first ++ listEvents second := by
  induction first with
  | nil => rw [listEvents, List.nil_append, List.nil_append]
  | cons element first ih => rw [List.cons_append, listEvents, listEvents, ih, List.append_assoc]

private theorem listEvents_singleton (element : Element) :
    listEvents [element] = element.events := by
  rw [listEvents, listEvents, List.append_nil]

private theorem Tag.events_element (tag : Tag) : tag.element.events = [.start tag, .stop] := by
  rw [Element.events_eq, Element.openEvents, Tag.element, listEvents]
  rfl

namespace Builder

variable {builder next : Builder} {read : List Event} {fault : Fault}

/-! What a tree under construction keeps. -/

/-- The brackets that a tree under construction was made of. -/
def events (builder : Builder) : List Event :=
  listEvents builder.root.toList ++ builder.opened.reverse.flatMap Element.openEvents

private theorem events_opened (element : Element) (outer : List Element) (root : Option Element) :
    events ⟨element :: outer, root⟩ = events ⟨outer, root⟩ ++ element.openEvents := by
  rw [events, events, List.reverse_cons, List.flatMap_append, List.flatMap_singleton,
    List.append_assoc]

private theorem events_closed (root : Option Element) :
    events ⟨[], root⟩ = listEvents root.toList :=
  List.append_nil _

private theorem events_attach {element : Element} (attached : builder.attach element = .ok next) :
    next.events = builder.events ++ element.events := by
  obtain ⟨opened, root⟩ := builder
  cases opened with
  | cons parent outer =>
      obtain rfl := Except.ok.inj attached
      rw [events_opened, events_opened, List.append_assoc, Element.openEvents, Element.openEvents,
        listEvents_append, listEvents_singleton, List.cons_append]
  | nil =>
      cases root with
      | none =>
          obtain rfl := Except.ok.inj attached
          rw [events_closed, events_closed, Option.toList_some, listEvents_singleton,
            Option.toList_none, listEvents, List.nil_append]
      | some root => cases attached

/-- **One event.** The tree under construction keeps the brackets of each event. -/
theorem events_step {event : Event} (taken : builder.step event = .ok next) :
    next.events = builder.events ++ event.brackets := by
  cases event with
  | start tag =>
      obtain rfl := Except.ok.inj taken
      rw [events_opened, Element.openEvents, Tag.element, listEvents]
      rfl
  | empty tag => rw [events_attach taken, Tag.events_element, Event.brackets]
  | stop =>
      obtain ⟨opened, root⟩ := builder
      cases opened with
      | nil => cases taken
      | cons element outer =>
          rw [events_attach taken, events_opened, Element.events_eq, List.append_assoc,
            Event.brackets]
  | other =>
      obtain rfl := Except.ok.inj taken
      exact (List.append_nil _).symm

/-- **All events.** -/
theorem events_run (ran : builder.run read = .ok next) :
    next.events = builder.events ++ read.flatMap Event.brackets := by
  refine foldlM_collects
    (fun done state => state.events = builder.events ++ done.flatMap Event.brackets)
    (List.append_nil _).symm ?_ ran
  intro done state event next kept taken
  rw [events_step taken, kept, List.flatMap_append, List.flatMap_singleton, List.append_assoc]

private theorem brackets_of_run (ran : run {} read = .ok builder) :
    read.flatMap Event.brackets = builder.events := by
  rw [events_run ran, events_closed, Option.toList_none, listEvents, List.nil_append]

/-- A run that fails takes all events up to the one that it fails at. -/
theorem exists_of_run_eq_error (failed : builder.run read = .error fault) :
    ∃ before event later reached, read = before ++ event :: later ∧
      builder.run before = .ok reached ∧ reached.step event = .error fault := by
  induction read generalizing builder with
  | nil => cases failed
  | cons event read ih =>
      rw [run, List.foldlM_cons] at failed
      rcases bind_eq_error_iff.mp failed with here | ⟨next, taken, later⟩
      · exact ⟨[], event, read, builder, rfl, rfl, here⟩
      · obtain ⟨before, last, rest, reached, rfl, ran, stopped⟩ := ih later
        refine ⟨event :: before, last, rest, reached, rfl, ?_, stopped⟩
        rw [run, List.foldlM_cons]
        exact bind_eq_ok_iff.mpr ⟨next, taken, ran⟩

/-- An element is only refused as a second root. -/
theorem broken_of_attach {element : Element} (refused : builder.attach element = .error fault)
    (rest : List Event) : Broken (builder.events ++ (element.events ++ rest)) fault := by
  obtain ⟨_ | _, _ | root⟩ := builder
  · cases refused
  · obtain rfl := Except.error.inj refused
    rw [events_closed, Option.toList_some, listEvents_singleton]
    exact .secondRoot root element rest
  · cases refused
  · cases refused

/-- Where an event is refused, the brackets up to it are broken. -/
theorem broken_of_step {event : Event} (refused : builder.step event = .error fault)
    (rest : List Event) : Broken (builder.events ++ (event.brackets ++ rest)) fault := by
  cases event with
  | start tag => cases refused
  | empty tag =>
      rw [Event.brackets, ← Tag.events_element]
      exact broken_of_attach refused rest
  | stop =>
      obtain ⟨_ | ⟨element, outer⟩, root⟩ := builder
      · obtain rfl := Except.error.inj refused
        rw [events_closed]
        exact .unmatchedEnd root rest
      · rw [events_opened, Event.brackets, List.append_assoc, ← List.append_assoc element.openEvents,
          ← Element.events_eq]
        exact broken_of_attach refused rest
  | other => cases refused

/-- Where a run fails, the brackets of its events are broken. -/
theorem broken_of_run (failed : run {} read = .error fault) :
    Broken (read.flatMap Event.brackets) fault := by
  obtain ⟨before, event, later, reached, rfl, ran, refused⟩ := exists_of_run_eq_error failed
  rw [List.flatMap_append, List.flatMap_cons, brackets_of_run ran]
  exact broken_of_step refused _

private theorem finish_eq_ok_iff {root : Element} :
    builder.finish = .ok root ↔ builder = ⟨[], some root⟩ := by
  obtain ⟨_ | _, _ | found⟩ := builder <;> simp [finish]

/-- What is not a tree at the end of the events is broken. -/
theorem broken_of_finish (refused : builder.finish = .error fault) :
    Broken builder.events fault := by
  obtain ⟨_ | ⟨element, outer⟩, root⟩ := builder
  · cases root with
    | none =>
        obtain rfl := Except.error.inj refused
        rw [events_closed, Option.toList_none, listEvents]
        exact .noElement
    | some root => cases refused
  · obtain rfl := Except.error.inj refused
    exact .unclosed root _ (by simp)

/-! What given brackets lead to. -/

private theorem run_cons (builder : Builder) (event : Event) (rest : List Event) :
    builder.run (event :: rest) = builder.step event >>= fun next => next.run rest :=
  List.foldlM_cons

private theorem run_singleton (builder : Builder) (event : Event) :
    builder.run [event] = builder.step event :=
  bind_pure (builder.step event)

private theorem run_brackets (builder : Builder) (read : List Event) :
    builder.run (read.flatMap Event.brackets) = builder.run read := by
  have single (builder : Builder) (event : Event) :
      builder.run event.brackets = builder.step event := by
    cases event with
    | start tag | stop => exact run_singleton builder _
    | empty tag => exact run_singleton ⟨tag.element :: builder.opened, builder.root⟩ .stop
    | other => rfl
  induction read generalizing builder with
  | nil => rfl
  | cons event read ih =>
      rw [List.flatMap_cons, run_append, single, run_cons]
      exact congrArg _ (funext ih)

mutual

/-- The events of a tree attach it. -/
theorem run_events (builder : Builder) :
    ∀ element : Element, builder.run element.events = builder.attach element
  | ⟨name, attributes, children⟩ => by
    have inside := run_listEvents ⟨⟨name, attributes, []⟩ :: builder.opened, builder.root⟩ children
    rw [foldlM_attach] at inside
    rw [Element.events, List.cons_append, run_cons]
    change run ⟨⟨name, attributes, []⟩ :: builder.opened, builder.root⟩ _ = _
    rw [run_append, inside]
    exact run_singleton ⟨⟨name, attributes, children⟩ :: builder.opened, builder.root⟩ .stop

/-- The events of several trees attach them in order. -/
theorem run_listEvents (builder : Builder) : ∀ elements : List Element,
    builder.run (listEvents elements) = elements.foldlM attach builder
  | [] => by
    rw [listEvents]
    rfl
  | element :: rest => by
    rw [listEvents, run_append, run_events builder element, List.foldlM_cons]
    exact congrArg _ (funext fun next => run_listEvents next rest)

end

private theorem run_openEvents (builder : Builder) (element : Element) :
    builder.run element.openEvents = .ok { builder with opened := element :: builder.opened } := by
  obtain ⟨name, attributes, children⟩ := element
  rw [Element.openEvents, run_cons]
  change run ⟨⟨name, attributes, []⟩ :: builder.opened, builder.root⟩ _ = _
  rw [run_listEvents, foldlM_attach]
  rfl

private theorem run_flatMap_openEvents (builder : Builder) (opened : List Element) :
    builder.run (opened.flatMap Element.openEvents) =
      .ok { builder with opened := opened.reverse ++ builder.opened } := by
  induction opened generalizing builder with
  | nil => rfl
  | cons element opened ih =>
      rw [List.flatMap_cons, run_append, run_openEvents]
      change run _ _ = _
      rw [ih]
      simp

private theorem run_root (root : Option Element) :
    run {} (listEvents root.toList) = .ok ⟨[], root⟩ := by
  rw [run_listEvents]
  cases root <;> rfl

end Builder

/-- Only the brackets of events count. -/
theorem Element.ofEvents_brackets (events : List Event) :
    Element.ofEvents (events.flatMap Event.brackets) = Element.ofEvents events := by
  rw [Element.ofEvents, Builder.run_brackets, Element.ofEvents]

/-- The fault of broken brackets is the one reported. -/
theorem Broken.ofEvents {brackets : List Event} {fault : Fault} (broken : Broken brackets fault) :
    Element.ofEvents brackets = .error fault := by
  rw [Element.ofEvents]
  cases broken with
  | unmatchedEnd root rest =>
      rw [Builder.run_append, Builder.run_root]
      rfl
  | secondRoot first second rest =>
      rw [Builder.run_append, Builder.run_events]
      change Builder.run ⟨[], some first⟩ _ >>= _ = _
      rw [Builder.run_append, Builder.run_events]
      rfl
  | unclosed root opened present =>
      rw [Builder.run_append, Builder.run_root]
      change Builder.run ⟨[], root⟩ _ >>= _ = _
      rw [Builder.run_flatMap_openEvents]
      cases spelled : opened.reverse with
      | nil => exact absurd (List.reverse_eq_nil_iff.mp spelled) present
      | cons element outer => rfl
  | noElement => rfl

/-- **Trees.** Events give a tree exactly if their brackets are the events of that tree. Otherwise
there is an end too many, a second element behind the first one, an element that is not closed or no
element at all, and the fault tells which. -/
theorem tree_of_events (events : List Event) :
    (∀ root, Scan.tree ⟨events, none⟩ = .ok root ↔
      events.flatMap Event.brackets = root.events) ∧
    (∀ fault, Scan.tree ⟨events, none⟩ = .error fault ↔
      Broken (events.flatMap Event.brackets) fault) := by
  change (∀ root, Element.ofEvents events = .ok root ↔ _) ∧
    ∀ fault, Element.ofEvents events = .error fault ↔ _
  refine ⟨fun root => ⟨fun built => ?_, fun spelled => ?_⟩, fun fault => ⟨fun failed => ?_, ?_⟩⟩
  · obtain ⟨builder, ran, finished⟩ := bind_eq_ok_iff.mp built
    rw [Builder.brackets_of_run ran, Builder.finish_eq_ok_iff.mp finished, Builder.events_closed,
      Option.toList_some, listEvents_singleton]
  · rw [← Element.ofEvents_brackets, spelled, Element.ofEvents, Builder.run_events]
    rfl
  · rcases bind_eq_error_iff.mp failed with stopped | ⟨builder, ran, unfinished⟩
    · exact Builder.broken_of_run stopped
    · rw [Builder.brackets_of_run ran]
      exact Builder.broken_of_finish unfinished
  · intro broken
    rw [← Element.ofEvents_brackets, broken.ofEvents]

/-- Text around the elements does not count, and an element alone is a child like any other. -/
example :
    Scan.tree ⟨[.other, .start ⟨"a", []⟩, .empty ⟨"b", []⟩, .other, .start ⟨"c", []⟩, .stop, .stop],
      none⟩ = .ok ⟨"a", [], [⟨"b", [], []⟩, ⟨"c", [], []⟩]⟩ :=
  rfl

end Recordgen.Markup

import Recordgen.Proofs.PreOrder
import Recordgen.Specification.Traversal

/-! # Recording a traversal

A traversal calls the hooks of a visitor, and a walk lists events. For a visitor that treats all
nodes alike the two agree: it is called at the events of the walk, one after the other
(`Specification.acceptFrom_general`). So what a visitor with a budget records is read off from the
list (`run_forM_within`): it is the start of the walk that the budget allows.
-/

namespace Recordgen

section General

variable {State Stop : Type} {phase : Phase}

/-- The hooks of a visitor that treats all nodes alike. -/
def Hooks.general (visit : WalkEvent → VisitM State Stop Unit) : Hooks State Stop where
  enterNode node := visit (.enter node)
  leaveNode node := visit (.leave node)

variable (visit : WalkEvent → VisitM State Stop Unit)

private theorem forM_walkInside (node : Node) (inside : List WalkEvent) :
    (walkInside node inside).forM visit = (do
      visit (.enter node)
      inside.forM visit
      visit (.leave node)) := by
  rw [walkInside, List.forM_eq_forM]
  simp

private theorem forM_flatMap {α : Type} (values : List α) (events : α → List WalkEvent) :
    (values.flatMap events).forM visit = values.forM fun value => (events value).forM visit := by
  induction values with
  | nil => rfl
  | cons value values ih =>
      simp only [List.forM_eq_forM] at ih ⊢
      rw [List.flatMap_cons, List.forM_append, List.forM_cons, ih]

private theorem forM_append (first second : List WalkEvent) :
    (first ++ second).forM visit = (do
      first.forM visit
      second.forM visit) := by
  simp only [List.forM_eq_forM, List.forM_append]

namespace Specification

variable (spec : Specification phase)

private theorem acceptComponentTo_general (depth : Nat) (id : ComponentId) :
    spec.acceptComponentTo (.general visit) depth id =
      (spec.walkComponentTo depth id).forM visit := by
  induction depth generalizing id with
  | zero =>
      rw [walkComponentTo, forM_walkInside]
      rfl
  | succ depth ih =>
      rw [walkComponentTo, forM_walkInside, forM_flatMap, ← funext ih]
      rfl

private theorem acceptComponent_general (id : ComponentId) :
    spec.acceptComponent (.general visit) id = (spec.walkComponent id).forM visit :=
  spec.acceptComponentTo_general visit spec.components.size id

private theorem acceptSetter_general (setter : Component phase) :
    spec.acceptSetter (.general visit) setter = (spec.walkSetter setter).forM visit := by
  rw [walkSetter, forM_walkInside, forM_flatMap, ← funext (spec.acceptComponent_general visit)]
  rfl

private theorem forM_leaves {α : Type} (values : List α) (node : α → Node) :
    (values.flatMap fun value => walkInside (node value) []).forM visit =
      values.forM fun value => (do
        visit (.enter (node value))
        visit (.leave (node value))) := by
  rw [forM_flatMap]
  refine congrArg _ (funext fun value => ?_)
  rw [forM_walkInside]
  rfl

private theorem acceptSequence_general (sequence : RecordSequence) :
    spec.acceptSequence (.general visit) sequence =
      (spec.walkSequence sequence).forM visit := by
  have parts : ∀ id? : Option ComponentId, (id?.toList.flatMap spec.walkComponent).forM visit =
      id?.toList.forM (spec.acceptComponent (.general visit)) := by
    intro id?
    rw [forM_flatMap, ← funext (spec.acceptComponent_general visit)]
  rw [walkSequence, forM_walkInside, forM_append, forM_append, forM_append, forM_leaves,
    forM_leaves, forM_flatMap, ← funext (spec.acceptSetter_general visit), forM_flatMap,
    funext parts]
  simp only [bind_assoc]
  rfl

private theorem accept_general :
    spec.accept (.general visit) = spec.walk.forM visit := by
  rw [walk, forM_walkInside, forM_append, forM_append, forM_append, forM_leaves, forM_leaves,
    forM_leaves, forM_flatMap, ← funext (spec.acceptSequence_general visit)]
  simp only [bind_assoc]
  rfl

/-- A visitor that treats all nodes alike is called at the events of the walk, one after the
other. -/
theorem acceptFrom_general (start : TraversalStart) :
    spec.acceptFrom (.general visit) start = (spec.walkFrom start).forM visit := by
  cases start with
  | specification => exact spec.accept_general visit
  | sequence sequence => exact spec.acceptSequence_general visit sequence
  | component id => exact spec.acceptComponent_general visit id

end Specification

end General

section Depth

variable {phase : Phase} {State Stop : Type}

private theorem forM_congr {α : Type} {values : List α} {first second : α → VisitM State Stop Unit}
    (same : ∀ value ∈ values, first value = second value) :
    values.forM first = values.forM second := by
  induction values with
  | nil => rfl
  | cons value values ih =>
      have rest := ih fun other member => same other (List.mem_cons_of_mem _ member)
      simp only [List.forM_eq_forM, List.forM_cons] at rest ⊢
      rw [same value List.mem_cons_self, rest]

namespace Specification

variable {spec : Specification phase}

/-- Traversals are not cut off at some depth: a component is gone through with all that is nested
in it. -/
def GoesDeep (spec : Specification phase) : Prop :=
  ∀ {State Stop : Type} (hooks : Hooks State Stop) (id : ComponentId),
    spec.acceptComponent hooks id = (do
      hooks.enterComponent id
      (spec.component id).children.forM (spec.acceptComponent hooks)
      hooks.leaveComponent id)

private theorem acceptComponentTo_succ (follow : spec.ChildrenFollow) (hooks : Hooks State Stop)
    {depth : Nat} {id : ComponentId} (deep : spec.components.size ≤ id.index + 1 + depth) :
    spec.acceptComponentTo hooks (depth + 1) id = spec.acceptComponentTo hooks depth id := by
  induction depth generalizing id with
  | zero =>
      rw [acceptComponentTo, acceptComponentTo, follow.childless (by omega)]
      rfl
  | succ depth ih =>
      rw [acceptComponentTo, acceptComponentTo]
      have same : (spec.component id).children.forM (spec.acceptComponentTo hooks (depth + 1)) =
          (spec.component id).children.forM (spec.acceptComponentTo hooks depth) := by
        refine forM_congr fun child member => ih ?_
        have := follow id child member
        omega
      rw [same]

/-- Children come behind the components that hold them, so a traversal reaches them all. -/
theorem ChildrenFollow.goesDeep (follow : spec.ChildrenFollow) : spec.GoesDeep := by
  intro State Stop hooks id
  rw [acceptComponent, ← acceptComponentTo_succ follow hooks (by omega), acceptComponentTo]
  rfl

end Specification

end Depth

section Recording

/-- Is there room for one more event? -/
def Recording.hasRoom (budget : Option Nat) (recording : Recording) : Bool :=
  budget.all fun limit => recording.events.length < limit

private theorem hasRoom_iff {budget : Nat} {recording : Recording} :
    recording.hasRoom (some budget) = true ↔ recording.events.length < budget := by
  simp [Recording.hasRoom]

private theorem run_recordEvent (budget : Option Nat) (event : WalkEvent) (recording : Recording) :
    (recordEvent budget event).run.run recording =
      if recording.hasRoom budget then
        (.ok (), ⟨recording.events ++ [event], recording.refused⟩)
      else (.error (), ⟨recording.events, recording.refused ++ [event]⟩) := by
  have opened : (recordEvent budget event).run.run recording =
      (if recording.hasRoom budget then
        (set { recording with events := recording.events ++ [event] } : VisitM Recording Unit Unit)
      else do
        set { recording with refused := recording.refused ++ [event] }
        throw ()).run.run recording := rfl
  rw [opened]
  split <;> rfl

/-- One call of a hook, then the others unless there was no room. -/
theorem run_forM_cons (budget : Option Nat) (event : WalkEvent) (events : List WalkEvent)
    (recording : Recording) :
    ((event :: events).forM (recordEvent budget)).run.run recording =
      if recording.hasRoom budget then
        (events.forM (recordEvent budget)).run.run
          ⟨recording.events ++ [event], recording.refused⟩
      else (.error (), ⟨recording.events, recording.refused ++ [event]⟩) := by
  have step := run_recordEvent budget event recording
  simp only [List.forM_eq_forM, List.forM_cons]
  by_cases room : recording.hasRoom budget
  · rw [if_pos room] at step ⊢
    exact Outcome.run_bind_ok step
  · rw [if_neg room] at step ⊢
    exact Outcome.run_bind_error step

private theorem run_forM_unlimited (events : List WalkEvent) (recording : Recording) :
    (events.forM (recordEvent none)).run.run recording =
      (.ok (), ⟨recording.events ++ events, recording.refused⟩) := by
  induction events generalizing recording with
  | nil =>
      rw [List.append_nil]
      rfl
  | cons event events ih =>
      have room : recording.hasRoom none = true := rfl
      rw [run_forM_cons, if_pos room, ih, List.append_assoc]
      rfl

/-- Events are recorded up to the budget. -/
theorem run_forM_within (budget : Nat) (events : List WalkEvent) (recording : Recording)
    (within : recording.events.length ≤ budget) :
    (events.forM (recordEvent (some budget))).run.run recording =
      (if recording.events.length + events.length ≤ budget then .ok () else .error (),
        ⟨recording.events ++ events.take (budget - recording.events.length),
          recording.refused ++ (events.drop (budget - recording.events.length)).take 1⟩) := by
  induction events generalizing recording with
  | nil =>
      rw [List.take_nil, List.drop_nil, List.take_nil, List.append_nil, List.append_nil,
        List.length_nil, Nat.add_zero, if_pos within]
      rfl
  | cons event events ih =>
      rw [run_forM_cons]
      by_cases room : recording.events.length < budget
      · have left : budget - recording.events.length =
            budget - (recording.events ++ [event]).length + 1 := by
          rw [List.length_append, List.length_singleton]
          omega
        have total : (recording.events ++ [event]).length + events.length =
            recording.events.length + (event :: events).length := by
          rw [List.length_append, List.length_singleton, List.length_cons]
          omega
        rw [if_pos (hasRoom_iff.mpr room), ih _ (by simpa using Nat.succ_le_of_lt room), total, left,
          List.take_succ_cons, List.drop_succ_cons, List.append_assoc, List.singleton_append]
      · have full : budget - recording.events.length = 0 := by omega
        have exceeded : ¬recording.events.length + (event :: events).length ≤ budget := by
          rw [List.length_cons]
          omega
        rw [if_neg (mt hasRoom_iff.mp room), full, if_neg exceeded, List.take_zero, List.append_nil]
        rfl

/-- The visitor that is run over the list of events records the same. -/
theorem run_recorder (budget : Option Nat) (events : List WalkEvent) (recording : Recording) :
    (recorder budget).run recording.events events =
      (((events.forM (recordEvent budget)).run.run recording).2.events,
        if ((events.forM (recordEvent budget)).run.run recording).1.toOption.isSome then none
        else some ()) := by
  induction events generalizing recording with
  | nil => rfl
  | cons event events ih =>
      rw [run_forM_cons, Visitor.run]
      by_cases room : recording.hasRoom budget
      · have step : (recorder budget).visit recording.events event =
            .ok (recording.events ++ [event]) := if_pos room
        rw [step, if_pos room]
        exact ih ⟨recording.events ++ [event], recording.refused⟩
      · have step : (recorder budget).visit recording.events event = .error () := if_neg room
        rw [step, if_neg room]
        rfl

end Recording

namespace Specification

variable {phase : Phase} (spec : Specification phase) (start : TraversalStart)

/-- How traversals with a budget are recorded, from wherever they start. -/
structure RecordedWithin (spec : Specification phase) (start : TraversalStart) (budget : Nat) : Prop
    where
  /-- Without a budget all events of the walk are recorded. -/
  full : spec.record none start = (.ok (), ⟨spec.walkFrom start, []⟩)
  /-- With a budget the first events are recorded, and at most one more call is made, the one that
  stops the traversal. The traversal comes to its end when the budget suffices for the walk. -/
  cut : spec.record (some budget) start =
    (if (spec.walkFrom start).length ≤ budget then .ok () else .error (),
      ⟨(spec.walkFrom start).take budget, ((spec.walkFrom start).drop budget).take 1⟩)
  /-- The visitor that is run over the list of the events does the same. -/
  listed : (recorder (some budget)).run [] (spec.walkFrom start) =
    ((spec.record (some budget) start).2.events,
      if (spec.record (some budget) start).1.toOption.isSome then none else some ())

private theorem record_eq (budget : Option Nat) :
    spec.record budget start = ((spec.walkFrom start).forM (recordEvent budget)).run.run {} := by
  rw [← acceptFrom_general]
  rfl

theorem recordedWithin (budget : Nat) : spec.RecordedWithin start budget := by
  have cut := run_forM_within budget (spec.walkFrom start) {} (Nat.zero_le _)
  rw [← record_eq] at cut
  refine ⟨?_, ?_, ?_⟩
  · rw [record_eq, run_forM_unlimited]
    rfl
  · simpa using cut
  · rw [record_eq]
    exact run_recorder (some budget) (spec.walkFrom start) {}

end Specification

namespace Prototype

/-- **A visitor with a budget sees the first events of the walk.** From wherever a traversal of an
accepted document starts, it calls the hooks of a visitor that treats all nodes alike at the events
of the walk, in their order. A visitor that refuses events once its budget is spent records exactly
the first of them, is not called again after it has refused one, and the traversal comes to its end
exactly when the walk has no more events than the budget allows. -/
theorem record_cut_by_budget {text : String} {spec : Specification .raw}
    (parsed : parse text = .ok spec) :
    spec.GoesDeep ∧
      (∀ (State Stop : Type) (visit : WalkEvent → VisitM State Stop Unit) (start : TraversalStart),
        spec.acceptFrom (.general visit) start = (spec.walkFrom start).forM visit) ∧
      ∀ start budget, spec.RecordedWithin start budget := by
  refine ⟨(parse_assembled parsed).wellFormed.childrenFollow.goesDeep, ?_, spec.recordedWithin⟩
  intro State Stop visit start
  exact spec.acceptFrom_general visit start

namespace Sample

/-- The walk over the provider of the field setter, under which three others are nested. -/
def providerEvents : List WalkEvent :=
  [.enter (.component ⟨3⟩), .enter (.component ⟨4⟩), .leave (.component ⟨4⟩),
    .enter (.component ⟨5⟩), .enter (.component ⟨6⟩), .leave (.component ⟨6⟩),
    .leave (.component ⟨5⟩), .leave (.component ⟨3⟩)]

private theorem exists_providerEvents :
    ∃ spec, parse text = .ok spec ∧ spec.walkFrom (.component ⟨3⟩) = providerEvents := by
  have walked : (readRoot root).toOption.map (fun spec => spec.walkFrom (.component ⟨3⟩)) =
      some providerEvents := by decide +kernel
  obtain ⟨spec, read, events⟩ := Option.map_eq_some_iff.mp walked
  refine ⟨spec, ?_, events⟩
  rw [parse_eq_readRoot parse_text, Outcome.toOption_eq_some_iff.mp read]

end Sample

/-- In the sample the walk over a provider has eight events. A budget of eight suffices for it; with
a budget of five the visitor stops when the innermost provider is left. -/
theorem sample_recorded :
    ∃ spec, parse Sample.text = .ok spec ∧
      spec.record (some 8) (.component ⟨3⟩) = (.ok (), ⟨Sample.providerEvents, []⟩) ∧
      spec.record (some 5) (.component ⟨3⟩) =
        (.error (), ⟨Sample.providerEvents.take 5, [.leave (.component ⟨6⟩)]⟩) := by
  obtain ⟨spec, parsed, events⟩ := Sample.exists_providerEvents
  obtain ⟨-, -, recorded⟩ := record_cut_by_budget parsed
  refine ⟨spec, parsed, ?_, ?_⟩
  · rw [(recorded (.component ⟨3⟩) 8).cut, events]
    rfl
  · rw [(recorded (.component ⟨3⟩) 5).cut, events]
    rfl

end Prototype

end Recordgen

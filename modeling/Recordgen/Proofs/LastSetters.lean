import Recordgen.Proofs.OrderKeys
import Recordgen.Proofs.ReportAccounts
import Recordgen.Proofs.SetterTargets

/-! # Last setters and warnings

Of the setters of a field the last one stays: the field setter with the greatest order key in the
chain of the field's record whose argument denotes the field, in whatever spelling
(`Specification.IsLastSetter`). So a field has no setter exactly if no setter of its chain is for
it, and a run warns of these fields, sequence by sequence and by order key
(`Specification.unsetWarnings`).
-/

namespace Recordgen

open Outcome

section Orders

variable {α : Type} {order : α → Nat} {values : List α}

/-- The last of ascending values is the greatest. -/
theorem getLast?_eq_some_iff_greatest
    (ascending : values.Pairwise fun first second => order first < order second) {last : α} :
    values.getLast? = some last ↔
      last ∈ values ∧ ∀ other ∈ values, order other ≤ order last := by
  constructor
  · intro found
    obtain ⟨front, rfl⟩ := List.getLast?_eq_some_iff.mp found
    refine ⟨List.mem_append_right _ (List.mem_singleton_self last), fun other listed => ?_⟩
    rcases List.mem_append.mp listed with before | same
    · have below := (List.pairwise_append.mp ascending).2.2 other before last
        (List.mem_singleton_self last)
      omega
    · rw [List.mem_singleton.mp same]
  · rintro ⟨listed, greatest⟩
    cases found : values.getLast? with
    | none =>
        rw [List.getLast?_eq_none_iff.mp found] at listed
        cases listed
    | some final =>
        obtain ⟨front, rfl⟩ := List.getLast?_eq_some_iff.mp found
        rcases List.mem_append.mp listed with before | same
        · have below := (List.pairwise_append.mp ascending).2.2 last before final
            (List.mem_singleton_self final)
          have above := greatest final (List.mem_append_right _ (List.mem_singleton_self final))
          omega
        · rw [List.mem_singleton.mp same]

/-- A value is found by its number. -/
theorem filter_order_eq (distinct : (values.map order).Nodup) {value : α}
    (listed : value ∈ values) :
    (values.filter fun other => order other == order value) = [value] := by
  induction values with
  | nil => cases listed
  | cons first rest ih =>
      obtain ⟨fresh, distinct⟩ := List.nodup_cons.mp distinct
      rcases List.mem_cons.mp listed with rfl | later
      · rw [List.filter_cons, if_pos (beq_self_eq_true _), List.filter_eq_nil_iff.mpr]
        intro other later same
        exact fresh (List.mem_map.mpr ⟨other, later, beq_iff_eq.mp same⟩)
      · have different : ¬(order first == order value) = true := fun same =>
          fresh (List.mem_map.mpr ⟨value, later, (beq_iff_eq.mp same).symm⟩)
        rw [List.filter_cons, if_neg different, ih distinct later]

/-- Values whose numbers are their positions are listed number by number. -/
theorem flatMap_range_order (numbered : values.map order = List.range values.length)
    (keep : α → Bool) :
    ((List.range values.length).flatMap fun number =>
      values.filter fun value => order value == number && keep value) = values.filter keep := by
  have distinct : (values.map order).Nodup := numbered ▸ List.nodup_range
  have each : ∀ value ∈ values, (values.filter fun other =>
      order other == order value && keep other) = [value].filter keep := by
    intro value listed
    rw [← filter_order_eq distinct listed, List.filter_filter]
    exact List.filter_congr fun other _ => Bool.and_comm _ _
  rw [← numbered, List.flatMap_map, List.flatMap_congr each, ← List.filter_flatMap,
    List.flatMap_singleton']

end Orders

/-- The field that a field setter is for. -/
def Component.target? (component : Component .resolved) : Option FieldId :=
  if component.kind = .fieldSetter then
    ((component.argument? "field").bind Argument.fieldRef?).map FieldLink.field
  else none

namespace Specification

/-- The field setters for a field in the chain of its record. -/
def targeting (spec : Specification .resolved) (field : FieldId) : List ComponentId :=
  (spec.sequence (spec.field field).owner).setters.filter fun id =>
    (spec.component id).target? == some field

/-- The setter for a field with the greatest order key. -/
def IsLastSetter (spec : Specification .resolved) (field : FieldId) (id : ComponentId) : Prop :=
  id ∈ spec.targeting field ∧
    ∀ other ∈ spec.targeting field, (spec.component other).order ≤ (spec.component id).order

/-- The warnings about the fields of random sequences for which there are no setters, in document
order and by order key. -/
def unsetWarnings (spec : Specification .resolved) : List Warning :=
  spec.sequences.toList.flatMap fun sequence =>
    if sequence.kind == .random then
      (List.range sequence.fields.length).flatMap fun order =>
        ((sequence.fields.map spec.field).filter fun field => field.order == order &&
          (!field.implicit && !field.derived && (spec.targeting field.id).isEmpty)).map fun field =>
            .noSetter field.name sequence.key
    else []

end Specification

namespace Linking

variable {spec : Specification .raw} {result : Specification .resolved} {summary : Summary}
  {bindings : Bindings} {sequence : RecordSequence} {id : ComponentId}

/-- Resolution leaves a component in its place and replaces its names. -/
theorem Resolved.component (resolved : Resolved spec result)
    (present : spec.components[id.index]? = some (spec.component id)) :
    result.components[id.index]? = some (result.component id) ∧
      ComponentResolved spec (result.references.toList.map Reference.target) (spec.component id)
        (result.component id) := by
  rw [← Array.getElem?_toList] at present
  obtain ⟨image, there, related⟩ := forall₂_getElem? resolved.components present
  rw [Array.getElem?_toList] at there
  rw [Specification.component_eq there]
  exact ⟨there, related⟩

/-- A field setter holds the link that its path denotes, and sets the field of that link. -/
theorem link_of_setter (assembled : Prototype.Assembled spec)
    (ran : run spec = .ok (result, summary)) (bound : bindAll spec = .ok bindings)
    (targets : bindings.targets = result.references.toList.map Reference.target)
    (settable : ∀ id ∈ fieldSetters spec, ∃ field, setterField spec bindings id = .ok field)
    (member : sequence ∈ spec.sequences.toList) (setter : id ∈ settersOf spec sequence) :
    ∃ path link, (spec.component id).argument? "field" = some (@Argument.fieldRef .raw path) ∧
      resolveFieldPath spec (result.references.toList.map Reference.target) path
        (some sequence.id) (placeOf spec (spec.component id)) = .ok link ∧
      (result.component id).argument? "field" = some (@Argument.fieldRef .resolved link) ∧
      setterField spec bindings id = .ok link.field := by
  have wellFormed := assembled.wellFormed
  obtain ⟨listed, sort⟩ := (mem_settersOf wellFormed member).mp setter
  obtain ⟨present, placed, -, owned⟩ := wellFormed.component_of_setter member listed
  obtain ⟨there, related⟩ := (resolved_of_run assembled ran).1.component present
  have argument : (result.component id).kind.hasArgument "field" (.single .fieldRef) = true := by
    rw [related.kind, sort]
    rfl
  have conforms := (linked_of_run assembled ran).wellFormed.conform _
    (Specification.mem_components there)
  obtain ⟨link, held⟩ := Component.field_of_hasArgument conforms argument
  obtain ⟨path, given, found, set, -⟩ := checked_of_fieldSetter wellFormed bound targets settable
    (Specification.mem_components present) related sort held
  rw [owned] at found
  rw [placed] at set
  exact ⟨path, link, given, found, held, set⟩

section Run

variable (assembled : Prototype.Assembled spec) (ran : run spec = .ok (result, summary))
  (member : sequence ∈ spec.sequences.toList)

include assembled ran member

/-- Setters keep their order keys, so they are still listed in ascending order. -/
theorem settersOf_ascending : (settersOf spec sequence).Pairwise fun first second =>
    (result.component first).order < (result.component second).order := by
  have wellFormed := assembled.wellFormed
  have kept : ∀ setter ∈ spec.orderedSetters sequence,
      (result.component setter.id).order = setter.order := by
    intro setter listed
    obtain ⟨id, known, rfl⟩ :=
      List.mem_map.mp ((spec.orderedSetters_perm sequence).mem_iff.mp listed)
    obtain ⟨present, placed, -⟩ := wellFormed.component_of_setter member known
    rw [placed]
    exact ((resolved_of_run assembled ran).1.component present).2.order
  have numbered : (spec.orderedSetters sequence).map Component.order =
      List.range sequence.setters.length := by
    refine map_mergeSort_eq_range (List.Perm.of_eq ?_)
    rw [(wellFormed.chain member).orders, List.length_map]
  have ascending := List.pairwise_lt_range (n := sequence.setters.length)
  rw [← numbered, List.pairwise_map] at ascending
  refine List.Pairwise.filter _ (List.pairwise_map.mpr (ascending.imp_of_mem ?_))
  intro first second left right below
  rwa [kept first left, kept second right]

private theorem mem_targeting_iff (bound : bindAll spec = .ok bindings)
    (targets : bindings.targets = result.references.toList.map Reference.target)
    (settable : ∀ id ∈ fieldSetters spec, ∃ field, setterField spec bindings id = .ok field)
    {field : FieldId} (owned : (result.field field).owner = sequence.id) {id : ComponentId} :
    id ∈ result.targeting field ↔
      id ∈ (settersOf spec sequence).filter (setsField spec bindings field) := by
  have wellFormed := assembled.wellFormed
  have resolved := (resolved_of_run assembled ran).1
  have home : result.sequence (result.field field).owner = sequence := by
    rw [owned]
    refine (linked_of_run assembled ran).wellFormed.sequence_id ?_
    rw [resolved.sequences]
    exact member
  rw [Specification.targeting, home, List.mem_filter, List.mem_filter,
    mem_settersOf wellFormed member, and_assoc, and_congr_right_iff]
  intro listed
  obtain ⟨present, -⟩ := wellFormed.component_of_setter member listed
  have related := (resolved.component present).2
  rw [Component.target?, related.kind]
  by_cases sort : (spec.component id).kind = .fieldSetter
  · obtain ⟨path, link, -, -, held, set⟩ := link_of_setter assembled ran bound targets settable
      member ((mem_settersOf wellFormed member).mpr ⟨listed, sort⟩)
    rw [if_pos sort, held, setsField, set]
    simp [sort, Argument.fieldRef?, Except.toOption]
  · simp [sort]

end Run

/-- **The setter of a field** is the last one that is for it. -/
theorem setter_iff_of_run (assembled : Prototype.Assembled spec)
    (ran : run spec = .ok (result, summary)) {field : FieldId}
    (inside : field.index < result.fields.size) :
    (∀ id, (result.field field).setter = some id ↔ result.IsLastSetter field id) ∧
      ((result.field field).setter = none ↔ result.targeting field = []) := by
  have wellFormed := assembled.wellFormed
  have resolved := (resolved_of_run assembled ran).1
  obtain ⟨bindings, bound, targets, settable, attached⟩ := setter_of_run assembled ran
  have size : result.fields.size = spec.fields.size := by
    rw [← Array.length_toList, ← Array.length_toList, resolved.fields.length_eq]
  have present := Array.getElem?_eq_getElem (size ▸ inside)
  obtain ⟨sequence, member, owns, -⟩ := wellFormed.preOrder.fieldsListed _
    (Array.mem_toList_iff.mpr (Array.mem_of_getElem? present))
  have there := attached sequence member field _ present owns.symm
  have owned : (result.field field).owner = sequence.id := by
    rw [Specification.field_eq there]
    exact owns.symm
  have setter : (result.field field).setter =
      ((settersOf spec sequence).filter (setsField spec bindings field)).getLast? := by
    rw [Specification.field_eq there]
  have mem_iff : ∀ id, id ∈ result.targeting field ↔
      id ∈ (settersOf spec sequence).filter (setsField spec bindings field) :=
    fun _ => mem_targeting_iff assembled ran member bound targets settable owned
  constructor
  · intro id
    rw [setter, getLast?_eq_some_iff_greatest ((settersOf_ascending assembled ran member).filter _),
      Specification.IsLastSetter]
    simp only [mem_iff]
  · rw [setter, List.getLast?_eq_none_iff, List.eq_nil_iff_forall_not_mem,
      List.eq_nil_iff_forall_not_mem]
    simp only [mem_iff]

end Linking

/-- The warning that a step gives. -/
def PlanStep.warning? : PlanStep → Option Warning
  | .warn warning => some warning
  | .write _ | .skip _ => none

namespace Sink

variable {σ α β : Type} {sink : Sink (StateM σ)} {state after : σ} {report reported : Report}

/-- Writing headers gives no warnings. -/
theorem warnings_of_writeHeaders {headers : HeaderPair}
    (ran : (sink.writeHeaders report headers).run state = (.ok reported, after)) :
    reported.warnings = report.warnings := by
  obtain ⟨_, _, -, ran⟩ := exists_of_run_bind ran
  obtain ⟨kept, _, -, ran⟩ := exists_of_run_bind ran
  cases kept with
  | true => rw [eq_of_run_pure ran]
  | false =>
      obtain ⟨_, _, -, ran⟩ := exists_of_run_bind ran
      rw [eq_of_run_pure ran]

private theorem warnings_of_takeStep {step : PlanStep}
    (ran : (sink.takeStep report step).run state = (.ok reported, after)) :
    reported.warnings = report.warnings ++ step.warning?.toList := by
  cases step with
  | write headers => exact (warnings_of_writeHeaders ran).trans (List.append_nil _).symm
  | skip sequence =>
      rw [eq_of_run_pure ran]
      exact (List.append_nil _).symm
  | warn warning => rw [eq_of_run_pure ran, Report.warn]; rfl

/-- A run that comes to its end has given the warnings of its steps, in their order. -/
theorem warnings_of_foldlM {steps : List PlanStep}
    (ran : (steps.foldlM sink.takeStep report).run state = (.ok reported, after)) :
    reported.warnings = report.warnings ++ steps.filterMap PlanStep.warning? := by
  induction steps generalizing report state with
  | nil =>
      rw [eq_of_run_pure ran]
      exact (List.append_nil _).symm
  | cons step steps ih =>
      rw [List.foldlM_cons] at ran
      obtain ⟨next, middle, here, later⟩ := exists_of_run_bind ran
      rw [ih later, warnings_of_takeStep here, List.append_assoc]
      cases step <;> rfl

private theorem warnings_of_runPlan {plan : Plan}
    (ran : (sink.runPlan plan).run state = (.ok report, after)) :
    plan.failure = none ∧ report.warnings = plan.steps.filterMap PlanStep.warning? := by
  obtain ⟨_, _, -, ran⟩ := exists_of_run_bind ran
  obtain ⟨reported, _, taken, ran⟩ := exists_of_run_bind ran
  cases failed : plan.failure with
  | some fault =>
      rw [failed] at ran
      cases congrArg Prod.fst ran
  | none =>
      rw [failed] at ran
      rw [eq_of_run_pure ran, warnings_of_foldlM taken]
      exact ⟨rfl, List.nil_append _⟩

end Sink

namespace Specification

variable {spec : Specification .resolved} {targetNamespace : String} {sequence : RecordSequence}

private theorem warnings_of_sequenceSteps {steps : List PlanStep}
    (planned : spec.sequenceSteps targetNamespace sequence = .ok steps) :
    steps.filterMap PlanStep.warning? =
      if sequence.kind == .random then RecordContext.warnings ⟨spec, sequence, targetNamespace⟩
      else [] := by
  cases sort : sequence.kind with
  | random =>
      rw [sequenceSteps, sort] at planned
      obtain ⟨pairs, -, rfl⟩ := bind_pure_eq_ok_iff.mp planned
      rw [if_pos (beq_self_eq_true _), List.filterMap_append, List.filterMap_map,
        List.filterMap_map]
      simp [Function.comp_def, PlanStep.warning?]
  | unsupported element =>
      rw [sequenceSteps, sort] at planned
      obtain rfl := Except.ok.inj planned
      rfl

/-- Order keys are positions, so the fields are in order already. -/
theorem orderedFields_of_wellFormed (wellFormed : spec.WellFormed)
    (member : sequence ∈ spec.sequences.toList) :
    spec.orderedFields sequence = sequence.fields.map spec.field := by
  apply List.mergeSort_of_pairwise
  have ascending := List.pairwise_le_range (n := (sequence.fields.map spec.field).length)
  rw [← (wellFormed.record member).1.orders, List.pairwise_map] at ascending
  exact ascending.imp fun below => decide_eq_true below

/-- The warnings of a sequence are about the fields that no setter of its chain is for. -/
theorem warnings_eq (wellFormed : spec.WellFormed) (member : sequence ∈ spec.sequences.toList)
    (unset : ∀ field : FieldId, field.index < spec.fields.size →
      ((spec.field field).setter = none ↔ spec.targeting field = [])) :
    RecordContext.warnings ⟨spec, sequence, targetNamespace⟩ =
      (List.range sequence.fields.length).flatMap fun order =>
        ((sequence.fields.map spec.field).filter fun field => field.order == order &&
          (!field.implicit && !field.derived && (spec.targeting field.id).isEmpty)).map fun field =>
            .noSetter field.name sequence.key := by
  have missing : ∀ field ∈ sequence.fields.map spec.field,
      field.setter.isNone = (spec.targeting field.id).isEmpty := by
    intro field shown
    obtain ⟨id, listed, rfl⟩ := List.mem_map.mp shown
    rw [← wellFormed.sequence_id member] at listed
    obtain ⟨present, placed, -⟩ := wellFormed.field_of_listed listed
    rw [placed, Bool.eq_iff_iff, Option.isNone_iff_eq_none, List.isEmpty_iff]
    exact unset id (Array.getElem?_eq_some_iff.mp present).1
  have numbered := (wellFormed.record member).1.orders
  rw [RecordContext.warnings, RecordContext.fields, orderedFields_of_wellFormed wellFormed member,
    List.filter_congr fun field listed => by rw [missing field listed],
    ← flatMap_range_order numbered, List.map_flatMap, List.length_map]

private theorem unsetWarnings_of_plan (wellFormed : spec.WellFormed)
    (unset : ∀ field : FieldId, field.index < spec.fields.size →
      ((spec.field field).setter = none ↔ spec.targeting field = []))
    (complete : (spec.plan targetNamespace).failure = none) :
    (spec.plan targetNamespace).steps.filterMap PlanStep.warning? = spec.unsetWarnings := by
  rw [filterMap_of_plan (fun _ _ => warnings_of_sequenceSteps) (fun _ => rfl) complete]
  refine List.flatMap_congr fun sequence member => ?_
  rw [warnings_eq wellFormed member unset]

end Specification

/-- Field setters and fields before and after resolution. -/
structure Linking.LastSetterStays (raw : Specification .raw) (spec : Specification .resolved) :
    Prop where
  /-- A field setter is for the field that its path denotes, however the path is spelled. -/
  denoted : ∀ sequence ∈ raw.sequences.toList, ∀ id ∈ sequence.setters,
    (raw.component id).kind = .fieldSetter → ∃ path link,
      (raw.component id).argument? "field" = some (@Argument.fieldRef .raw path) ∧
      resolveFieldPath raw (spec.references.toList.map Reference.target) path (some sequence.id)
        (placeOf raw (raw.component id)) = .ok link ∧
      (spec.component id).target? = some link.field
  /-- The setter of a field is the last one of its chain that is for it. -/
  last : ∀ field : FieldId, field.index < spec.fields.size → ∀ id,
    (spec.field field).setter = some id ↔ spec.IsLastSetter field id
  /-- A field has no setter exactly if no setter of its chain is for it. -/
  unset : ∀ field : FieldId, field.index < spec.fields.size →
    ((spec.field field).setter = none ↔ spec.targeting field = [])

private theorem Linking.lastSetterStays_of_run {raw : Specification .raw}
    {spec : Specification .resolved} {summary : Summary} (assembled : Prototype.Assembled raw)
    (ran : run raw = .ok (spec, summary)) : LastSetterStays raw spec where
  denoted sequence member id listed sort := by
    obtain ⟨bindings, bound, targets, settable, -⟩ := setter_of_run assembled ran
    obtain ⟨path, link, given, found, held, -⟩ := link_of_setter assembled ran bound targets
      settable member ((mem_settersOf assembled.wellFormed member).mpr ⟨listed, sort⟩)
    refine ⟨path, link, given, found, ?_⟩
    obtain ⟨present, -⟩ := assembled.wellFormed.component_of_setter member listed
    have related := ((resolved_of_run assembled ran).1.component present).2
    rw [Component.target?, related.kind, if_pos sort, held]
    rfl
  last field inside := (setter_iff_of_run assembled ran inside).1
  unset field inside := (setter_iff_of_run assembled ran inside).2

/-- **The last setter stays, and the warnings say where there is none.** When an accepted document
is resolved, the setter of each field is the field setter with the greatest order key in the chain
of its record whose path denotes the field, however it is spelled; if there is none, the field has
no setter. A run that succeeds, wherever its files go, warns of exactly the fields of random
sequences that are neither implicit nor derived and for which no setter of their chain is, in
document order and by order key. -/
theorem last_setters_and_warnings {text : String} {raw : Specification .raw}
    {spec : Specification .resolved} (parsed : Prototype.parse text = .ok raw)
    (linking : Linking.resolve raw = .ok spec) :
    Linking.LastSetterStays raw spec ∧
      ∀ (σ : Type) (sink : Sink (StateM σ)) (state after : σ) (targetNamespace : String)
        (report : Report),
        (compileDocument sink targetNamespace text).run state = (.ok report, after) →
          report.warnings = spec.unsetWarnings := by
  obtain ⟨⟨_, summary⟩, ran, rfl⟩ := map_eq_ok_iff.mp linking
  have assembled := Prototype.parse_assembled parsed
  have stays := Linking.lastSetterStays_of_run assembled ran
  refine ⟨stays, fun σ sink state after targetNamespace report compiled => ?_⟩
  obtain ⟨other, _, read, emitted⟩ := exists_of_run_bind compiled
  have found : readDocument text = .ok other := congrArg Prod.fst read
  rw [readDocument, parsed] at found
  obtain rfl := Except.ok.inj (linking.symm.trans found)
  obtain ⟨complete, warned⟩ := Sink.warnings_of_runPlan emitted
  have wellFormed := (Linking.linked_of_run assembled ran).wellFormed
  rw [warned, Specification.unsetWarnings_of_plan wellFormed stays.unset complete]

namespace Prototype.Sample

open Markup (Element)

/-- A setter of a field to zero. -/
def zeroSetter (key path : String) : Element :=
  keyed "setter" key "field_setter" [
    link "field" path,
    nested "value" "const_value_provider[I32]" [literal "value" "I32" "0"]]

/-- A document in which the field `x` is set twice, the second time under a longer path. The field
`y` is not set, and `z` is derived. -/
def twiceRoot : Element :=
  { name := rootName
    children := [
      { name := "record_sequences"
        children := [
          randomSequence "a"
            [numberField "x", numberField "y",
              { name := "field"
                attributes := [("name", "z"), ("type", "I32"), ("derived", "true")] }]
            [zeroSetter "s" "x", zeroSetter "t" "a:x"]] }] }

/-- The text of the document. -/
def twiceText : String :=
  String.ofList twiceRoot.print

private theorem parse_twiceText : Markup.parse twiceText = .ok twiceRoot :=
  Markup.Element.parse_print (by decide +kernel)

/-- Whether the field `x` has two setters, of which the second has the greater order key. -/
def setsTwice (spec : Specification .resolved) : Bool :=
  decide (1 < spec.fields.size) && spec.targeting ⟨1⟩ == [⟨0⟩, ⟨2⟩] &&
    decide ((spec.component ⟨0⟩).order < (spec.component ⟨2⟩).order) &&
    spec.unsetWarnings == [.noSetter "y" "a"]

set_option maxRecDepth 100000 in
private theorem exists_compiled_twice :
    ∃ spec report after, readDocument twiceText = .ok spec ∧ setsTwice spec = true ∧
      (spec.plan "Shop").failure = none ∧
      compileInMemory {} "Shop" twiceText = (.ok report, after) := by
  refine exists_compiled_of_isRenderable parse_twiceText ?_ {} "Shop"
  cbv

end Prototype.Sample

open Prototype.Sample in
/-- Of two setters of one field the second stays, although it spells the field in another way, and
the only warning is about the field without a setter. -/
theorem twice_set_last :
    ∃ raw spec report after, Prototype.parse twiceText = .ok raw ∧
      Linking.resolve raw = .ok spec ∧
      compileInMemory {} "Shop" twiceText = (.ok report, after) ∧
      Linking.LastSetterStays raw spec ∧ (spec.field ⟨1⟩).setter = some ⟨2⟩ ∧
      report.warnings = [.noSetter "y" "a"] := by
  obtain ⟨spec, report, after, read, checked, -, compiled⟩ := exists_compiled_twice
  obtain ⟨raw, parsed, linking⟩ := bind_eq_ok_iff.mp read
  obtain ⟨stays, warned⟩ := last_setters_and_warnings parsed linking
  simp only [setsTwice, Bool.and_eq_true, decide_eq_true_eq, beq_iff_eq] at checked
  obtain ⟨⟨⟨inside, setters⟩, behind⟩, warnings⟩ := checked
  refine ⟨raw, spec, report, after, parsed, linking, compiled, stays, ?_, ?_⟩
  · refine (stays.last ⟨1⟩ inside ⟨2⟩).mpr ⟨by simp [setters], fun other listed => ?_⟩
    rw [setters] at listed
    rcases List.mem_cons.mp listed with rfl | same
    · exact Nat.le_of_lt behind
    · rw [List.mem_singleton.mp same]
  · rw [warned MemoryStore memorySink {} after "Shop" report compiled, warnings]

end Recordgen

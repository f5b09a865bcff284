import Recordgen.Proofs.PreOrder
import Recordgen.Proofs.ResolutionFailure

/-! # Which setter is bound to a field

Setters are attached in the order of a walk, and a later one replaces an earlier one. So a field ends
up with the last setter that sets it. Only setters of its own record do, and these are attached by
order key (`setter_of_run`).
-/

namespace Recordgen.Linking

open Outcome

variable {spec : Specification .raw} {bindings : Bindings}

/-- Whether a setter sets a field. -/
def setsField (spec : Specification .raw) (bindings : Bindings) (field : FieldId)
    (setter : ComponentId) : Bool :=
  (setterField spec bindings setter).toOption == some field

theorem setsField_iff {field : FieldId} {setter : ComponentId} :
    setsField spec bindings field setter = true ↔
      setterField spec bindings setter = .ok field := by
  rw [setsField, beq_iff_eq, toOption_eq_some_iff]

section

variable {setters : List ComponentId} {start fields : Array Field}
  (attached : setters.foldlM (fun fields setter => do
    return attachSetter fields (← setterField spec bindings setter) setter) start = .ok fields)

include attached

/-- The last setter that sets a field stays. -/
theorem getElem?_of_attached
    {id : FieldId} {field : Field} (present : start[id.index]? = some field) :
    fields[id.index]? = some { field with
      setter := (setters.filter (setsField spec bindings id)).getLast?.or field.setter } := by
  induction setters generalizing start field with
  | nil =>
      obtain rfl := pure_eq_ok_iff.mp attached
      exact present
  | cons setter rest ih =>
      rw [List.foldlM_cons] at attached
      obtain ⟨next, here, later⟩ := bind_eq_ok_iff.mp attached
      obtain ⟨target, set, rfl⟩ := bind_pure_eq_ok_iff.mp here
      by_cases hit : target = id
      · subst hit
        have sets : setsField spec bindings target setter = true := setsField_iff.mpr set
        have changed : (attachSetter start target setter)[target.index]? =
            some { field with setter := some setter } := by
          rw [attachSetter, Array.getElem?_modify, if_pos rfl, present, Option.map_some]
        rw [ih later changed, List.filter_cons_of_pos sets, List.getLast?_cons]
        cases (rest.filter (setsField spec bindings target)).getLast? <;> rfl
      · have misses : ¬setsField spec bindings id setter = true := by
          rw [setsField_iff, set]
          exact fun other => hit (Except.ok.inj other)
        have kept : (attachSetter start target setter)[id.index]? = some field := by
          have elsewhere : target.index ≠ id.index := fun same => hit (congrArg FieldId.mk same)
          rw [attachSetter, Array.getElem?_modify, if_neg elsewhere, present]
        rw [ih later kept, List.filter_cons_of_neg misses]

private theorem exists_setterField_of_attached :
    ∀ id ∈ setters, ∃ field, setterField spec bindings id = .ok field := by
  induction setters generalizing start with
  | nil => exact List.forall_mem_nil _
  | cons setter rest ih =>
      rw [List.foldlM_cons] at attached
      obtain ⟨next, here, later⟩ := bind_eq_ok_iff.mp attached
      obtain ⟨target, set, -⟩ := bind_eq_ok_iff.mp here
      exact List.forall_mem_cons.mpr ⟨⟨target, set⟩, ih later⟩

end

/-- The field setters of a sequence, by order key. -/
def settersOf (spec : Specification .raw) (sequence : RecordSequence) : List ComponentId :=
  ((spec.orderedSetters sequence).map Component.id).filter fun id =>
    (spec.component id).kind == .fieldSetter

/-- The field setters stand in the order of the sequences. -/
theorem fieldSetters_eq (spec : Specification .raw) :
    fieldSetters spec = spec.sequences.toList.flatMap (settersOf spec) := by
  rw [fieldSetters, spec.enteredSetters_eq, List.filter_flatMap]
  rfl

/-- The setters of a sequence that are field setters. -/
theorem mem_settersOf (wellFormed : spec.WellFormed) {sequence : RecordSequence}
    (member : sequence ∈ spec.sequences.toList) {id : ComponentId} :
    id ∈ settersOf spec sequence ↔
      id ∈ sequence.setters ∧ (spec.component id).kind = .fieldSetter := by
  have ordered := (spec.orderedSetters_perm sequence).map Component.id
  rw [wellFormed.map_setters member] at ordered
  rw [settersOf, List.mem_filter, ordered.mem_iff, beq_iff_eq]

section

variable (wellFormed : spec.WellFormed) (bound : bindAll spec = .ok bindings) {field : FieldId}
  {sequence : RecordSequence}

include wellFormed bound

/-- A setter sets the field that its argument denotes, which is one of its own record. -/
theorem link_of_setterField {component : Component .raw}
    (member : component ∈ spec.components.toList) (sort : component.kind = .fieldSetter)
    (set : setterField spec bindings component.id = .ok field) :
    ∃ name link, component.argument? "field" = some (@Argument.fieldRef .raw name) ∧
      resolveFieldPath spec bindings.targets name component.owner (placeOf spec component) =
        .ok link ∧ link.field = field ∧ some (spec.field field).owner = component.owner ∧
      link.inner = [] := by
  obtain ⟨name, link, held, found, checks⟩ := setterField_eq wellFormed bound member sort
  rw [set] at checks
  split at checks
  · cases checks
  rename_i own
  split at checks
  · cases checks
  split at checks
  · cases checks
  obtain rfl := Except.ok.inj checks
  rw [not_or, not_not, not_not] at own
  exact ⟨name, link, held, found, rfl, own.2, own.1⟩

/-- A setter is for a field of its own record. -/
theorem owner_of_setterField (member : sequence ∈ spec.sequences.toList) {id : ComponentId}
    (setter : id ∈ settersOf spec sequence) (set : setterField spec bindings id = .ok field) :
    (spec.field field).owner = sequence.id := by
  obtain ⟨listed, sort⟩ := (mem_settersOf wellFormed member).mp setter
  obtain ⟨present, placed, -, owned⟩ := wellFormed.component_of_setter member listed
  rw [← placed] at set
  obtain ⟨-, -, -, -, -, own, -⟩ :=
    link_of_setterField wellFormed bound (Specification.mem_components present) sort set
  exact Option.some.inj (own.trans owned)

/-- Among all field setters, those that set a field are those of its own record. -/
theorem filter_fieldSetters (member : sequence ∈ spec.sequences.toList)
    (owned : (spec.field field).owner = sequence.id) :
    (fieldSetters spec).filter (setsField spec bindings field) =
      (settersOf spec sequence).filter (setsField spec bindings field) := by
  have others : ∀ other ∈ spec.sequences.toList, other ≠ sequence →
      (settersOf spec other).filter (setsField spec bindings field) = [] := by
    intro other listed apart
    refine List.filter_eq_nil_iff.mpr fun id setter sets => apart ?_
    have owner := owner_of_setterField wellFormed bound listed setter (setsField_iff.mp sets)
    exact wellFormed.eq_of_id listed member (owner.symm.trans owned)
  rw [fieldSetters_eq, List.filter_flatMap]
  -- Every other sequence contributes nothing.
  obtain ⟨before, after, split⟩ := List.append_of_mem member
  have distinct : (before ++ sequence :: after).Nodup := by
    rw [← split]
    exact wellFormed.sequenceKeys.of_map
  rw [split] at others ⊢
  obtain ⟨-, inner, cross⟩ := List.nodup_append.mp distinct
  have front : before.flatMap (fun other =>
      (settersOf spec other).filter (setsField spec bindings field)) = [] :=
    List.flatMap_eq_nil_iff.mpr fun other listed =>
      others other (List.mem_append_left _ listed) (cross other listed _ List.mem_cons_self)
  have back : after.flatMap (fun other =>
      (settersOf spec other).filter (setsField spec bindings field)) = [] :=
    List.flatMap_eq_nil_iff.mpr fun other listed =>
      others other (List.mem_append_right _ (List.mem_cons_of_mem _ listed)) fun same =>
        (List.nodup_cons.mp inner).1 (same ▸ listed)
  rw [List.flatMap_append, List.flatMap_cons, front, back, List.nil_append, List.append_nil]

end

/-- **The setter of a field** is the last setter of its record that sets it. -/
theorem setter_of_run (assembled : Prototype.Assembled spec) {result : Specification .resolved}
    {summary : Summary} (ran : run spec = .ok (result, summary)) :
    ∃ bindings, bindAll spec = .ok bindings ∧
      bindings.targets = result.references.toList.map Reference.target ∧
      (∀ id ∈ fieldSetters spec, ∃ field, setterField spec bindings id = .ok field) ∧
      ∀ sequence ∈ spec.sequences.toList, ∀ (id : FieldId) (field : Field),
        spec.fields[id.index]? = some field → field.owner = sequence.id →
          result.fields[id.index]? = some { field with
            setter := ((settersOf spec sequence).filter (setsField spec bindings id)).getLast? } := by
  have wellFormed := assembled.wellFormed
  obtain ⟨bindings, fields, components, bound, attached, -, rfl, -⟩ := run_eq_ok ran
  obtain ⟨targets, -⟩ := bindAll_eq_ok wellFormed bound
  refine ⟨bindings, bound, ?_, ?_, ?_⟩
  · rw [List.toList_toArray, (zipWith_resolveReference targets).1]
  · exact exists_setterField_of_attached attached
  · intro sequence member id field present owned
    have unset : field.setter = none :=
      assembled.unset field (Array.mem_toList_iff.mpr (Array.mem_of_getElem? present))
    have owner : (spec.field id).owner = sequence.id := by
      rw [Specification.field_eq present, owned]
    rw [getElem?_of_attached attached present, unset, Option.or_none,
      filter_fieldSetters wellFormed bound member owner]

end Recordgen.Linking

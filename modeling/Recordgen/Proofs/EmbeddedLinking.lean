import Recordgen.Proofs.BoundSetters
import Recordgen.Proofs.Renaming

/-! # Resolving an embedded specification

A name that denotes something denotes the same in every specification in which its own is embedded:
sequences are found by their keys, which are distinct, and from there a path is followed through
parts that correspond to each other. So an embedding of raw specifications is one of the resolved
specifications too (`embeds_of_run`).
-/

namespace Recordgen.Linking

open Outcome
open Specification (Embeds)

variable {new : Renaming} {small large : Specification .raw}

section Paths

variable (embeds : small.Embeds new large) (wellFormed : small.WellFormed) (wide : large.WellFormed)
  {current : SequenceId} {path place other : String} {owner : Option SequenceId}
  {targets others : List SequenceId}

include embeds wellFormed

private theorem findReference?_rename {name : String} {reference : Reference .raw}
    (found : small.findReference? current name = some reference) :
    large.findReference? (new.sequence current) name = some (reference.rename new) := by
  rcases small.sequence_cases current with present | blank
  · have same := embeds.references_eq wellFormed (Specification.mem_sequences present)
    rw [← embeds.sequence_eq present] at same
    rw [Specification.findReference?, same, List.find?_map]
    exact congrArg (Option.map (Reference.rename new)) found
  · rw [Specification.findReference?, blank] at found
    cases found

private theorem findField?_rename {name : String} {field : Field}
    (found : small.findField? current name = some field) :
    large.findField? (new.sequence current) name = some (field.rename new) := by
  rcases small.sequence_cases current with present | blank
  · have same := embeds.fields_eq wellFormed (Specification.mem_sequences present)
    rw [← embeds.sequence_eq present] at same
    rw [Specification.findField?, same, List.find?_map]
    exact congrArg (Option.map (Field.rename new)) found
  · rw [Specification.findField?, blank] at found
    cases found

include wide

private theorem sequenceByKey?_rename {key : String} {sequence : RecordSequence}
    (found : small.sequenceByKey? key = some sequence) :
    large.sequenceByKey? key = some (sequence.rename new) := by
  obtain ⟨member, keyed⟩ := (sequenceByKey?_eq_some_iff wellFormed).mp found
  exact (sequenceByKey?_eq_some_iff wide).mpr
    ⟨embeds.rename_mem_sequences member, keyed⟩

private theorem startSequence_rename {kind : LinkKind} {root : Option String} {start : SequenceId}
    (found : startSequence small kind path root owner place = .ok start) :
    startSequence large kind path root (owner.map new.sequence) other =
      .ok (new.sequence start) := by
  rw [startSequence_eq_ok_iff] at found ⊢
  rcases found with ⟨key, sequence, rfl, here, rfl⟩ | ⟨rfl, rfl⟩
  · exact .inl ⟨key, _, rfl, sequenceByKey?_rename embeds wellFormed wide here, rfl⟩
  · exact .inr ⟨rfl, rfl⟩

private theorem resolveReferencePath_rename {link : ReferenceLink}
    (found : resolveReferencePath small path owner place = .ok link) :
    resolveReferencePath large path (owner.map new.sequence) other = .ok (link.rename new) := by
  rw [resolveReferencePath_steps_iff] at found ⊢
  obtain ⟨parsed, reference, written, started, here, same, ended⟩ := found
  exact ⟨parsed, _, written, startSequence_rename embeds wellFormed wide started,
    findReference?_rename embeds wellFormed here, same, congrArg new.reference ended⟩

omit wide

/-- The references of the embedded specification lead to sequences that correspond. -/
def TargetsRenamed (new : Renaming) (targets others : List SequenceId) : Prop :=
  ∀ (id : ReferenceId) (target : SequenceId), targets[id.index]? = some target →
    others[(new.reference id).index]? = some (new.sequence target)

private theorem followReferences_rename (renamed : TargetsRenamed new targets others)
    {reached : SequenceId} {segments : List String} {references : List ReferenceId}
    (followed : followReferences small targets current segments = .ok (references, reached)) :
    followReferences large others (new.sequence current) segments =
      .ok (references.map new.reference, new.sequence reached) := by
  induction segments generalizing current references with
  | nil =>
      obtain ⟨rfl, rfl⟩ := Prod.mk.inj (Except.ok.inj followed)
      rfl
  | cons segment rest ih =>
      rw [followReferences] at followed ⊢
      split at followed
      · cases followed
      rename_i reference here
      split at followed
      · cases followed
      rename_i next led
      obtain ⟨⟨later, last⟩, onward, same⟩ := bind_pure_eq_ok_iff.mp followed
      obtain ⟨rfl, rfl⟩ := Prod.mk.inj same
      have target : others[(reference.rename new).id.index]? = some (new.sequence next) :=
        renamed reference.id next led
      rw [findReference?_rename embeds wellFormed here]
      simp only [target]
      exact bind_eq_ok_iff.mpr ⟨_, ih onward, rfl⟩

include wide

private theorem resolveFieldPath_rename (renamed : TargetsRenamed new targets others)
    {link : FieldLink} (found : resolveFieldPath small targets path owner place = .ok link) :
    resolveFieldPath large others path (owner.map new.sequence) other = .ok (link.rename new) := by
  rw [resolveFieldPath_steps_iff] at found ⊢
  obtain ⟨parsed, last, field, written, started, followed, here, same, ended⟩ := found
  exact ⟨parsed, _, _, written, startSequence_rename embeds wellFormed wide started,
    followReferences_rename embeds wellFormed renamed followed,
    findField?_rename embeds wellFormed here, same, congrArg new.field ended⟩

end Paths

section Resolved

variable {first second : Specification .resolved} (embeds : small.Embeds new large)
  (wellFormed : small.WellFormed) (wide : large.WellFormed) (resolved : Resolved small first)
  (again : Resolved large second) {component : Component .raw} {before : Argument .raw}
  {after image : Argument .resolved}

include embeds wide resolved again

private theorem getElem?_references_rename {id : ReferenceId} {reference : Reference .resolved}
    (present : first.references[id.index]? = some reference) :
    second.references[(new.reference id).index]? = some (reference.rename new) := by
  rw [← Array.getElem?_toList] at present
  obtain ⟨before, original, related⟩ := forall₂_getElem? resolved.references.flip present
  rw [Array.getElem?_toList] at original
  have there := embeds.references id before original
  rw [← Array.getElem?_toList] at there
  obtain ⟨image, found, other⟩ := forall₂_getElem? again.references there
  rw [Array.getElem?_toList] at found
  rw [found]
  obtain ⟨target, member, keyed, led⟩ := related.target
  obtain ⟨goal, listed, named, ends⟩ := other.target
  -- Both targets have the key that the raw reference names.
  have same : goal = target.rename new :=
    List.inj_on_of_nodup_map wide.sequenceKeys listed (embeds.rename_mem_sequences member)
      (named.trans keyed.symm)
  have ids : image.id = (reference.rename new).id := by
    rw [other.id, Reference.rename, Reference.rename, related.id]
  have owners : image.owner = (reference.rename new).owner := by
    rw [other.owner, Reference.rename, Reference.rename, related.owner]
  have names : image.name = (reference.rename new).name := other.name.trans related.name.symm
  have orders : image.order = (reference.rename new).order := other.order.trans related.order.symm
  have targets : Reference.target image = Reference.target (reference.rename new) := by
    rw [← ends, same]
    exact congrArg new.sequence led
  cases image
  exact congrArg some (by cases ids; cases owners; cases names; cases orders; cases targets; rfl)

private theorem targetsRenamed : TargetsRenamed new (first.references.toList.map Reference.target)
    (second.references.toList.map Reference.target) := by
  intro id target led
  rw [List.getElem?_map] at led ⊢
  obtain ⟨reference, present, rfl⟩ := Option.map_eq_some_iff.mp led
  rw [Array.getElem?_toList] at present ⊢
  rw [getElem?_references_rename embeds wide resolved again present]
  rfl

include wellFormed

/-- What becomes of an item that corresponds to another one corresponds to what becomes of that. -/
theorem ItemResolved.eq_rename
    (related : ItemResolved small (first.references.toList.map Reference.target) component before
      after)
   
    (other : ItemResolved large (second.references.toList.map Reference.target)
      (component.rename new) (before.rename new) image) : image = after.rename new := by
  have renamed := targetsRenamed embeds wide resolved again
  cases related with
  | literal value =>
      cases other
      rfl
  | component id =>
      cases other
      rfl
  | fieldRef name link found =>
      cases other with
      | fieldRef _ goal ends =>
          have led : resolveFieldPath large _ name (component.rename new).owner
              (placeOf large (component.rename new)) = .ok (link.rename new) :=
            resolveFieldPath_rename embeds wellFormed wide renamed found
          rw [Except.ok.inj (ends.symm.trans led)]
          rfl
  | referenceRef name link found =>
      cases other with
      | referenceRef _ goal ends =>
          have led : resolveReferencePath large name (component.rename new).owner
              (placeOf large (component.rename new)) = .ok (link.rename new) :=
            resolveReferencePath_rename embeds wellFormed wide found
          rw [Except.ok.inj (ends.symm.trans led)]
          rfl
  | functionRef name function found =>
      cases other with
      | functionRef _ goal ends =>
          have known : goal = function := by
            have ends : large.functions.get? name = some goal := ends
            rw [embeds.functions, found] at ends
            exact (Option.some.inj ends).symm
          have kept : new.component function = function :=
            embeds.fixed function (List.mem_append_left _ (KeyMap.mem_values_of_get? found))
          rw [known]
          exact congrArg (@Argument.functionRef .resolved) kept.symm

private theorem ArgumentResolved.eq_rename
    (related : ArgumentResolved small (first.references.toList.map Reference.target) component
      before after)
   
    (other : ArgumentResolved large (second.references.toList.map Reference.target)
      (component.rename new) (before.rename new) image) : image = after.rename new := by
  cases related with
  | item related =>
      have item : ItemResolved large (second.references.toList.map Reference.target)
          (component.rename new) (before.rename new) image := by
        cases related <;> (cases other; assumption)
      exact related.eq_rename embeds wellFormed wide resolved again item
  | collection related =>
      rw [Argument.rename, Argument.renameAll_eq_map] at other
      cases other with
      | item other => cases other
      | collection other =>
          rw [Argument.rename, Argument.renameAll_eq_map]
          rw [List.forall₂_map_left_iff] at other
          refine congrArg Argument.collection (eq_map_of_forall₂ related other ?_)
          exact fun _ _ _ related other =>
            related.eq_rename embeds wellFormed wide resolved again other

private theorem getElem?_components_rename {id : ComponentId} {component : Component .resolved}
    (present : first.components[id.index]? = some component) :
    second.components[(new.component id).index]? = some (component.rename new) := by
  rw [← Array.getElem?_toList] at present
  obtain ⟨before, original, related⟩ := forall₂_getElem? resolved.components.flip present
  rw [Array.getElem?_toList] at original
  obtain ⟨image, found, other⟩ := again.exists_component (embeds.components id before original)
  rw [found]
  have arguments : image.arguments = (component.rename new).arguments := by
    refine eq_map_of_forall₂ related.arguments (List.forall₂_map_left_iff.mp other.arguments) ?_
    intro argument after result left right
    refine Prod.ext (right.1.trans left.1.symm) ?_
    exact left.2.eq_rename embeds wellFormed wide resolved again right.2
  have ids : image.id = (component.rename new).id := by
    rw [other.id, Component.rename, Component.rename, related.id]
  have parents : image.parent = (component.rename new).parent := by
    rw [other.parent, Component.rename, Component.rename, related.parent]
  have owners : image.owner = (component.rename new).owner := by
    rw [other.owner, Component.rename, Component.rename, related.owner]
  have keys : image.key = (component.rename new).key := other.key.trans related.key.symm
  have kinds : image.kind = (component.rename new).kind := other.kind.trans related.kind.symm
  have attributes : image.attributes = (component.rename new).attributes :=
    other.attributes.trans related.attributes.symm
  have orders : image.order = (component.rename new).order := other.order.trans related.order.symm
  refine congrArg some ?_
  generalize component.rename new = result at *
  cases image
  cases result
  cases ids
  cases keys
  cases kinds
  cases attributes
  cases arguments
  cases parents
  cases owners
  cases orders
  rfl

end Resolved

/-! ## Setters -/

private theorem settersOf_rename (embeds : small.Embeds new large) (wellFormed : small.WellFormed)
    {sequence : RecordSequence} (member : sequence ∈ small.sequences.toList) :
    settersOf large (sequence.rename new) = (settersOf small sequence).map new.component := by
  have ordered : (large.orderedSetters (sequence.rename new)).map Component.id =
      ((small.orderedSetters sequence).map Component.id).map new.component := by
    rw [embeds.orderedSetters_eq wellFormed member, List.map_map, List.map_map]
    rfl
  rw [settersOf, ordered, List.filter_map, settersOf]
  refine congrArg (List.map new.component) (List.filter_congr fun id listed => ?_)
  have setter : id ∈ sequence.setters := by
    have all := (small.orderedSetters_perm sequence).map Component.id
    rw [wellFormed.map_setters member] at all
    exact all.mem_iff.mp listed
  have present := (wellFormed.component_of_setter member setter).1
  rw [Function.comp_apply, embeds.component_eq present]
  rfl

section Run

variable {first second : Specification .resolved} {summary other : Summary}
  (embeds : small.Embeds new large) (assembled : Prototype.Assembled small)
  (wide : Prototype.Assembled large) (ran : run small = .ok (first, summary))
  (again : run large = .ok (second, other))

include embeds assembled wide ran again

/-- A setter and what corresponds to it set fields that correspond. -/
theorem setterField_rename {bindings others : Bindings} (bound : bindAll small = .ok bindings)
    (boundAgain : bindAll large = .ok others)
    (targets : bindings.targets = first.references.toList.map Reference.target)
    (targetsAgain : others.targets = second.references.toList.map Reference.target)
    (settable : ∀ id ∈ fieldSetters large, ∃ field, setterField large others id = .ok field)
    {sequence : RecordSequence} (member : sequence ∈ small.sequences.toList) {id : ComponentId}
    (setter : id ∈ settersOf small sequence) {field : FieldId}
    (set : setterField small bindings id = .ok field) :
    setterField large others (new.component id) = .ok (new.field field) ∧
      small.fields[field.index]? = some (small.field field) := by
  have resolved := (resolved_of_run assembled ran).1
  have resolvedAgain := (resolved_of_run wide again).1
  have renamed := targetsRenamed embeds wide.wellFormed resolved resolvedAgain
  obtain ⟨listed, sort⟩ := (mem_settersOf assembled.wellFormed member).mp setter
  obtain ⟨present, placed, -⟩ := assembled.wellFormed.component_of_setter member listed
  have inside := Specification.mem_components present
  rw [← placed] at set
  obtain ⟨name, link, held, found, rfl, -⟩ :=
    link_of_setterField assembled.wellFormed bound inside sort set
  have reached : new.component id ∈ fieldSetters large := by
    rw [fieldSetters_eq]
    refine List.mem_flatMap.mpr ⟨_, embeds.rename_mem_sequences member, ?_⟩
    rw [settersOf_rename embeds assembled.wellFormed member]
    exact List.mem_map_of_mem setter
  obtain ⟨goal, sets⟩ := settable _ reached
  have there := embeds.components id _ present
  have moved : ((small.component id).rename new).id = new.component id :=
    congrArg new.component placed
  rw [← moved] at sets
  obtain ⟨named, led, holds, leads, rfl, -⟩ := link_of_setterField wide.wellFormed boundAgain
    (Specification.mem_components there) sort sets
  rw [Component.argument?_rename, held] at holds
  obtain rfl : name = named := by
    injection holds with same
    injection same
  rw [targets] at found
  rw [targetsAgain] at leads
  have same : resolveFieldPath large (second.references.toList.map Reference.target) name
      ((small.component id).rename new).owner (placeOf large ((small.component id).rename new)) =
      .ok (link.rename new) :=
    resolveFieldPath_rename embeds assembled.wellFormed wide.wellFormed renamed found
  obtain rfl := Except.ok.inj (leads.symm.trans same)
  rw [moved] at sets
  have ends := (index_of_resolveFieldPath assembled.wellFormed
    (assembled.wellFormed.owner_lt inside) found).2.2
  rw [Specification.field_eq (Array.getElem?_eq_getElem ends)]
  exact ⟨sets, Array.getElem?_eq_getElem ends⟩

private theorem getElem?_fields_rename {id : FieldId} {field : Field}
    (present : first.fields[id.index]? = some field) :
    second.fields[(new.field id).index]? = some (field.rename new) := by
  obtain ⟨bindings, bound, targets, settable, attached⟩ := setter_of_run assembled ran
  obtain ⟨others, boundAgain, targetsAgain, settableAgain, attachedAgain⟩ := setter_of_run wide again
  have resolved := (resolved_of_run assembled ran).1
  rw [← Array.getElem?_toList] at present
  obtain ⟨before, original, -⟩ := forall₂_getElem? resolved.fields.flip present
  rw [Array.getElem?_toList] at original present
  have listed : before ∈ small.fields.toList :=
    Array.mem_toList_iff.mpr (Array.mem_of_getElem? original)
  obtain ⟨sequence, member, owned, -⟩ :=
    assembled.wellFormed.preOrder.fieldsListed before listed
  have here := attached sequence member id before original owned.symm
  obtain rfl := Option.some.inj (present.symm.trans here)
  have owner : (before.rename new).owner = (sequence.rename new).id :=
    congrArg new.sequence owned.symm
  rw [attachedAgain (sequence.rename new) (embeds.rename_mem_sequences member) (new.field id)
    (before.rename new) (embeds.fields id before original) owner,
    settersOf_rename embeds assembled.wellFormed member, List.filter_map, List.getLast?_map]
  have sets : (settersOf small sequence).filter
      (setsField large others (new.field id) ∘ new.component) =
      (settersOf small sequence).filter (setsField small bindings id) := by
    refine List.filter_congr fun setter inside => ?_
    have known : setter ∈ fieldSetters small := by
      rw [fieldSetters_eq]
      exact List.mem_flatMap.mpr ⟨sequence, member, inside⟩
    obtain ⟨goal, set⟩ := settable setter known
    obtain ⟨moved, there⟩ := setterField_rename embeds assembled wide ran again bound boundAgain
      targets targetsAgain settableAgain member inside set
    have own := owner_of_setterField assembled.wellFormed bound member inside set
    rw [Function.comp_apply, Bool.eq_iff_iff, setsField_iff, setsField_iff, moved, set,
      Except.ok.injEq, Except.ok.injEq]
    constructor
    · exact embeds.fieldsApart goal id _ before there original (own.trans owned)
    · rintro rfl
      rfl
  rw [sets]
  rfl

/-- **Resolution keeps embeddings.** -/
theorem embeds_of_run : first.Embeds new second := by
  have resolved := (resolved_of_run assembled ran).1
  have resolvedAgain := (resolved_of_run wide again).1
  have origin : ∀ {index : Nat} {field : Field}, first.fields[index]? = some field →
      ∃ before, small.fields[index]? = some before ∧ before.owner = field.owner := by
    intro index field present
    rw [← Array.getElem?_toList] at present
    obtain ⟨before, original, same⟩ := forall₂_getElem? resolved.fields.flip present
    rw [Array.getElem?_toList] at original
    refine ⟨before, original, ?_⟩
    rw [show field = { before with setter := field.setter } from same]
  have source : ∀ {index : Nat} {component : Component .resolved},
      first.components[index]? = some component →
      ∃ before, small.components[index]? = some before ∧ before.owner = component.owner := by
    intro index component present
    rw [← Array.getElem?_toList] at present
    obtain ⟨before, original, same⟩ := forall₂_getElem? resolved.components.flip present
    rw [Array.getElem?_toList] at original
    exact ⟨before, original, same.owner.symm⟩
  refine ⟨?_, ?_, ?_, ?_, ?_, ?_, ?_, ?_, ?_, ?_⟩
  · rw [resolvedAgain.parameters, embeds.parameters, resolved.parameters]
  · rw [resolvedAgain.functions, embeds.functions, resolved.functions]
  · rw [resolvedAgain.enumSets, embeds.enumSets, resolved.enumSets]
  · rw [resolved.functions, resolved.enumSets]
    exact embeds.fixed
  · rw [resolved.sequences, resolvedAgain.sequences]
    exact embeds.sequences
  · exact fun id field present => getElem?_fields_rename embeds assembled wide ran again present
  · exact fun id reference present =>
      getElem?_references_rename embeds wide.wellFormed resolved resolvedAgain present
  · exact fun id component present => getElem?_components_rename embeds assembled.wellFormed
      wide.wellFormed resolved resolvedAgain present
  · intro id another one two left right owned same
    obtain ⟨_, leftRaw, leftOwner⟩ := origin left
    obtain ⟨_, rightRaw, rightOwner⟩ := origin right
    exact embeds.fieldsApart id another _ _ leftRaw rightRaw
      (leftOwner.trans (owned.trans rightOwner.symm)) same
  · intro id another one two left right owned same
    obtain ⟨_, leftRaw, leftOwner⟩ := source left
    obtain ⟨_, rightRaw, rightOwner⟩ := source right
    exact embeds.componentsApart id another _ _ leftRaw rightRaw
      (leftOwner.trans (owned.trans rightOwner.symm)) same

end Run

end Recordgen.Linking

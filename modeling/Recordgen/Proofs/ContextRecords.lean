import Recordgen.Proofs.SetterTargets

/-! # The records that chain members are for

A provider that reads a field of the record being made has a type for the record of its chain, and a
reader for the record that its path starts at. A binder has a type for the record that the reference
setter around it refers to, and a constant for the record that its path ends at. No check ties the
two records of either one together: they agree exactly if the path starts at its holder, or ends at
the referred record (`chain_records`, `stray_records`).
-/

namespace Recordgen

open Outcome

namespace TypeScope

variable {scope : TypeScope} {component : Component .resolved} {arguments : List TypeArgument}

/-- The type of a provider that reads a field is for the record of the chain. -/
theorem memberType_of_contextFieldValueProvider (sort : component.kind = .contextFieldValueProvider)
    (formed : scope.typeArguments component = .ok arguments) :
    ∃ value, scope.memberType component =
      .ok ⟨"ContextFieldValueProvider", [.text value, .text scope.record]⟩ := by
  rw [memberType, formed, sort]
  unfold typeArguments at formed
  rw [sort] at formed
  obtain ⟨type, typed, rfl⟩ := bind_pure_eq_ok_iff.mp formed
  obtain ⟨value, -, rfl⟩ := bind_pure_eq_ok_iff.mp typed
  exact ⟨value, rfl⟩

/-- The type of a binder is for the referred record, and its constant for the record of the field. -/
theorem memberType_of_fieldBinder (sort : component.kind = .fieldBinder) {link : FieldLink}
    (held : component.argument? "field" = some (@Argument.fieldRef .resolved link))
    {target : SequenceId} (known : scope.spec.referenceTarget component = .ok target)
    (formed : scope.typeArguments component = .ok arguments) :
    ∃ value, scope.memberType component =
      .ok ⟨"FieldBinder", [.text (scope.spec.recordClass target),
        .constant (scope.spec.recordClass (scope.spec.field link.field).owner)
          (Naming.constantName (scope.spec.field link.field).name), .memberType value]⟩ := by
  rw [memberType, formed, sort]
  unfold typeArguments at formed
  rw [sort] at formed
  obtain ⟨constant, fixed, formed⟩ := bind_eq_ok_iff.mp formed
  obtain ⟨value, nested, formed⟩ := bind_eq_ok_iff.mp formed
  obtain ⟨record, asked, rfl⟩ := bind_pure_eq_ok_iff.mp formed
  obtain rfl := Except.ok.inj ((fieldConstant_eq held).symm.trans fixed)
  obtain ⟨other, again, rfl⟩ := bind_pure_eq_ok_iff.mp asked
  obtain rfl := Except.ok.inj (known.symm.trans again)
  obtain ⟨name, rfl⟩ := exists_name_of_nestedType nested
  exact ⟨name, rfl⟩

end TypeScope

/-- The function that a provider reads a field with, for records of the given class. -/
def contextReader (record accessors : String) : String :=
  s!"[](const AutoPtr<{record}>& cxt) \x7b return cxt{accessors}; \x7d"

/-- Functions that are called one after the other. -/
def callChain (names : List String) : String :=
  String.join (names.map fun name => s!"->{name}()")

/-- The functions of the references and the field that a link goes along. -/
def FieldLink.accessors (spec : Specification .resolved) (link : FieldLink) : List String :=
  link.inner.map (fun id => Naming.lowerCamel (spec.reference id).name) ++
    [(spec.field link.field).accessor]

namespace ConstructorScope

variable {scope : ConstructorScope} {component : Component .resolved}
  (sort : component.kind = .contextFieldValueProvider) {link : FieldLink}
  (held : component.argument? "field" = some (@Argument.fieldRef .resolved link))

include sort held

/-- A context reader is called with its field-reading function, and with nothing else. -/
theorem constructorArguments_eq_contextReader :
    scope.constructorArguments component =
      .ok [.text (contextReader (scope.spec.recordClass link.root)
        (callChain (link.accessors scope.spec)))] := by
  have reads : scope.fieldReader component "field" =
      .ok (.text (contextReader (scope.spec.recordClass link.root)
        (callChain (link.accessors scope.spec)))) :=
    bind_eq_ok_iff.mpr ⟨link, Component.argumentAs_eq_ok held rfl, rfl⟩
  refine bind_eq_ok_iff.mpr ⟨[[_]], mapM_eq_ok_iff.mpr ?_, rfl⟩
  rw [sort]
  exact .cons (bind_eq_ok_iff.mpr ⟨_, reads, rfl⟩) .nil

/-- A provider that reads a field is constructed with a function on the record that the path starts
at. -/
theorem constructorArguments_of_contextFieldValueProvider :
    ∃ accessors, scope.constructorArguments component =
      .ok [.text (contextReader (scope.spec.recordClass link.root) accessors)] :=
  ⟨_, constructorArguments_eq_contextReader sort held⟩

end ConstructorScope

namespace RecordContext

/-- How a provider in the chain of a sequence reads a field. -/
structure ReadsField (context : RecordContext) (names : ChainNames)
    (provider : Component .resolved) (link : FieldLink) (path : FieldPath) : Prop where
  held : provider.argument? "field" = some (@Argument.fieldRef .resolved link)
  follows : link.Follows context.spec context.sequence path
  typed : ∃ value, (context.typeScope names).memberType provider =
    .ok ⟨"ContextFieldValueProvider", [.text value, .text context.record]⟩
  reader : ∃ accessors, (context.chainScope names).constructorArguments provider =
    .ok [.text (contextReader (context.spec.recordClass link.root) accessors)]
  /-- The path starts at its holder exactly if it names no other sequence. -/
  own : link.root = context.sequence.id ↔
    path.root = none ∨ path.root = some context.sequence.key
  /-- Then the reader is for the record of the type. -/
  agrees : link.root = context.sequence.id →
    context.spec.recordClass link.root = context.record

/-- How a binder in the chain of a sequence binds a field. -/
structure BindsField (context : RecordContext) (names : ChainNames) (binder : Component .resolved)
    (link : FieldLink) (path : FieldPath) (setter : ComponentId) (reference : ReferenceLink) :
    Prop where
  listed : setter ∈ context.sequence.setters
  around : binder.id ∈ context.spec.subtree setter
  sort : (context.spec.component setter).kind = .referenceSetter
  refers : (context.spec.component setter).argument? "reference" =
    some (@Argument.referenceRef .resolved reference)
  held : binder.argument? "field" = some (@Argument.fieldRef .resolved link)
  follows : link.Follows context.spec context.sequence path
  typed : ∃ value, (context.typeScope names).memberType binder =
    .ok ⟨"FieldBinder",
      [.text (context.spec.recordClass (context.spec.reference reference.reference).target),
        .constant (context.spec.recordClass (context.spec.field link.field).owner)
          (Naming.constantName (context.spec.field link.field).name), .memberType value]⟩
  /-- The field belongs to the record of the type exactly if the path ends there. -/
  own : (context.spec.field link.field).owner =
      (context.spec.reference reference.reference).target ↔
    context.spec.Leads link.root link.inner (context.spec.reference reference.reference).target

variable {context : RecordContext} {names : ChainNames} {component : Component .resolved}
  {arguments : List TypeArgument}

private theorem exists_readsField (linked : context.spec.Linked)
    (followed : context.spec.PathsFollowed)
    (member : context.sequence ∈ context.spec.sequences.toList)
    (present : component ∈ context.spec.components.toList)
    (owned : component.owner = some context.sequence.id)
    (sort : component.kind = .contextFieldValueProvider)
    (formed : (context.typeScope names).typeArguments component = .ok arguments) :
    ∃ link path, context.ReadsField names component link path := by
  have wellFormed := linked.wellFormed
  have argument : component.kind.hasArgument "field" (.single .fieldRef) = true := by
    rw [sort]
    rfl
  obtain ⟨link, path, held, follows⟩ := followed.exists_field wellFormed present owned argument
  refine ⟨link, path, held, follows,
    TypeScope.memberType_of_contextFieldValueProvider sort formed,
    ConstructorScope.constructorArguments_of_contextFieldValueProvider sort held,
    follows.starts.eq_holder_iff wellFormed member, ?_⟩
  intro own
  rw [own, recordClass_eq_record wellFormed member]

private theorem exists_bindsField (linked : context.spec.Linked)
    (followed : context.spec.PathsFollowed)
    (member : context.sequence ∈ context.spec.sequences.toList) {id setter : ComponentId}
    (listed : setter ∈ context.sequence.setters) (inside : id ∈ context.spec.subtree setter)
    (sort : (context.spec.component id).kind = .fieldBinder)
    (formed : (context.typeScope names).typeArguments (context.spec.component id) = .ok arguments) :
    ∃ link path reference,
      context.BindsField names (context.spec.component id) link path setter reference := by
  have wellFormed := linked.wellFormed
  obtain ⟨present, placed, owned, -⟩ :=
    wellFormed.chain_member member (List.mem_flatMap.mpr ⟨setter, listed, inside⟩)
  have argument : (context.spec.component id).kind.hasArgument "field" (.single .fieldRef) =
      true := by
    rw [sort]
    rfl
  obtain ⟨link, path, held, follows⟩ := followed.exists_field wellFormed present owned argument
  have under : Specification.WellFormed.underReference (context.spec.component id) :=
    .inr (.inr (by rw [sort]; rfl))
  obtain ⟨outer, reference, refers, known⟩ :=
    referenceTarget_of_subtree linked member listed inside under
  refine ⟨link, path, reference, listed, ?_, outer, refers, held, follows,
    TypeScope.memberType_of_fieldBinder sort held known formed, ?_⟩
  · rw [placed]
    exact inside
  · constructor
    · intro own
      exact own ▸ follows.leads
    · exact follows.leads.unique

end RecordContext

/-- **The records that chain members are for.** A provider that reads a field does so from the record
that its path starts at, which is the record of its type exactly if the path names no other sequence.
A binder binds a field of the record that its path ends at, which is the record of its type exactly
if the reference setter around it refers to that record. -/
theorem chain_records {text : String} {spec : Specification .resolved}
    (read : readDocument text = .ok spec) (targetNamespace : String) {sequence : RecordSequence}
    (member : sequence ∈ spec.sequences.toList) {id : ComponentId}
    (inside : id ∈ spec.chain sequence) :
    ((spec.component id).kind = .contextFieldValueProvider → ∃ link path,
      RecordContext.ReadsField ⟨spec, sequence, targetNamespace⟩ (ChainNames.assign spec sequence)
        (spec.component id) link path) ∧
    ((spec.component id).kind = .fieldBinder → ∃ link path setter reference,
      RecordContext.BindsField ⟨spec, sequence, targetNamespace⟩ (ChainNames.assign spec sequence)
        (spec.component id) link path setter reference) := by
  have linked := linked_of_readDocument read
  have followed := pathsFollowed_of_readDocument read
  obtain ⟨present, -, owned, -⟩ := linked.wellFormed.chain_member member inside
  have typed := RecordContext.exists_typeArguments_of_chain linked member targetNamespace inside
  constructor
  · intro sort
    obtain ⟨arguments, formed⟩ := typed (by simp [sort])
    exact RecordContext.exists_readsField linked followed member present owned sort formed
  · intro sort
    obtain ⟨arguments, formed⟩ := typed (by simp [sort])
    obtain ⟨setter, listed, below⟩ := List.mem_flatMap.mp inside
    obtain ⟨link, path, reference, binds⟩ :=
      RecordContext.exists_bindsField linked followed member listed below sort formed
    exact ⟨link, path, setter, reference, binds⟩

namespace Prototype.Sample

open Markup (Element)

/-- A document in which a provider of the record `a` reads a field of `b`, and a binder under a
reference to `b` binds a field of `a`. -/
def strayRoot : Element :=
  { name := rootName
    children := [
      { name := "record_sequences"
        children := [
          randomSequence "a" [
              { name := "field", attributes := [("name", "x"), ("type", "I32")] },
              { name := "reference", attributes := [("name", "p"), ("type", "b")] }] [
            keyed "setter" "s" "field_setter" [
              link "field" "x",
              nested "value" "context_field_value_provider[I32]" [link "field" "b:y"]],
            keyed "setter" "t" "reference_setter" [
              link "reference" "p",
              nested "value" "random_reference_provider" [
                nested "predicate" "equality_predicate_provider" [
                  nested "binder" "field_binder" [
                    link "field" "x",
                    nested "value" "const_value_provider[I32]" [literal "value" "I32" "1"]]]]]],
          randomSequence "b" [{ name := "field", attributes := [("name", "y"), ("type", "I32")] }]
            []] }] }

/-- The text of the document. -/
def strayText : String :=
  String.ofList strayRoot.print

private theorem parse_strayText : Markup.parse strayText = .ok strayRoot :=
  Markup.Element.parse_print (by decide +kernel)

/-- The field that an argument of a component refers to, if it does. -/
def fieldLink? (component : Component .resolved) : Option FieldLink :=
  (component.argument? "field").bind Argument.fieldRef?

/-- Whether the chain of a random sequence has a provider that reads from another record, and a binder
for a field that the referred record does not have. -/
def strays (spec : Specification .resolved) : Bool :=
  spec.sequences.toList.any fun sequence => sequence.kind == .random &&
    ((spec.chain sequence).any fun id =>
      (spec.component id).kind == .contextFieldValueProvider &&
        (fieldLink? (spec.component id)).any fun link =>
          spec.recordClass link.root != Naming.upperCamel sequence.key) &&
    (spec.chain sequence).any fun id => (spec.component id).kind == .fieldBinder &&
      (fieldLink? (spec.component id)).any fun link =>
        (spec.referenceTarget (spec.component id)).toOption.any fun target =>
          spec.recordClass (spec.field link.field).owner != spec.recordClass target

set_option maxRecDepth 100000 in
private theorem exists_compiled_stray :
    ∃ spec report after, readDocument strayText = .ok spec ∧ strays spec = true ∧
      (spec.plan "Shop").failure = none ∧
      compileInMemory {} "Shop" strayText = (.ok report, after) := by
  refine exists_compiled_of_isRenderable parse_strayText ?_ {} "Shop"
  cbv

theorem held_of_fieldLink? {component : Component .resolved} {link : FieldLink}
    (found : fieldLink? component = some link) :
    component.argument? "field" = some (@Argument.fieldRef .resolved link) := by
  obtain ⟨argument, given, picked⟩ := Option.bind_eq_some_iff.mp found
  rw [given, Argument.eq_fieldRef picked]

/-- The provider and the binder of the sample. -/
theorem exists_stray_members :
    ∃ spec report after, readDocument strayText = .ok spec ∧
      compileInMemory {} "Shop" strayText = (.ok report, after) ∧
      ∃ sequence ∈ spec.sequences.toList, sequence.kind = .random ∧
        (∃ id ∈ spec.chain sequence, (spec.component id).kind = .contextFieldValueProvider ∧
          ∃ link : FieldLink, (spec.component id).argument? "field" =
              some (@Argument.fieldRef .resolved link) ∧
            spec.recordClass link.root ≠ Naming.upperCamel sequence.key) ∧
        ∃ id ∈ spec.chain sequence, (spec.component id).kind = .fieldBinder ∧
          ∃ (link : FieldLink) (target : SequenceId), (spec.component id).argument? "field" =
              some (@Argument.fieldRef .resolved link) ∧
            spec.referenceTarget (spec.component id) = .ok target ∧
            spec.recordClass (spec.field link.field).owner ≠ spec.recordClass target := by
  obtain ⟨spec, report, after, read, strays, -, compiled⟩ := exists_compiled_stray
  obtain ⟨sequence, member, strays⟩ := List.any_eq_true.mp strays
  obtain ⟨strays, binders⟩ := Bool.and_eq_true_iff.mp strays
  obtain ⟨random, providers⟩ := Bool.and_eq_true_iff.mp strays
  refine ⟨spec, report, after, read, compiled, sequence, member, beq_iff_eq.mp random, ?_, ?_⟩
  · obtain ⟨id, inside, reads⟩ := List.any_eq_true.mp providers
    obtain ⟨sort, reads⟩ := Bool.and_eq_true_iff.mp reads
    rw [Option.any_eq_true] at reads
    obtain ⟨link, found, apart⟩ := reads
    exact ⟨id, inside, beq_iff_eq.mp sort, link, held_of_fieldLink? found, bne_iff_ne.mp apart⟩
  · obtain ⟨id, inside, binds⟩ := List.any_eq_true.mp binders
    obtain ⟨sort, binds⟩ := Bool.and_eq_true_iff.mp binds
    simp only [Option.any_eq_true] at binds
    obtain ⟨link, found, target, known, apart⟩ := binds
    exact ⟨id, inside, beq_iff_eq.mp sort, link, target, held_of_fieldLink? found,
      toOption_eq_some_iff.mp known, bne_iff_ne.mp apart⟩

end Prototype.Sample

section

open Prototype.Sample

/-- The provider and the binder of the sample, with the paths that they are written with. -/
theorem stray_chain_records :
    ∃ spec, readDocument strayText = .ok spec ∧ ∃ sequence ∈ spec.sequences.toList,
      (∃ id ∈ spec.chain sequence, (spec.component id).kind = .contextFieldValueProvider ∧
        ∃ link path, RecordContext.ReadsField ⟨spec, sequence, "Shop"⟩
          (ChainNames.assign spec sequence) (spec.component id) link path) ∧
      ∃ id ∈ spec.chain sequence, (spec.component id).kind = .fieldBinder ∧
        ∃ link path setter reference, RecordContext.BindsField ⟨spec, sequence, "Shop"⟩
          (ChainNames.assign spec sequence) (spec.component id) link path setter reference := by
  obtain ⟨spec, -, -, read, -, sequence, member, -, ⟨provider, inChain, reads, -⟩,
    ⟨binder, also, binds, -⟩⟩ := exists_stray_members
  exact ⟨spec, read, sequence, member,
    ⟨provider, inChain, reads, (chain_records read "Shop" member inChain).1 reads⟩,
    ⟨binder, also, binds, (chain_records read "Shop" member also).2 binds⟩⟩

/-- The sample compiles, although the reader of its provider is for another record than the provider
itself, and its binder has a constant of another record than the one that it is for. -/
theorem stray_records :
    ∃ spec report after, readDocument strayText = .ok spec ∧
      compileInMemory {} "Shop" strayText = (.ok report, after) ∧
      ∃ sequence ∈ spec.sequences.toList, sequence.kind = .random ∧
        (∃ id ∈ spec.chain sequence, (spec.component id).kind = .contextFieldValueProvider ∧
          ∃ link : FieldLink, (spec.component id).argument? "field" =
              some (@Argument.fieldRef .resolved link) ∧
            link.root ≠ sequence.id ∧ ∃ record accessors,
              (RecordContext.chainScope ⟨spec, sequence, "Shop"⟩
                (ChainNames.assign spec sequence)).constructorArguments (spec.component id) =
                  .ok [.text (contextReader record accessors)] ∧
              record ≠ RecordContext.record ⟨spec, sequence, "Shop"⟩) ∧
        ∃ id ∈ spec.chain sequence, (spec.component id).kind = .fieldBinder ∧
          ∃ (link : FieldLink) (target : SequenceId), (spec.component id).argument? "field" =
              some (@Argument.fieldRef .resolved link) ∧
            spec.referenceTarget (spec.component id) = .ok target ∧
            (spec.field link.field).owner ≠ target ∧ ∃ record name value,
              (RecordContext.typeScope ⟨spec, sequence, "Shop"⟩
                (ChainNames.assign spec sequence)).memberType (spec.component id) =
                  .ok ⟨"FieldBinder", [.text (spec.recordClass target), .constant record name,
                    .memberType value]⟩ ∧
              record ≠ spec.recordClass target := by
  obtain ⟨spec, report, after, read, compiled, sequence, member, random,
    ⟨provider, inChain, reads, link, held, apart⟩,
    ⟨binder, also, binds, bound, target, holds, known, foreign⟩⟩ := exists_stray_members
  have linked := linked_of_readDocument read
  obtain ⟨arguments, formed⟩ := RecordContext.exists_typeArguments_of_chain linked member "Shop"
    also (by simp [binds])
  refine ⟨spec, report, after, read, compiled, sequence, member, random,
    ⟨provider, inChain, reads, link, held, ?_, ?_⟩,
    ⟨binder, also, binds, bound, target, holds, known, ?_, ?_⟩⟩
  · intro same
    apply apart
    rw [same, Specification.recordClass, linked.wellFormed.sequence_id member]
  · obtain ⟨accessors, called⟩ :=
      ConstructorScope.constructorArguments_of_contextFieldValueProvider reads held
    exact ⟨_, accessors, called, apart⟩
  · intro same
    exact foreign (congrArg spec.recordClass same)
  · obtain ⟨value, type⟩ := TypeScope.memberType_of_fieldBinder binds holds known formed
    exact ⟨_, _, value, type, foreign⟩

end

end Recordgen

import Recordgen.Proofs.FollowedPaths

/-! # What setters set

The type of a setter mentions the constant of what it sets, as a constant of the record that the
chain is for. A field setter is checked when it is linked: its field belongs to its own record, so
the constant is declared. A reference setter is not. Its reference belongs to the record that its
path names, and the constant is sure to be declared only if that is its own record
(`setters_set`, `foreign_reference_undeclared`).
-/

namespace Recordgen

open Outcome

private theorem Kind.eq_of_setter {kind : Kind} (sort : kind.entry.category = .setter) :
    kind = .fieldSetter ∨ kind = .referenceSetter := by
  revert sort
  cases kind <;> decide

namespace TypeScope

variable {scope : TypeScope} {component : Component .resolved} {key : String} {link : ReferenceLink}
  {arguments : List TypeArgument}

theorem fieldConstant_eq {link : FieldLink}
    (held : component.argument? key = some (@Argument.fieldRef .resolved link)) :
    scope.fieldConstant component key =
      .ok (.constant (scope.spec.recordClass (scope.spec.field link.field).owner)
        (Naming.constantName (scope.spec.field link.field).name)) :=
  bind_eq_ok_iff.mpr ⟨link, usable_eq_ok held rfl, rfl⟩

private theorem referenceConstant_eq
    (held : component.argument? key = some (@Argument.referenceRef .resolved link)) :
    scope.referenceConstant component key =
      .ok (.constant scope.record
        (Naming.constantName (scope.spec.reference link.reference).name)) :=
  bind_eq_ok_iff.mpr ⟨link, usable_eq_ok held rfl, rfl⟩

theorem exists_name_of_nestedType {argument : TypeArgument}
    (formed : scope.nestedType component key = .ok argument) :
    ∃ name, argument = .memberType name := by
  obtain ⟨child, -, formed⟩ := bind_eq_ok_iff.mp formed
  obtain ⟨member, -, same⟩ := bind_eq_ok_iff.mp formed
  exact ⟨member.typeName, (pure_eq_ok_iff.mp same).symm⟩

/-- The type of a field setter mentions the constant of the field, for the record of the field. -/
theorem typeArguments_of_fieldSetter (sort : component.kind = .fieldSetter) {link : FieldLink}
    (held : component.argument? "field" = some (@Argument.fieldRef .resolved link))
    (formed : scope.typeArguments component = .ok arguments) :
    ∃ value, arguments = [.text scope.record,
      .constant (scope.spec.recordClass (scope.spec.field link.field).owner)
        (Naming.constantName (scope.spec.field link.field).name), .memberType value] := by
  unfold typeArguments at formed
  rw [sort] at formed
  obtain ⟨constant, fixed, formed⟩ := bind_eq_ok_iff.mp formed
  obtain ⟨value, nested, rfl⟩ := bind_pure_eq_ok_iff.mp formed
  obtain rfl := Except.ok.inj ((fieldConstant_eq held).symm.trans fixed)
  obtain ⟨name, rfl⟩ := exists_name_of_nestedType nested
  exact ⟨name, rfl⟩

/-- The type of a reference setter mentions the constant of the reference, for the record of the
chain. -/
theorem typeArguments_of_referenceSetter (sort : component.kind = .referenceSetter)
    (held : component.argument? "reference" = some (@Argument.referenceRef .resolved link))
    (formed : scope.typeArguments component = .ok arguments) :
    ∃ value, arguments = [.text scope.record,
      .constant scope.record (Naming.constantName (scope.spec.reference link.reference).name),
      .memberType value] := by
  unfold typeArguments at formed
  rw [sort] at formed
  obtain ⟨constant, fixed, formed⟩ := bind_eq_ok_iff.mp formed
  obtain ⟨value, nested, rfl⟩ := bind_pure_eq_ok_iff.mp formed
  obtain rfl := Except.ok.inj ((referenceConstant_eq held).symm.trans fixed)
  obtain ⟨name, rfl⟩ := exists_name_of_nestedType nested
  exact ⟨name, rfl⟩

end TypeScope

namespace RecordContext

variable {context : RecordContext}

/-- All constants that a type mentions are constants of the record that its traits declare. -/
def DeclaresConstants (context : RecordContext) (type : MemberType) : Prop :=
  ∀ record name, .constant record name ∈ type.arguments →
    record = context.record ∧ name ∈ context.traitsMembers.map RecordMember.constant

/-- What a setter in the chain of a sequence sets, together with the type that it has there. -/
inductive Sets (context : RecordContext) (setter : Component .resolved) (type : MemberType) : Prop
  /-- A field setter sets a field of its own record. -/
  | field (link : FieldLink) (sort : setter.kind = .fieldSetter)
      (held : setter.argument? "field" = some (@Argument.fieldRef .resolved link))
      (direct : link.inner = []) (root : link.root = context.sequence.id)
      (owned : (context.spec.field link.field).owner = context.sequence.id)
      (declared : context.DeclaresConstants type)
  /-- A reference setter sets the reference that its path names, whichever record it belongs to. -/
  | reference (link : ReferenceLink) (path : ReferencePath) (sort : setter.kind = .referenceSetter)
      (held : setter.argument? "reference" = some (@Argument.referenceRef .resolved link))
      (follows : link.Follows context.spec context.sequence path)
      (own : (context.spec.reference link.reference).owner = context.sequence.id ↔
        path.record = none ∨ path.record = some context.sequence.key)
      (mentions : ∀ record name, .constant record name ∈ type.arguments ↔
        record = context.record ∧
          name = Naming.constantName (context.spec.reference link.reference).name)
      (declared : (context.spec.reference link.reference).owner = context.sequence.id →
        context.DeclaresConstants type)

/-- A context names the record of its own sequence. -/
theorem recordClass_eq_record (wellFormed : context.spec.WellFormed)
    (member : context.sequence ∈ context.spec.sequences.toList) :
    context.spec.recordClass context.sequence.id = context.record := by
  rw [Specification.recordClass, wellFormed.sequence_id member]
  rfl

/-- The traits of a record declare the constants of its fields and references. -/
theorem mem_constants_iff {name : String} :
    name ∈ context.traitsMembers.map RecordMember.constant ↔
      (∃ id ∈ context.sequence.fields, Naming.constantName (context.spec.field id).name = name) ∨
        ∃ id ∈ context.sequence.references,
          Naming.constantName (context.spec.reference id).name = name := by
  simp only [traitsMembers, members, fields, references, Specification.orderedFields,
    Specification.orderedReferences, List.map_append, List.map_map, List.mem_append, List.mem_map,
    List.mem_mergeSort, exists_exists_and_eq_and]
  rfl

section Chain

variable {spec : Specification .resolved} {sequence : RecordSequence} {id : ComponentId}

/-- The members of a chain have types, those that are ranges over a field apart. -/
theorem exists_typeArguments_of_chain (linked : spec.Linked)
    (member : sequence ∈ spec.sequences.toList) (targetNamespace : String)
    (inside : id ∈ spec.chain sequence)
    (other : (spec.component id).kind ≠ .contextFieldRangeProvider) :
    ∃ arguments, (typeScope ⟨spec, sequence, targetNamespace⟩
      (ChainNames.assign spec sequence)).typeArguments (spec.component id) = .ok arguments :=
  TypeScope.exists_typeArguments linked member (ChainNames.postOrder_perm linked.wellFormed member)
    inside other

/-- The setters of a chain have types. -/
theorem exists_typeArguments_of_setter (linked : spec.Linked)
    (member : sequence ∈ spec.sequences.toList) (targetNamespace : String)
    (listed : id ∈ sequence.setters) :
    ∃ arguments, (typeScope ⟨spec, sequence, targetNamespace⟩
      (ChainNames.assign spec sequence)).typeArguments (spec.component id) = .ok arguments := by
  have wellFormed := linked.wellFormed
  obtain ⟨-, -, sort, -⟩ := wellFormed.component_of_setter member listed
  refine exists_typeArguments_of_chain linked member targetNamespace
    (wellFormed.mem_chain_of_setter listed) fun range => ?_
  rw [range] at sort
  cases sort

end Chain

variable {names : ChainNames} {setter : Component .resolved} {arguments : List TypeArgument}

section

variable (linked : context.spec.Linked) (followed : context.spec.PathsFollowed)
  (member : context.sequence ∈ context.spec.sequences.toList)
  (present : setter ∈ context.spec.components.toList)
  (owned : setter.owner = some context.sequence.id)

include linked followed member present owned

/-- Field setters stay with their own record. -/
theorem sets_of_fieldSetter (sort : setter.kind = .fieldSetter)
    (formed : (context.typeScope names).typeArguments setter = .ok arguments) :
    context.Sets setter ⟨setter.kind.entry.className, arguments⟩ := by
  have wellFormed := linked.wellFormed
  have argument : setter.kind.hasArgument "field" (.single .fieldRef) = true := by
    rw [sort]
    rfl
  obtain ⟨link, path, held, follows⟩ := followed.exists_field wellFormed present owned argument
  obtain ⟨direct, own⟩ := followed.setters setter present sort link held
  have owner : (context.spec.field link.field).owner = context.sequence.id :=
    Option.some.inj (own.trans owned)
  have root : link.root = context.sequence.id := by
    have leads := follows.leads
    rw [direct] at leads
    exact (leads.unique (.stay link.root)).symm.trans owner
  refine .field link sort held direct root owner ?_
  obtain ⟨value, rfl⟩ := TypeScope.typeArguments_of_fieldSetter sort held formed
  intro record name mentioned
  have listed := follows.listed
  rw [owner, wellFormed.sequence_id member] at listed
  simp only [List.mem_cons, List.not_mem_nil, or_false, reduceCtorEq, false_or,
    TypeArgument.constant.injEq] at mentioned
  obtain ⟨rfl, rfl⟩ := mentioned
  refine ⟨?_, mem_constants_iff.mpr (.inl ⟨_, listed, rfl⟩)⟩
  change context.spec.recordClass (context.spec.field link.field).owner = _
  rw [owner, recordClass_eq_record wellFormed member]

/-- Reference setters go where their paths lead. -/
theorem sets_of_referenceSetter (sort : setter.kind = .referenceSetter)
    (formed : (context.typeScope names).typeArguments setter = .ok arguments) :
    context.Sets setter ⟨setter.kind.entry.className, arguments⟩ := by
  have wellFormed := linked.wellFormed
  have argument : setter.kind.hasArgument "reference" (.single .referenceRef) = true := by
    rw [sort]
    rfl
  obtain ⟨link, path, held, follows⟩ := followed.exists_reference wellFormed present owned argument
  obtain ⟨value, rfl⟩ := TypeScope.typeArguments_of_referenceSetter sort held formed
  have mentions : ∀ record name, TypeArgument.constant record name ∈
      [.text context.record, .constant context.record
        (Naming.constantName (context.spec.reference link.reference).name), .memberType value] ↔
      record = context.record ∧
        name = Naming.constantName (context.spec.reference link.reference).name := by
    simp
  refine .reference link path sort held follows ?_ mentions ?_
  · rw [follows.owner]
    exact follows.starts.eq_holder_iff wellFormed member
  · intro own record name mentioned
    obtain ⟨rfl, rfl⟩ := (mentions record name).mp mentioned
    have listed := follows.listed
    rw [← follows.owner, own, wellFormed.sequence_id member] at listed
    exact ⟨rfl, mem_constants_iff.mpr (.inr ⟨_, listed, rfl⟩)⟩

end

end RecordContext

/-- **What setters set.** Every setter of a document belongs to a sequence and has a type in its
chain. A field setter sets a field of the record of its sequence, and a reference setter does so
exactly if its path names no other record. Then the constants that the type mentions are declared
for this record. -/
theorem setters_set {text : String} {spec : Specification .resolved}
    (read : readDocument text = .ok spec) (targetNamespace : String)
    {setter : Component .resolved} (present : setter ∈ spec.components.toList)
    (sort : setter.kind.entry.category = .setter) :
    ∃ sequence ∈ spec.sequences.toList, setter.id ∈ sequence.setters ∧
      setter.owner = some sequence.id ∧
      ∃ type, (RecordContext.typeScope ⟨spec, sequence, targetNamespace⟩
          (ChainNames.assign spec sequence)).memberType setter = .ok type ∧
        RecordContext.Sets ⟨spec, sequence, targetNamespace⟩ setter type := by
  have linked := linked_of_readDocument read
  have wellFormed := linked.wellFormed
  have followed := pathsFollowed_of_readDocument read
  obtain ⟨sequence, member, listed⟩ := wellFormed.exists_sequence_of_setter present sort
  have same := wellFormed.component_id present
  have owned := (wellFormed.component_of_setter member listed).2.2.2
  rw [same] at owned
  obtain ⟨arguments, formed⟩ :=
    RecordContext.exists_typeArguments_of_setter linked member targetNamespace listed
  rw [same] at formed
  refine ⟨sequence, member, listed, owned, _, bind_eq_ok_iff.mpr ⟨arguments, formed, rfl⟩, ?_⟩
  rcases Kind.eq_of_setter sort with field | reference
  · exact RecordContext.sets_of_fieldSetter linked followed member present owned field formed
  · exact RecordContext.sets_of_referenceSetter linked followed member present owned reference formed

namespace Prototype.Sample

open Markup (Element)

/-- The reference setter, for the reference at the given path. -/
def referenceSetterFor (path : String) : Element :=
  { referenceSetter with children := link "reference" path :: referenceSetter.children.tail }

/-- A random sequence with the given record type and setters. -/
def randomSequence (key : String) (members setters : List Element) : Element :=
  { name := "random_sequence"
    attributes := [("key", key)]
    children := [
      { name := "record_type", children := members },
      { name := "setter_chain", children := setters },
      { name := "cardinality_estimator"
        attributes := [("type", "const_estimator")]
        children := [literal "cardinality" "I64u" "1"] }] }

/-- A field of numbers. -/
def numberField (name : String) : Element :=
  { name := "field", attributes := [("name", name), ("type", "I32")] }

/-- A document in which a setter of the record `a` is for a reference of the record `b`. -/
def foreignRoot : Element :=
  { name := rootName
    children := [
      { name := "record_sequences"
        children := [
          randomSequence "a" [{ name := "field", attributes := [("name", "x"), ("type", "I32")] }] [
            keyed "setter" "s" "field_setter" [
              link "field" "x",
              nested "value" "const_value_provider[I32]" [literal "value" "I32" "0"]],
            referenceSetterFor "b:q"],
          randomSequence "b" [{ name := "reference", attributes := [("name", "q"), ("type", "a")] }]
            []] }] }

/-- The text of the document. -/
def foreignText : String :=
  String.ofList foreignRoot.print

private theorem parse_foreignText : Markup.parse foreignText = .ok foreignRoot :=
  Markup.Element.parse_print (by decide +kernel)

/-- Whether a reference setter of a sequence is for a reference of another record, with a constant
that its own record does not have. -/
def setsForeign (spec : Specification .resolved) : Bool :=
  spec.sequences.toList.any fun sequence => sequence.setters.any fun id =>
    (spec.component id).kind == .referenceSetter &&
      (((spec.component id).argument? "reference").bind Argument.referenceRef?).any fun link =>
        (spec.reference link.reference).owner != sequence.id &&
          !(sequence.fields.map (fun id => Naming.constantName (spec.field id).name) ++
            sequence.references.map fun id =>
              Naming.constantName (spec.reference id).name).contains
                (Naming.constantName (spec.reference link.reference).name)

set_option maxRecDepth 100000 in
private theorem exists_compiled_foreign :
    ∃ spec report after, readDocument foreignText = .ok spec ∧ setsForeign spec = true ∧
      (spec.plan "Shop").failure = none ∧
      compileInMemory {} "Shop" foreignText = (.ok report, after) := by
  refine exists_compiled_of_isRenderable parse_foreignText ?_ {} "Shop"
  cbv

/-- The setter of the sample that is for a reference of another record. -/
theorem exists_foreign_setter :
    ∃ spec report after, readDocument foreignText = .ok spec ∧
      compileInMemory {} "Shop" foreignText = (.ok report, after) ∧
      ∃ sequence ∈ spec.sequences.toList, ∃ id ∈ sequence.setters,
        (spec.component id).kind = .referenceSetter ∧ ∃ link : ReferenceLink,
          (spec.component id).argument? "reference" =
              some (@Argument.referenceRef .resolved link) ∧
            (spec.reference link.reference).owner ≠ sequence.id ∧
            Naming.constantName (spec.reference link.reference).name ∉
              (RecordContext.traitsMembers ⟨spec, sequence, "Shop"⟩).map
                RecordMember.constant := by
  obtain ⟨spec, report, after, read, foreign, -, compiled⟩ := exists_compiled_foreign
  obtain ⟨sequence, member, foreign⟩ := List.any_eq_true.mp foreign
  obtain ⟨id, listed, foreign⟩ := List.any_eq_true.mp foreign
  obtain ⟨sort, foreign⟩ := Bool.and_eq_true_iff.mp foreign
  rw [Option.any_eq_true] at foreign
  obtain ⟨link, picked, foreign⟩ := foreign
  obtain ⟨owner, undeclared⟩ := Bool.and_eq_true_iff.mp foreign
  have held : (spec.component id).argument? "reference" =
      some (@Argument.referenceRef .resolved link) := by
    obtain ⟨argument, found, picked⟩ := Option.bind_eq_some_iff.mp picked
    rw [found, Argument.eq_referenceRef picked]
  refine ⟨spec, report, after, read, compiled, sequence, member, id, listed, beq_iff_eq.mp sort,
    link, held, bne_iff_ne.mp owner, ?_⟩
  simpa [RecordContext.mem_constants_iff] using undeclared

end Prototype.Sample

section

open Prototype.Sample

/-- The setter for a reference of another record, in the chain that it belongs to. -/
theorem foreign_setters_set :
    ∃ spec, readDocument foreignText = .ok spec ∧ ∃ setter ∈ spec.components.toList,
      setter.kind = .referenceSetter ∧
      ∃ sequence ∈ spec.sequences.toList, setter.id ∈ sequence.setters ∧
        setter.owner = some sequence.id ∧
        ∃ type, (RecordContext.typeScope ⟨spec, sequence, "Shop"⟩
            (ChainNames.assign spec sequence)).memberType setter = .ok type ∧
          RecordContext.Sets ⟨spec, sequence, "Shop"⟩ setter type := by
  obtain ⟨spec, -, -, read, -, sequence, member, id, listed, sort, -⟩ := exists_foreign_setter
  obtain ⟨present, -, category, -⟩ :=
    (linked_of_readDocument read).wellFormed.component_of_setter member listed
  have inside := Specification.mem_components present
  exact ⟨spec, read, spec.component id, inside, sort, setters_set read "Shop" inside category⟩

/-- The sample compiles, although the type of one of its reference setters mentions a constant that
its record does not declare. -/
theorem foreign_reference_undeclared :
    ∃ spec report after, readDocument foreignText = .ok spec ∧
      compileInMemory {} "Shop" foreignText = (.ok report, after) ∧
      ∃ sequence ∈ spec.sequences.toList, ∃ id ∈ sequence.setters,
        (spec.component id).kind = .referenceSetter ∧ ∃ link : ReferenceLink,
          (spec.component id).argument? "reference" =
              some (@Argument.referenceRef .resolved link) ∧
            (spec.reference link.reference).owner ≠ sequence.id ∧
            ∃ type, (RecordContext.typeScope ⟨spec, sequence, "Shop"⟩
                (ChainNames.assign spec sequence)).memberType (spec.component id) = .ok type ∧
              ¬RecordContext.DeclaresConstants ⟨spec, sequence, "Shop"⟩ type := by
  obtain ⟨spec, report, after, read, compiled, sequence, member, id, listed, sort, link, held,
    foreign, undeclared⟩ := exists_foreign_setter
  obtain ⟨arguments, formed⟩ := RecordContext.exists_typeArguments_of_setter
    (linked_of_readDocument read) member "Shop" listed
  refine ⟨spec, report, after, read, compiled, sequence, member, id, listed, sort, link, held,
    foreign, _, bind_eq_ok_iff.mpr ⟨arguments, formed, rfl⟩, fun declares => undeclared ?_⟩
  obtain ⟨value, rfl⟩ := TypeScope.typeArguments_of_referenceSetter sort held formed
  exact (declares _ _ (List.mem_cons_of_mem _ List.mem_cons_self)).2

end

end Recordgen

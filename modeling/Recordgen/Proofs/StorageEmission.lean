import Recordgen.Proofs.DeclarationOrder
import Recordgen.Proofs.StorageOrder

/-! # Headers of rearranged sequences

What is rendered for a sequence reads its lists sorted by order key. The one list that is used as it
is stored holds the variables that the setters claim, and it is only asked whether a variable is in
it. So the plan of a specification is the plan of the specification with rearranged lists
(`Specification.plan_withSequences`), and compiling gives the same report and the same files.
-/

namespace Recordgen

open Outcome

/-! ## Names -/

/-- Which numbers are passed over does not depend on the order of the names that are taken. -/
theorem firstFree_perm {name : Nat → String} {taken others : List String}
    (same : others.Perm taken) (tries start : Nat) :
    firstFree name others tries start = firstFree name taken tries start := by
  induction tries generalizing start with
  | zero => rfl
  | succ tries ih => rw [firstFree, firstFree, same.contains_eq, ih]

namespace ChainNames

/-- The members of a chain, with other reserved variables. -/
def reserving (names : ChainNames) (reserved : List String) : ChainNames :=
  { names with reserved := reserved }

variable {names : ChainNames} {reserved : List String}

@[simp] theorem taken_reserving : (names.reserving reserved).taken = names.taken := rfl

@[simp] theorem reserved_reserving : (names.reserving reserved).reserved = reserved := rfl

@[simp] theorem postOrder_reserving : (names.reserving reserved).postOrder = names.postOrder := rfl

@[simp] theorem find?_reserving : (names.reserving reserved).find? = names.find? := rfl

@[simp] theorem get_reserving : (names.reserving reserved).get = names.get := rfl

private theorem nameSetter_reserving (same : reserved.Perm names.reserved)
    (setter : Component .resolved) :
    (names.reserving reserved).nameSetter setter = (names.nameSetter setter).reserving reserved := by
  have blocked : (names.taken ++ reserved).Perm (names.taken ++ names.reserved) :=
    same.append_left names.taken
  have variable_eq : (names.reserving reserved).setterVariable setter.key =
      names.setterVariable setter.key := by
    simp only [setterVariable, taken_reserving, reserved_reserving, firstFree_perm blocked,
      blocked.length_eq]
  simp only [nameSetter, variable_eq]
  rfl

private theorem nameNested_reserving (same : reserved.Perm names.reserved)
    (component : Component .resolved) :
    (names.reserving reserved).nameNested component =
      (names.nameNested component).reserving reserved := by
  have blocked : (names.taken ++ reserved).Perm (names.taken ++ names.reserved) :=
    same.append_left names.taken
  simp only [nameNested, taken_reserving, reserved_reserving, firstFree_perm blocked,
    blocked.length_eq]
  rfl

private theorem reserved_visit (spec : Specification .resolved) (event : WalkEvent) :
    (visit spec names event).reserved = names.reserved := by
  unfold visit
  split
  · rfl
  · dsimp only
    split <;> rfl
  · rfl

private theorem visit_reserving (spec : Specification .resolved)
    (same : reserved.Perm names.reserved) (event : WalkEvent) :
    visit spec (names.reserving reserved) event = (visit spec names event).reserving reserved := by
  unfold visit
  split
  · exact nameSetter_reserving same _
  · dsimp only
    split
    · exact nameNested_reserving same _
    · rfl
  · rfl

private theorem foldl_visit_reserving (spec : Specification .resolved) (names : ChainNames)
    (events : List WalkEvent) (same : reserved.Perm names.reserved) :
    events.foldl (visit spec) (names.reserving reserved) =
      (events.foldl (visit spec) names).reserving reserved := by
  induction events generalizing names with
  | nil => rfl
  | cons event events ih =>
      rw [List.foldl_cons, List.foldl_cons, visit_reserving spec same]
      apply ih
      rw [reserved_visit]
      exact same

end ChainNames

namespace Specification

variable {spec : Specification .resolved} {sequences : Array RecordSequence}

/-- The names of a chain are the same, except for the order of the reserved variables. -/
theorem assign_withSequences (sequences : Array RecordSequence) (wellFormed : spec.WellFormed)
    {sequence other : RecordSequence} (member : sequence ∈ spec.sequences.toList)
    (same : sequence.Rearranged other) :
    ∃ reserved, ChainNames.assign (spec.withSequences sequences) other =
      (ChainNames.assign spec sequence).reserving reserved := by
  let claimed (id : ComponentId) := Naming.member (spec.component id).key
  refine ⟨other.setters.map claimed, ?_⟩
  have walked : (spec.withSequences sequences).walkSequence other = spec.walkSequence sequence :=
    walkSequence_rearranged wellFormed member same
  rw [ChainNames.assign, walked]
  have reordered : (other.setters.map claimed).Perm (sequence.setters.map claimed) :=
    same.setters.map claimed
  exact ChainNames.foldl_visit_reserving spec { reserved := sequence.setters.map claimed }
    (spec.walkSequence sequence) reordered

/-! ## What surrounds a component -/

@[simp] theorem boundSetter_withSequences :
    (spec.withSequences sequences).boundSetter = spec.boundSetter := rfl

@[simp] theorem outermost_withSequences :
    (spec.withSequences sequences).outermost = spec.outermost := by
  have each (depth : Nat) (component : Component .resolved) :
      (spec.withSequences sequences).ancestor depth component = spec.ancestor depth component := by
    induction depth generalizing component with
    | zero => rfl
    | succ depth ih => simp only [ancestor, component_withSequences, ih]
  funext component
  exact each _ component

@[simp] theorem referenceTarget_withSequences :
    (spec.withSequences sequences).referenceTarget = spec.referenceTarget := by
  funext component
  rw [referenceTarget, referenceTarget, outermost_withSequences]
  rfl

/-- Another order of the sequences gives no record another class. -/
theorem Rearranges.recordClass_eq (stored : spec.Rearranges sequences) :
    (spec.withSequences sequences).recordClass = spec.recordClass := by
  funext id
  rw [recordClass, recordClass, stored.key_eq]

end Specification

/-! ## Members of a chain -/

private theorem TypeScope.memberType_withSequences {spec : Specification .resolved}
    (stored : spec.Rearranges sequences) (names : ChainNames) (reserved : List String)
    (record chainBase : String) :
    memberType ⟨spec.withSequences sequences, names.reserving reserved, record, chainBase⟩ =
      memberType ⟨spec, names, record, chainBase⟩ := by
  funext component
  simp only [memberType, typeArguments, fieldConstant, referenceConstant, nestedType, functionType,
    setterType, targetRecord, stored.recordClass_eq, Specification.field_withSequences,
    Specification.reference_withSequences, Specification.component_withSequences,
    Specification.boundSetter_withSequences, Specification.referenceTarget_withSequences,
    ChainNames.get_reserving, ChainNames.find?_reserving]

namespace ConstructorScope

variable {sequences : Array RecordSequence}

/-- A scope in which only what the sequences store is different. -/
theorem constructorArguments_withSequences {spec : Specification .resolved}
    (stored : spec.Rearranges sequences) (config : String) (names : Option ChainNames)
    (reserved : List String) (chainBase : Option String) :
    constructorArguments ⟨spec.withSequences sequences, config,
        names.map fun names => names.reserving reserved, chainBase⟩ =
      constructorArguments ⟨spec, config, names, chainBase⟩ := by
  have directives : directiveArguments ⟨spec.withSequences sequences, config,
      names.map fun names => names.reserving reserved, chainBase⟩ =
      directiveArguments ⟨spec, config, names, chainBase⟩ := by
    funext component directive
    cases directive with
    | nested key =>
        cases names <;> rfl
    | fieldSetter key =>
        cases names <;> rfl
    | _ =>
      simp only [directiveArguments, functionLookup, inspector, callbackPointer, fieldReader,
        stored.recordClass_eq, Specification.field_withSequences,
        Specification.reference_withSequences, Specification.component_withSequences,
        Specification.referenceTarget_withSequences]
  funext component
  rw [constructorArguments, constructorArguments, directives]

/-- Outside of a chain no names are used. -/
theorem argumentTexts_withSequences {spec : Specification .resolved}
    (stored : spec.Rearranges sequences) (config : String) :
    argumentTexts { spec := spec.withSequences sequences, config := config } =
      argumentTexts { spec := spec, config := config } := by
  have constructed := constructorArguments_withSequences stored config none [] none
  funext component
  rw [argumentTexts, argumentTexts, ← constructed]
  rfl

end ConstructorScope

/-! ## Headers -/

namespace RecordContext

variable {spec : Specification .resolved} {sequences : Array RecordSequence}
  {sequence other : RecordSequence} (stored : spec.Rearranges sequences)
  (wellFormed : spec.WellFormed) (member : sequence ∈ spec.sequences.toList)
  (same : sequence.Rearranged other) (targetNamespace : String)

section Parts

include same

private theorem record_rearranged : record ⟨spec.withSequences sequences, other, targetNamespace⟩ =
    record ⟨spec, sequence, targetNamespace⟩ := by
  simp only [record, same.key]

private theorem artifact_rearranged :
    artifact ⟨spec.withSequences sequences, other, targetNamespace⟩ =
    artifact ⟨spec, sequence, targetNamespace⟩ := by
  funext kind
  simp only [artifact, same.key]

include wellFormed member

private theorem fields_rearranged : fields ⟨spec.withSequences sequences, other, targetNamespace⟩ =
    fields ⟨spec, sequence, targetNamespace⟩ :=
  Specification.orderedFields_rearranged wellFormed member same

private theorem references_rearranged :
    references ⟨spec.withSequences sequences, other, targetNamespace⟩ =
      references ⟨spec, sequence, targetNamespace⟩ :=
  Specification.orderedReferences_rearranged wellFormed member same

private theorem warnings_rearranged :
    warnings ⟨spec.withSequences sequences, other, targetNamespace⟩ =
    warnings ⟨spec, sequence, targetNamespace⟩ := by
  simp only [warnings, fields_rearranged wellFormed member same, same.key]

private theorem metaHeaders_rearranged :
    metaHeaders ⟨spec.withSequences sequences, other, targetNamespace⟩ =
      metaHeaders ⟨spec, sequence, targetNamespace⟩ := by
  have tables : enumTable? ⟨spec.withSequences sequences, other, targetNamespace⟩ =
      enumTable? ⟨spec, sequence, targetNamespace⟩ := by
    funext field
    simp only [enumTable?, same.key]
  simp only [metaHeaders, enumTables, tables, fields_rearranged wellFormed member same,
    artifact_rearranged same]

include stored

private theorem members_rearranged :
    members ⟨spec.withSequences sequences, other, targetNamespace⟩ =
    members ⟨spec, sequence, targetNamespace⟩ := by
  funext qualify
  simp only [members, fields_rearranged wellFormed member same,
    references_rearranged wellFormed member same, stored.recordClass_eq]

private theorem recordHeaders_rearranged :
    recordHeaders ⟨spec.withSequences sequences, other, targetNamespace⟩ =
      recordHeaders ⟨spec, sequence, targetNamespace⟩ := by
  simp only [recordHeaders, writer, writerBody, delimitedFormat?, forwardDeclarations,
    declaredMembers, storedMembers, derivedMembers, artifact_rearranged same,
    members_rearranged stored wellFormed member same, fields_rearranged wellFormed member same,
    references_rearranged wellFormed member same, stored.recordClass_eq, same.outputFormat,
    Specification.component_withSequences]

private theorem utilHeaders_rearranged :
    utilHeaders ⟨spec.withSequences sequences, other, targetNamespace⟩ =
      utilHeaders ⟨spec, sequence, targetNamespace⟩ := by
  have classes : qualified ⟨spec.withSequences sequences, other, targetNamespace⟩ =
      qualified ⟨spec, sequence, targetNamespace⟩ := rfl
  simp only [utilHeaders, recordTraits, memberEnumeration, traitsMembers, classes,
    artifact_rearranged same, record_rearranged same,
    members_rearranged stored wellFormed member same]

end Parts

section Chain

variable (names : ChainNames) (reserved : List String)

include same

private theorem chainBase_rearranged :
    chainBase ⟨spec.withSequences sequences, other, targetNamespace⟩ =
      chainBase ⟨spec, sequence, targetNamespace⟩ := by
  rw [chainBase, chainBase, artifact_rearranged same]

include stored

private theorem chainDeclaration_rearranged :
    chainDeclaration ⟨spec.withSequences sequences, other, targetNamespace⟩
        (names.reserving reserved) =
      chainDeclaration ⟨spec, sequence, targetNamespace⟩ names := by
  funext id
  have constructed := congrFun (ConstructorScope.constructorArguments_withSequences stored "config"
    (some names) reserved (some (chainBase ⟨spec, sequence, targetNamespace⟩))) (spec.component id)
  simp only [chainDeclaration, chainScope, typeScope, chainBase_rearranged same,
    record_rearranged same, TypeScope.memberType_withSequences stored,
    Specification.component_withSequences, ChainNames.get_reserving]
  rw [← constructed]
  rfl

private theorem chainDeclarations_rearranged (types : KeyMap String) (ids : List ComponentId) :
    chainDeclarations ⟨spec.withSequences sequences, other, targetNamespace⟩
        (names.reserving reserved) types ids =
      chainDeclarations ⟨spec, sequence, targetNamespace⟩ names types ids := by
  have added : addCallback ⟨spec.withSequences sequences, other, targetNamespace⟩ =
      addCallback ⟨spec, sequence, targetNamespace⟩ := by
    funext types callback
    simp only [addCallback, same.key]
  induction ids generalizing types with
  | nil => rfl
  | cons id ids ih =>
      simp only [chainDeclarations, chainDeclaration_rearranged stored same, added, ih,
        Specification.component_withSequences]

include wellFormed member

private theorem chainHeaders_rearranged :
    chainHeaders ⟨spec.withSequences sequences, other, targetNamespace⟩ (names.reserving reserved) =
      chainHeaders ⟨spec, sequence, targetNamespace⟩ names := by
  have setters : (spec.withSequences sequences).orderedSetters other = spec.orderedSetters sequence :=
    Specification.orderedSetters_rearranged wellFormed member same
  have includes : memberIncludes ⟨spec.withSequences sequences, other, targetNamespace⟩ =
      memberIncludes ⟨spec, sequence, targetNamespace⟩ := by
    funext id
    simp only [memberIncludes, Specification.component_withSequences,
      Specification.reference_withSequences, stored.key_eq]
  have hooks : callbackHook ⟨spec.withSequences sequences, other, targetNamespace⟩ =
      callbackHook ⟨spec, sequence, targetNamespace⟩ := by
    funext callback
    rw [callbackHook, callbackHook, record_rearranged same]
  have stubs : callbackStub ⟨spec.withSequences sequences, other, targetNamespace⟩ =
      callbackStub ⟨spec, sequence, targetNamespace⟩ := by
    funext callback
    rw [callbackStub, callbackStub, record_rearranged same]
  simp only [chainHeaders, chainConstructor, chainApplication, chainFilter, setters, includes, hooks,
    stubs, chainDeclarations_rearranged stored same, chainBase_rearranged same,
    artifact_rearranged same, record_rearranged same, same.key, ChainNames.postOrder_reserving,
    ChainNames.get_reserving, Specification.component_withSequences]

end Chain

section Generator

include stored same

private theorem generatorHeaders_rearranged :
    generatorHeaders ⟨spec.withSequences sequences, other, targetNamespace⟩ =
      generatorHeaders ⟨spec, sequence, targetNamespace⟩ := by
  have plain : plainArguments ⟨spec.withSequences sequences, other, targetNamespace⟩ =
      plainArguments ⟨spec, sequence, targetNamespace⟩ := by
    funext config component
    simp only [plainArguments, ConstructorScope.argumentTexts_withSequences stored]
  have tasks : iteratorTask ⟨spec.withSequences sequences, other, targetNamespace⟩ =
      iteratorTask ⟨spec, sequence, targetNamespace⟩ := by
    funext task
    rw [iteratorTask, iteratorTask, plain, record_rearranged same]
  simp only [generatorHeaders, estimator, plain, tasks, artifact_rearranged same,
    record_rearranged same, same.estimator, same.sequenceIterator, same.key,
    Specification.component_withSequences]

include wellFormed member

private theorem headers_rearranged :
    headers ⟨spec.withSequences sequences, other, targetNamespace⟩ =
      headers ⟨spec, sequence, targetNamespace⟩ := by
  obtain ⟨reserved, named⟩ := Specification.assign_withSequences sequences wellFormed member same
  rw [headers, headers, metaHeaders_rearranged wellFormed member same,
    recordHeaders_rearranged stored wellFormed member same,
    utilHeaders_rearranged stored wellFormed member same, generatorHeaders_rearranged stored same]
  simp only [named, chainHeaders_rearranged stored wellFormed member same]

end Generator

end RecordContext

/-! ## Plans -/

namespace Specification

variable {spec : Specification .resolved} {sequences : Array RecordSequence}
  (stored : spec.Rearranges sequences) (targetNamespace : String)

include stored

private theorem configHeaders_withSequences :
    (spec.withSequences sequences).configHeaders targetNamespace =
      spec.configHeaders targetNamespace := by
  have registered : (spec.withSequences sequences).registrationArguments =
      spec.registrationArguments := by
    funext component
    simp only [registrationArguments, configScope,
      ConstructorScope.argumentTexts_withSequences stored]
  have functions : (spec.withSequences sequences).functionRegistration =
      spec.functionRegistration := by
    funext id
    rw [functionRegistration, functionRegistration, registered]
    rfl
  have enumSets : (spec.withSequences sequences).enumSetRegistration =
      spec.enumSetRegistration := by
    funext id
    rw [enumSetRegistration, enumSetRegistration, registered]
    rfl
  rw [configHeaders, configHeaders, functions, enumSets]
  rfl

private theorem subsystemHeaders_rearranged :
    subsystemHeaders sequences.toList targetNamespace =
      subsystemHeaders spec.sequences.toList targetNamespace := by
  have randoms := forall₂_filter (fun sequence => sequence.kind == .random) stored
    fun _ _ same => by rw [same.kind]
  have registered := map_eq_map_of_forall₂ randoms fun sequence other both =>
    show other.generatorRegistration targetNamespace = sequence.generatorRegistration targetNamespace by
      rw [RecordSequence.generatorRegistration, RecordSequence.generatorRegistration,
        RecordSequence.generator, RecordSequence.generator, both.2.key]
  have included := map_eq_map_of_forall₂ randoms fun sequence other both =>
    show other.generator.leafPath = sequence.generator.leafPath by
      rw [RecordSequence.generator, RecordSequence.generator, both.2.key]
  simp only [subsystemHeaders, registered, included]

variable (wellFormed : spec.WellFormed)

include wellFormed

private theorem sequenceSteps_rearranged {sequence other : RecordSequence}
    (member : sequence ∈ spec.sequences.toList) (same : sequence.Rearranged other) :
    (spec.withSequences sequences).sequenceSteps targetNamespace other =
      spec.sequenceSteps targetNamespace sequence := by
  rw [sequenceSteps, sequenceSteps, same.kind]
  cases sequence.kind with
  | random =>
      simp only [RecordContext.warnings_rearranged wellFormed member same,
        RecordContext.headers_rearranged stored wellFormed member same]
  | unsupported element => simp only [same.key]

/-- **The plan does not depend on the order in which lists are stored.** -/
theorem plan_withSequences :
    (spec.withSequences sequences).plan targetNamespace = spec.plan targetNamespace := by
  have planned (final : List PlanStep) {before after : List RecordSequence}
      (all : List.Forall₂ (fun sequence other => sequence ∈ spec.sequences.toList ∧
        sequence.Rearranged other) before after) :
      (spec.withSequences sequences).planSequences targetNamespace final after =
        spec.planSequences targetNamespace final before := by
    induction all with
    | nil => rfl
    | cons both _ ih =>
        rw [planSequences, planSequences,
          sequenceSteps_rearranged stored targetNamespace wellFormed both.1 both.2, ih]
  simp only [plan, configHeaders_withSequences stored, withSequences_sequences,
    subsystemHeaders_rearranged stored, planned _ stored.members]

end Specification

/-! ## Compilation -/

variable {text : String} {spec : Specification .raw} {sequences : Array RecordSequence}

/-- Compiling a document is compiling the specification that it is read as. -/
theorem compileInMemory_eq (parsed : Prototype.parse text = .ok spec) (store : MemoryStore)
    (targetNamespace : String) :
    compileInMemory store targetNamespace text = compileSpecification store targetNamespace spec := by
  rw [compileInMemory, compileDocument, readDocument, parsed]
  rfl

/-- A specification with rearranged lists is resolved to one with rearranged lists. -/
theorem resolve_withSequences (stored : spec.Rearranges sequences) (wellFormed : spec.WellFormed) :
    Linking.resolve (spec.withSequences sequences) =
      (·.withSequences sequences) <$> Linking.resolve spec := by
  rw [Linking.resolve, Linking.resolve, Linking.run_withSequences stored wellFormed]
  cases Linking.run spec <;> rfl

/-- **Order keys decide what is written.** If the lists of any sequences of a document are stored in
another order, compiling gives the same result, be it an error or a report, and leaves the same
store, which are those of the document. -/
theorem compile_rearranged (parsed : Prototype.parse text = .ok spec)
    {sequences : Array RecordSequence} (stored : spec.Rearranges sequences) (store : MemoryStore)
    (targetNamespace : String) :
    compileSpecification store targetNamespace (spec.withSequences sequences) =
        compileSpecification store targetNamespace spec ∧
      compileSpecification store targetNamespace spec =
        compileInMemory store targetNamespace text := by
  refine ⟨?_, (compileInMemory_eq parsed store targetNamespace).symm⟩
  have assembled := Prototype.parse_assembled parsed
  rw [compileSpecification, compileSpecification, resolve_withSequences stored assembled.wellFormed]
  cases outcome : Linking.resolve spec with
  | error fault => rfl
  | ok resolved =>
      obtain ⟨⟨result, summary⟩, ran, rfl⟩ := map_eq_ok_iff.mp outcome
      have linked := Linking.linked_of_run assembled ran
      have kept : result.sequences = spec.sequences :=
        (Linking.resolved_of_run assembled ran).1.sequences
      have rearranged : result.Rearranges sequences := by
        rw [Specification.Rearranges, kept]
        exact stored
      have planned := Specification.plan_withSequences rearranged targetNamespace linked.wellFormed
      change (memorySink.runPlan ((result.withSequences sequences).plan targetNamespace)).run store =
        (memorySink.runPlan (result.plan targetNamespace)).run store
      rw [planned]

namespace Prototype.Sample

/-- A sequence with its lists stored in the opposite order. -/
def turned (sequence : RecordSequence) : RecordSequence :=
  { sequence with
    fields := sequence.fields.reverse
    references := sequence.references.reverse
    setters := sequence.setters.reverse }

private theorem rearranges_turned (spec : Specification .raw) :
    spec.Rearranges (spec.sequences.map turned) := by
  have each : ∀ sequence ∈ spec.sequences.toList, sequence.Rearranged (turned sequence) := by
    intro sequence _
    exact ⟨rfl, rfl, rfl, List.reverse_perm _, List.reverse_perm _, rfl, List.reverse_perm _, rfl,
      rfl⟩
  rw [Specification.Rearranges, Array.toList_map, List.forall₂_map_right_iff, List.forall₂_same]
  exact each

/-- The handles of the fields and of the setters of the sequences that a reading gives. -/
def storedLists : Except CompileError (Specification .raw) → List (List Nat × List Nat)
  | .ok spec => spec.sequences.toList.map fun sequence =>
      (sequence.fields.map FieldId.index, sequence.setters.map ComponentId.index)
  | .error _ => []

end Prototype.Sample

open Prototype Prototype.Sample in
/-- A chain with two setters is compiled as before when its setters, and the fields that they set,
are stored in the opposite order. -/
theorem forward_compiled_turned :
    ∃ spec report after, parse forwardText = .ok spec ∧
      storedLists (.ok spec) = [([0, 1, 2], [1, 4])] ∧
      storedLists (.ok (spec.withSequences (spec.sequences.map turned))) = [([2, 1, 0], [4, 1])] ∧
      compileSpecification {} "Shop" (spec.withSequences (spec.sequences.map turned)) =
        (.ok report, after) := by
  obtain ⟨_, report, after, read, -, -, compiled⟩ := exists_compiled_forward
  obtain ⟨spec, parsed, -⟩ := bind_eq_ok_iff.mp read
  have found : readRoot forwardRoot = .ok spec :=
    (parse_eq_readRoot parse_forwardText).symm.trans parsed
  have lists : storedLists (readRoot forwardRoot) = [([0, 1, 2], [1, 4])] := by decide +kernel
  have others : storedLists ((fun spec => spec.withSequences (spec.sequences.map turned)) <$>
      readRoot forwardRoot) = [([2, 1, 0], [4, 1])] := by decide +kernel
  rw [found] at lists others
  obtain ⟨same, whole⟩ := compile_rearranged parsed (rearranges_turned spec) {} "Shop"
  exact ⟨spec, report, after, parsed, lists, others, same.trans (whole.trans compiled)⟩

end Recordgen

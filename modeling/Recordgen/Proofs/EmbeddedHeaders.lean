import Recordgen.Proofs.EmbeddedMembers

/-! # Rendering the headers of an embedded specification

The five headers of a sequence are rendered from its own parts, from the functions and from the keys
of the records that it refers to. In a specification that its own is embedded in they are rendered in
the same way (`RecordContext.headers_rename`), and so is the configuration
(`Specification.Within.configHeaders_rename`).
-/

namespace Recordgen

open Outcome

variable {new : Renaming}

def ChainDeclaration.rename (new : Renaming) (declaration : ChainDeclaration) : ChainDeclaration :=
  { declaration with member := declaration.member.rename new }

private theorem DelimitedFormat.option_rename {format : Component .resolved} {key : String} :
    Carries id (option format key) (option (format.rename new) key) := by
  unfold option
  rw [Component.argument?_rename]
  cases format.argument? key with
  | none => exact .throw
  | some argument =>
      rw [Option.map_some, Option.bind_some, Option.bind_some, Argument.literal?_rename]
      cases argument.literal? with
      | none => exact .throw
      | some literal =>
          dsimp only
          by_cases plain : literal.form.isPlain = true
          · rw [if_pos plain, if_pos plain]
            exact .of_eq rfl
          · rw [if_neg plain]
            exact .throw

private theorem DelimitedFormat.writeFields_rename (format : DelimitedFormat)
    (fields : List Field) :
    format.writeFields (fields.map (Field.rename new)) = format.writeFields fields := by
  induction fields with
  | nil => rfl
  | cons field rest ih =>
      cases rest with
      | nil => rfl
      | cons next rest =>
          change _ :: _ :: format.writeFields ((next :: rest).map (Field.rename new)) = _
          rw [ih]
          rfl

/-- A root of a specification stands in its arena. -/
theorem Specification.HasRoot.present {spec : Specification .resolved} {category : Category}
    {owner : Option SequenceId} {id : ComponentId} (rooted : spec.HasRoot category owner id) :
    spec.components[id.index]? = some (spec.component id) := by
  obtain ⟨component, found, -⟩ := rooted
  rw [found, component_eq found]

namespace RecordContext

variable {small large : Specification .resolved} (within : small.Within new large)
  {sequence : RecordSequence} (member : sequence ∈ small.sequences.toList)
  {targetNamespace : String}

section Record

include within member

private theorem fields_rename : fields ⟨large, sequence.rename new, targetNamespace⟩ =
    (fields ⟨small, sequence, targetNamespace⟩).map (Field.rename new) :=
  within.embeds.orderedFields_eq within.linked.wellFormed member

private theorem references_rename : references ⟨large, sequence.rename new, targetNamespace⟩ =
    (references ⟨small, sequence, targetNamespace⟩).map (Reference.rename new) :=
  within.embeds.orderedReferences_eq within.linked.wellFormed member

/-- The class of the record that a reference of the sequence refers to. -/
theorem referredClass_eq {reference : Reference .resolved}
    (listed : reference ∈ references ⟨small, sequence, targetNamespace⟩) :
    large.recordClass (reference.rename new).target = small.recordClass reference.target := by
  obtain ⟨id, known, rfl⟩ := List.mem_map.mp ((List.mergeSort_perm _ _).mem_iff.mp listed)
  have placed := within.linked.wellFormed.sequence_id member
  rw [← placed] at known
  have present := (within.linked.wellFormed.reference_of_listed known).1
  refine within.recordClass_eq (within.lead.targets _ ?_)
  exact Array.mem_toList_iff.mpr (Array.mem_of_getElem? present)

private theorem members_rename (qualify : String → String) :
    members ⟨large, sequence.rename new, targetNamespace⟩ qualify =
      members ⟨small, sequence, targetNamespace⟩ qualify := by
  unfold members
  rw [fields_rename within member, references_rename within member, List.map_map, List.map_map]
  refine congrArg₂ (· ++ ·) rfl (List.map_congr_left fun reference listed => ?_)
  rw [Function.comp_apply, referredClass_eq within member listed]
  rfl

private theorem forwardDeclarations_rename :
    forwardDeclarations ⟨large, sequence.rename new, targetNamespace⟩ =
      forwardDeclarations ⟨small, sequence, targetNamespace⟩ := by
  have classes : (references ⟨large, sequence.rename new, targetNamespace⟩).map (fun reference =>
      large.recordClass reference.target) =
      (references ⟨small, sequence, targetNamespace⟩).map fun reference =>
        small.recordClass reference.target := by
    rw [references_rename within member, List.map_map]
    exact List.map_congr_left fun reference listed => referredClass_eq within member listed
  unfold forwardDeclarations
  dsimp only
  rw [classes]

private theorem metaHeaders_rename :
    Carries id (metaHeaders ⟨small, sequence, targetNamespace⟩)
      (metaHeaders ⟨large, sequence.rename new, targetNamespace⟩) := by
  have tables : Carries id (enumTables ⟨small, sequence, targetNamespace⟩)
      (enumTables ⟨large, sequence.rename new, targetNamespace⟩) := by
    unfold enumTables
    rw [fields_rename within member]
    exact .bind (.mapM_same fun field _ => .of_eq rfl) fun _ _ => .pure rfl
  exact .bind tables fun _ _ => .pure rfl

private theorem delimitedFormat?_rename :
    Carries id (delimitedFormat? ⟨small, sequence, targetNamespace⟩)
      (delimitedFormat? ⟨large, sequence.rename new, targetNamespace⟩) := by
  have shaped := within.linked.wellFormed.sequences sequence member
  unfold delimitedFormat?
  dsimp only [RecordSequence.rename]
  cases listed : sequence.outputFormat with
  | none => exact .of_eq rfl
  | some handle =>
      have image := within.embeds.component_eq (shaped.outputFormat handle listed).present
      rw [Option.map_some, Option.map_some, Option.map_some, image]
      have kind : ((small.component handle).rename new).kind = (small.component handle).kind := rfl
      rw [Option.filter_some, Option.filter_some, kind]
      by_cases delimited : ((small.component handle).kind == .csvOutputFormat) = true
      · rw [if_pos delimited, if_pos delimited]
        have read : Carries id (DelimitedFormat.ofComponent (small.component handle))
            (DelimitedFormat.ofComponent ((small.component handle).rename new)) := by
          refine .bind DelimitedFormat.option_rename fun _ _ => ?_
          exact .bind DelimitedFormat.option_rename fun _ _ => .pure rfl
        intro format found
        obtain ⟨value, given, rfl⟩ := map_eq_ok_iff.mp found
        exact map_eq_ok_iff.mpr ⟨value, read value given, rfl⟩
      · rw [if_neg delimited, if_neg delimited]
        exact .of_eq rfl

private theorem recordHeaders_rename :
    Carries id (recordHeaders ⟨small, sequence, targetNamespace⟩)
      (recordHeaders ⟨large, sequence.rename new, targetNamespace⟩) := by
  have writer : Carries id (writer ⟨small, sequence, targetNamespace⟩)
      (writer ⟨large, sequence.rename new, targetNamespace⟩) := by
    refine .bind (delimitedFormat?_rename within member) fun format _ => .pure ?_
    cases format with
    | none => rfl
    | some format =>
        dsimp only [id, writerBody]
        rw [fields_rename within member, DelimitedFormat.writeFields_rename]
  refine .bind writer fun _ _ => .pure ?_
  unfold storedMembers declaredMembers derivedMembers
  rw [forwardDeclarations_rename within member, members_rename within member]
  rfl

private theorem utilHeaders_rename : utilHeaders ⟨large, sequence.rename new, targetNamespace⟩ =
    utilHeaders ⟨small, sequence, targetNamespace⟩ := by
  have members : traitsMembers ⟨large, sequence.rename new, targetNamespace⟩ =
      traitsMembers ⟨small, sequence, targetNamespace⟩ :=
    members_rename within member _
  unfold utilHeaders recordTraits memberEnumeration
  rw [members]
  rfl

omit member in
private theorem plainArguments_rename {config : String} {component : Component .resolved}
    (present : component ∈ small.components.toList) :
    Carries id (plainArguments ⟨small, sequence, targetNamespace⟩ config component)
      (plainArguments ⟨large, sequence.rename new, targetNamespace⟩ config
        (component.rename new)) :=
  .bind (ConstructorScope.argumentTexts_rename within present fun _ known => nomatch known)
    fun _ _ => .pure rfl

private theorem generatorHeaders_rename :
    Carries id (generatorHeaders ⟨small, sequence, targetNamespace⟩)
      (generatorHeaders ⟨large, sequence.rename new, targetNamespace⟩) := by
  have shaped := within.linked.wellFormed.sequences sequence member
  have estimator : Carries (Component.rename new) (estimator ⟨small, sequence, targetNamespace⟩)
      (estimator ⟨large, sequence.rename new, targetNamespace⟩) := by
    unfold estimator
    dsimp only [RecordSequence.rename]
    cases listed : sequence.estimator with
    | none => exact .throw
    | some handle =>
        dsimp only [Option.map_some]
        rw [within.embeds.component_eq (shaped.estimator handle listed).present]
        exact .pure rfl
  have tasks : (sequence.rename new).sequenceIterator.toList.map large.component =
      (sequence.sequenceIterator.toList.map small.component).map (Component.rename new) := by
    rw [RecordSequence.rename, Option.toList_map, List.map_map, List.map_map]
    refine List.map_congr_left fun handle listed => ?_
    exact within.embeds.component_eq
      (shaped.sequenceIterator handle (Option.mem_toList.mp listed)).present
  refine .bind estimator fun found read => ?_
  have present : found ∈ small.components.toList := by
    unfold RecordContext.estimator at read
    dsimp only at read
    split at read
    · rename_i handle listed
      obtain rfl := Except.ok.inj read
      exact Specification.mem_components (shaped.estimator handle listed).present
    · cases read
  refine .bind (plainArguments_rename within present) fun _ _ => ?_
  dsimp only
  rw [tasks]
  refine .bind (.mapM_same fun task listed => ?_) fun steps _ => .pure ?_
  · obtain ⟨handle, iterates, rfl⟩ := List.mem_map.mp listed
    have inside := Specification.mem_components
      (shaped.sequenceIterator handle (Option.mem_toList.mp iterates)).present
    exact .bind (plainArguments_rename within inside) fun _ _ => .pure rfl
  · generalize sequence.sequenceIterator.toList.map small.component = tasks
    have headers : (tasks.map (Component.rename new)).map (fun task => task.kind.entry.header) =
        tasks.map fun task => task.kind.entry.header := List.map_map
    rw [headers]
    rfl

end Record

/-! ## Setter chains -/

section Steps

variable (declarations : List ChainDeclaration) (setters : List ChainMember)

private theorem chainTypes_rename :
    chainTypes (declarations.map (ChainDeclaration.rename new)) = chainTypes declarations := by
  have steps : (declarations.map (ChainDeclaration.rename new)).map ChainDeclaration.typeStep =
      declarations.map ChainDeclaration.typeStep := List.map_map
  unfold chainTypes
  rw [List.isEmpty_map, steps]

private theorem variableSteps_rename :
    (declarations.map (ChainDeclaration.rename new)).map ChainDeclaration.variableStep =
      declarations.map ChainDeclaration.variableStep :=
  List.map_map

private theorem chainConstructor_rename :
    chainConstructor ⟨large, sequence.rename new, targetNamespace⟩
        (declarations.map (ChainDeclaration.rename new)) =
      chainConstructor ⟨small, sequence, targetNamespace⟩ declarations := by
  have calls : (declarations.map (ChainDeclaration.rename new)).map ChainDeclaration.initialiser =
      declarations.map ChainDeclaration.initialiser := List.map_map
  unfold chainConstructor
  rw [calls]
  rfl

private theorem chainApplication_rename :
    chainApplication ⟨large, sequence.rename new, targetNamespace⟩
        (setters.map (ChainMember.rename new)) =
      chainApplication ⟨small, sequence, targetNamespace⟩ setters := by
  unfold chainApplication
  rw [List.map_map]
  rfl

private theorem chainFilter_rename :
    chainFilter ⟨large, sequence.rename new, targetNamespace⟩
        (setters.map (ChainMember.rename new)) =
      chainFilter ⟨small, sequence, targetNamespace⟩ setters := by
  unfold chainFilter
  rw [List.map_map]
  rfl

end Steps

section Chain

variable {names : ChainNames} (apart : names.KeptApart new)

include within apart

private theorem chainDeclaration_rename {id : ComponentId}
    (present : small.components[id.index]? = some (small.component id)) :
    Carries (ChainDeclaration.rename new)
      (chainDeclaration ⟨small, sequence, targetNamespace⟩ names id)
      (chainDeclaration ⟨large, sequence.rename new, targetNamespace⟩ (names.rename new)
        (new.component id)) := by
  have listed := Specification.mem_components present
  have known : ∀ other ∈ some names, other.KeptApart new :=
    fun other same => Option.some.inj same ▸ apart
  unfold chainDeclaration
  dsimp only
  rw [within.embeds.component_eq present]
  refine .bind (ConstructorScope.constructorArguments_rename within listed known) fun _ _ => ?_
  refine .bind (TypeScope.memberType_rename within listed apart) fun _ _ => ?_
  exact .bind (ChainNames.get_rename apart) fun _ _ => .pure rfl

private theorem chainDeclarations_rename (types : KeyMap String) {ids : List ComponentId}
    (inside : ∀ id ∈ ids, small.components[id.index]? = some (small.component id)) :
    Carries (Prod.map (List.map (ChainDeclaration.rename new)) id)
      (chainDeclarations ⟨small, sequence, targetNamespace⟩ names types ids)
      (chainDeclarations ⟨large, sequence.rename new, targetNamespace⟩ (names.rename new) types
        (ids.map new.component)) := by
  induction ids generalizing types with
  | nil => exact .pure rfl
  | cons handle rest ih =>
      obtain ⟨present, later⟩ := List.forall_mem_cons.mp inside
      have callback : Carries id (callback? (small.component handle))
          (callback? (large.component (new.component handle))) := by
        rw [within.embeds.component_eq present]
        unfold callback?
        have kind : ((small.component handle).rename new).kind = (small.component handle).kind := rfl
        rw [kind]
        by_cases sort : ((small.component handle).kind == .callbackValueProvider) = true
        · rw [if_pos sort, if_pos sort]
          refine .bind Component.callbackName_rename fun _ _ => ?_
          exact .of_eq rfl
        · rw [if_neg sort, if_neg sort]
          exact .of_eq rfl
      rw [List.map_cons, chainDeclarations, chainDeclarations]
      refine .bind callback fun declared _ => ?_
      -- Whatever the callback adds to the types, the member is declared and then the others.
      have onward : ∀ types, Carries (Prod.map (List.map (ChainDeclaration.rename new)) id)
          (do
            let declaration ← chainDeclaration ⟨small, sequence, targetNamespace⟩ names handle
            let result ← chainDeclarations ⟨small, sequence, targetNamespace⟩ names types rest
            return (declaration :: result.1, result.2))
          (do
            let declaration ← chainDeclaration ⟨large, sequence.rename new, targetNamespace⟩
              (names.rename new) (new.component handle)
            let result ← chainDeclarations ⟨large, sequence.rename new, targetNamespace⟩
              (names.rename new) types (rest.map new.component)
            return (declaration :: result.1, result.2)) := by
        intro types
        refine .bind (chainDeclaration_rename within apart present) fun _ _ => ?_
        exact .bind (ih types later) fun _ _ => .pure rfl
      cases declared with
      | some callback => exact .bind (.of_eq rfl) fun types _ => onward types
      | none => exact .bind (.of_eq rfl) fun types _ => onward types

omit apart in
private theorem memberIncludes_rename {id : ComponentId}
    (present : small.components[id.index]? = some (small.component id)) :
    memberIncludes ⟨large, sequence.rename new, targetNamespace⟩ (new.component id) =
      memberIncludes ⟨small, sequence, targetNamespace⟩ id := by
  unfold memberIncludes
  dsimp only
  rw [within.embeds.component_eq present, Component.argument?_rename]
  cases held : (small.component id).argument? "reference" with
  | none => rfl
  | some argument =>
      rw [Option.map_some, Option.bind_some, Option.bind_some, Argument.referenceRef?_rename]
      cases picked : argument.referenceRef? with
      | none => rfl
      | some link =>
          rw [Argument.eq_referenceRef picked] at held
          have inside := within.lead.references _ (Specification.mem_components present)
            "reference" link held
          have same : (link.rename new).reference = new.reference link.reference := rfl
          dsimp only [Option.map_some]
          rw [same, within.targetKey_eq inside]

/-- **Setter chains** do not depend on handles. -/
theorem chainHeaders_rename (member : sequence ∈ small.sequences.toList)
    (inside : ∀ id ∈ names.postOrder, small.components[id.index]? = some (small.component id)) :
    Carries id (chainHeaders ⟨small, sequence, targetNamespace⟩ names)
      (chainHeaders ⟨large, sequence.rename new, targetNamespace⟩ (names.rename new)) := by
  have headers : (names.postOrder.map new.component).map (fun id =>
      (large.component id).kind.entry.header) =
      names.postOrder.map fun id => (small.component id).kind.entry.header := by
    rw [List.map_map]
    refine List.map_congr_left fun id listed => ?_
    rw [Function.comp_apply, within.embeds.component_eq (inside id listed)]
    rfl
  have includes : (names.postOrder.map new.component).flatMap
      (memberIncludes ⟨large, sequence.rename new, targetNamespace⟩) =
      names.postOrder.flatMap (memberIncludes ⟨small, sequence, targetNamespace⟩) := by
    rw [List.flatMap_map]
    exact List.flatMap_congr fun id listed => memberIncludes_rename within (inside id listed)
  have setters := within.embeds.orderedSetters_eq within.linked.wellFormed member
  unfold chainHeaders
  dsimp only
  rw [ChainNames.postOrder_rename, setters, List.filter_map]
  refine .bind (chainDeclarations_rename within apart {} inside) fun declared _ => ?_
  refine .bind (.mapM fun setter _ => ChainNames.get_rename apart) fun applied _ => ?_
  refine .bind (.mapM fun setter _ => ChainNames.get_rename apart) fun filtering _ => ?_
  refine .pure ?_
  dsimp only [Prod.map]
  rw [headers, includes, chainTypes_rename, chainConstructor_rename, chainApplication_rename,
    chainFilter_rename, variableSteps_rename]
  rfl

end Chain

include within member

/-- **Headers** of a sequence do not depend on what else a specification holds. -/
theorem headers_rename :
    Carries id (headers ⟨small, sequence, targetNamespace⟩)
      (headers ⟨large, sequence.rename new, targetNamespace⟩) := by
  have wellFormed := within.linked.wellFormed
  have apart := ChainNames.keptApart_assign within.embeds wellFormed member
  have inside : ∀ id ∈ (ChainNames.assign small sequence).postOrder,
      small.components[id.index]? = some (small.component id) := by
    intro id listed
    obtain ⟨known, placed, -⟩ := wellFormed.chain_member member
      ((ChainNames.postOrder_perm wellFormed member).mem_iff.mp listed)
    have present := wellFormed.getElem?_id known
    rwa [placed] at present
  unfold headers
  dsimp only
  rw [ChainNames.assign_rename within.embeds wellFormed within.wide member,
    utilHeaders_rename within member]
  refine .bind (metaHeaders_rename within member) fun _ _ => ?_
  refine .bind (recordHeaders_rename within member) fun _ _ => ?_
  refine .bind (chainHeaders_rename within apart member inside) fun _ _ => ?_
  exact .bind (generatorHeaders_rename within member) fun _ _ => .pure rfl

end RecordContext

/-! ## The configuration -/

namespace Specification.Within

variable {small large : Specification .resolved} (within : Within new small large)

include within

private theorem registrationArguments_rename {component : Component .resolved}
    (present : component ∈ small.components.toList) :
    Carries id (small.registrationArguments component)
      (large.registrationArguments (component.rename new)) :=
  .bind (ConstructorScope.argumentTexts_rename within present fun _ known => nomatch known)
    fun _ _ => .pure rfl

/-- Functions and enumerations keep their handles. -/
theorem component_of_fixed {id : ComponentId}
    (listed : id ∈ small.functions.values ++ small.enumSets.values) :
    small.component id ∈ small.components.toList ∧
      large.component id = (small.component id).rename new := by
  have wellFormed := within.linked.wellFormed
  have present : small.components[id.index]? = some (small.component id) := by
    rcases List.mem_append.mp listed with function | enumSet
    · exact (wellFormed.functions id function).present
    · exact (wellFormed.enumSets id enumSet).present
  have image := within.embeds.component_eq present
  rw [within.embeds.fixed id listed] at image
  exact ⟨mem_components present, image⟩

/-- **Configurations** do not depend on the sequences of a specification. -/
theorem configHeaders_rename (targetNamespace : String) :
    Carries id (small.configHeaders targetNamespace) (large.configHeaders targetNamespace) := by
  have functions : Carries id (small.functions.values.mapM small.functionRegistration)
      ((small.functions.values.map id).mapM large.functionRegistration) := by
    refine .mapM_same fun handle listed => ?_
    obtain ⟨present, image⟩ := within.component_of_fixed (List.mem_append_left _ listed)
    unfold functionRegistration
    dsimp only [id]
    rw [image]
    refine .bind (within.registrationArguments_rename present) fun _ _ => ?_
    exact .of_eq rfl
  have enumSets : Carries id (small.enumSets.values.mapM small.enumSetRegistration)
      ((small.enumSets.values.map id).mapM large.enumSetRegistration) := by
    refine .mapM_same fun handle listed => ?_
    obtain ⟨present, image⟩ := within.component_of_fixed (List.mem_append_right _ listed)
    unfold enumSetRegistration
    dsimp only [id]
    rw [image]
    exact .bind (within.registrationArguments_rename present) fun _ _ => .pure rfl
  have headers : (small.functions.values ++ small.enumSets.values).map (fun id =>
      (large.component id).kind.entry.header) =
      (small.functions.values ++ small.enumSets.values).map fun id =>
        (small.component id).kind.entry.header := by
    refine List.map_congr_left fun id listed => ?_
    rw [(within.component_of_fixed listed).2]
    rfl
  rw [List.map_id] at functions enumSets
  unfold configHeaders
  dsimp only
  rw [within.embeds.functions, within.embeds.enumSets, within.embeds.parameters, headers]
  refine .bind functions fun _ _ => ?_
  exact .bind enumSets fun _ _ => .pure rfl

end Specification.Within

end Recordgen

import Recordgen.Proofs.EmbeddedChain

/-! # Rendering the components of an embedded specification

The type of a component and the arguments of its constructor mention other parts by their names, keys
and classes. So whatever is rendered for a component is rendered in the same way for the component
that corresponds to it, in a specification that its own is embedded in
(`TypeScope.typeArguments_rename`, `ConstructorScope.constructorArguments_rename`). Errors can differ:
they mention handles.
-/

namespace Recordgen

open Outcome

variable {new : Renaming}

namespace Component

variable {component : Component .resolved} {key : String}

private theorem argument_rename : Carries (Argument.rename new) (component.argument key)
    ((component.rename new).argument key) := by
  intro argument found
  rw [Component.argument, argument?_rename, argument?_of_argument found]
  rfl

private theorem argumentAs_rename {α β : Type} {change : α → β} {expected : String}
    {select : Argument .resolved → Option α} {other : Argument .resolved → Option β}
    (picks : ∀ argument, other (argument.rename new) = (select argument).map change) :
    Carries change (component.argumentAs key expected select)
      ((component.rename new).argumentAs key expected other) := by
  refine .bind argument_rename fun argument _ => ?_
  rw [picks]
  cases select argument with
  | some value => exact .pure rfl
  | none => exact .throw

private theorem literalArgument_rename :
    Carries (fun literal => literal) (component.literalArgument key)
    ((component.rename new).literalArgument key) := by
  refine argumentAs_rename fun argument => ?_
  rw [Argument.literal?_rename, Option.map_id']

private theorem fieldArgument_rename : Carries (FieldLink.rename new) (component.fieldArgument key)
    ((component.rename new).fieldArgument key) :=
  argumentAs_rename Argument.fieldRef?_rename

private theorem functionArgument_rename : Carries new.component (component.functionArgument key)
    ((component.rename new).functionArgument key) :=
  argumentAs_rename Argument.functionRef?_rename

theorem callbackName_rename : Carries (fun name => name) (component.callbackName key)
    ((component.rename new).callbackName key) := by
  refine .bind literalArgument_rename fun literal _ => ?_
  exact .of_eq rfl

end Component

/-! ## What surrounds a component -/

namespace Specification

variable {spec : Specification .resolved} {component : Component .resolved}

private theorem ancestor_add (spec : Specification .resolved) (first more : Nat)
    (component : Component .resolved) :
    spec.ancestor (first + more) component = spec.ancestor more (spec.ancestor first component) := by
  induction first generalizing component with
  | zero => rw [Nat.zero_add, ancestor]
  | succ first ih =>
      rw [Nat.succ_add, ancestor, ancestor]
      cases under : component.parent with
      | some parent => exact ih (spec.component parent)
      | none => exact (ancestor_of_root under more).symm

/-- Wherever going up ends, it ends at the outermost component. -/
theorem ancestor_eq_outermost (wellFormed : spec.WellFormed)
    (member : component ∈ spec.components.toList) {depth : Nat}
    (top : (spec.ancestor depth component).parent = none) :
    spec.ancestor depth component = spec.outermost component := by
  have ends := (wellFormed.outermost_root member).1
  rcases Nat.le_total depth spec.components.size with less | more
  · obtain ⟨rest, whole⟩ := Nat.exists_eq_add_of_le less
    rw [outermost, whole, ancestor_add, ancestor_of_root top]
  · obtain ⟨rest, whole⟩ := Nat.exists_eq_add_of_le more
    rw [whole, ancestor_add]
    exact ancestor_of_root ends rest

private theorem referenceTarget_eq_ok_iff {target : SequenceId} :
    spec.referenceTarget component = .ok target ↔
      (spec.outermost component).kind = .referenceSetter ∧ ∃ link : ReferenceLink,
        (spec.outermost component).argument? "reference" =
            some (@Argument.referenceRef .resolved link) ∧
          (spec.reference link.reference).target = target := by
  unfold referenceTarget
  dsimp only
  generalize spec.outermost component = setter
  by_cases sort : setter.kind = .referenceSetter
  · have isReference : (setter.kind == .referenceSetter) = true := beq_iff_eq.mpr sort
    rw [isReference]
    cases held : setter.argument? "reference" with
    | none =>
        refine iff_of_false (fun found => nomatch found) ?_
        rintro ⟨-, link, found, -⟩
        cases found
    | some argument =>
        cases argument with
        | referenceRef link =>
            constructor
            · intro found
              exact ⟨sort, link, rfl, pure_eq_ok_iff.mp found⟩
            · rintro ⟨-, other, same, rfl⟩
              obtain ⟨⟩ := Option.some.inj same
              rfl
        | literal | fieldRef | functionRef | component | collection =>
            refine iff_of_false (fun found => nomatch found) ?_
            rintro ⟨-, link, found, -⟩
            cases found
  · have isOther : (setter.kind == .referenceSetter) = false := beq_eq_false_iff_ne.mpr sort
    rw [isOther]
    exact iff_of_false (fun found => nomatch found) fun found => sort found.1

/-- A linked specification that is embedded in a well-formed one. -/
structure Within (new : Renaming) (small large : Specification .resolved) : Prop where
  embeds : small.Embeds new large
  linked : small.Linked
  lead : small.LinksLead
  wide : large.WellFormed

namespace Within

variable {small large : Specification .resolved} (within : Within new small large)
  {id : ReferenceId}

include within

theorem field_eq {id : FieldId} (inside : id.index < small.fields.size) :
    large.field (new.field id) = (small.field id).rename new :=
  within.embeds.field_eq (Array.getElem?_eq_getElem inside)

theorem reference_eq (inside : id.index < small.references.size) :
    large.reference (new.reference id) = (small.reference id).rename new :=
  within.embeds.reference_eq (Array.getElem?_eq_getElem inside)

theorem recordClass_eq {id : SequenceId} (inside : id.index < small.sequences.size) :
    large.recordClass (new.sequence id) = small.recordClass id :=
  within.embeds.recordClass_eq (Array.getElem?_eq_getElem inside)

/-- The key of a reference's target. -/
theorem targetKey_eq (inside : id.index < small.references.size) :
    (large.sequence (large.reference (new.reference id)).target).key =
      (small.sequence (small.reference id).target).key := by
  have present : small.references[id.index]? = some (small.reference id) := by
    rw [Specification.reference_eq (Array.getElem?_eq_getElem inside)]
    exact Array.getElem?_eq_getElem inside
  have led := within.lead.targets _
    (Array.mem_toList_iff.mpr (Array.mem_of_getElem? present))
  have same : ((small.reference id).rename new).target =
      new.sequence (small.reference id).target := rfl
  rw [within.reference_eq inside, same, within.embeds.sequence_eq (Array.getElem?_eq_getElem led)]
  rfl

/-- The record class of a field's owner. -/
theorem ownerClass_eq {id : FieldId} (inside : id.index < small.fields.size) :
    large.recordClass (large.field (new.field id)).owner =
      small.recordClass (small.field id).owner := by
  have present : small.fields[id.index]? = some (small.field id) := by
    rw [Specification.field_eq (Array.getElem?_eq_getElem inside)]
    exact Array.getElem?_eq_getElem inside
  obtain ⟨sequence, listed, owned, -⟩ := within.linked.wellFormed.preOrder.fieldsListed
    (small.field id) (Array.mem_toList_iff.mpr (Array.mem_of_getElem? present))
  rw [within.field_eq inside]
  refine within.recordClass_eq ?_
  rw [← owned]
  exact within.linked.wellFormed.index_lt_of_mem listed

section Component

variable {component : Component .resolved} (member : component ∈ small.components.toList)
  {key : String}

include member

private theorem mem_rename : component.rename new ∈ large.components.toList :=
  mem_components
    (within.embeds.components _ _ (within.linked.wellFormed.getElem?_id member))

private theorem ancestor_rename (depth : Nat) :
    large.ancestor depth (component.rename new) = (small.ancestor depth component).rename new := by
  induction depth generalizing component with
  | zero => rfl
  | succ depth ih =>
      rw [ancestor, ancestor]
      cases under : component.parent with
      | none =>
          have top : (component.rename new).parent = none := by
            rw [Component.rename, under, Option.map_none]
          rw [top]
      | some parent =>
          have above : (component.rename new).parent = some (new.component parent) := by
            rw [Component.rename, under, Option.map_some]
          have inside := within.linked.wellFormed.parent_index_lt member parent under
          have present := Array.getElem?_eq_getElem inside
          rw [above]
          dsimp only
          rw [within.embeds.component_eq present]
          refine ih ?_
          rw [Specification.component_eq present]
          exact mem_components present

private theorem outermost_rename :
    large.outermost (component.rename new) = (small.outermost component).rename new := by
  have top := (within.linked.wellFormed.outermost_root member).1
  have same := within.ancestor_rename member small.components.size
  have ends : (large.ancestor small.components.size (component.rename new)).parent = none := by
    rw [same]
    exact congrArg (Option.map new.component) top
  rw [← ancestor_eq_outermost within.wide (within.mem_rename member) ends, same]
  rfl

private theorem function_eq {id : ComponentId}
    (held : component.argument? key = some (@Argument.functionRef .resolved id)) :
    large.component (new.component id) = (small.component id).rename new := by
  have function := within.linked.functions component member id (List.mem_flatMap.mpr
    ⟨_, Component.mem_arguments_of_argument? held, List.mem_singleton_self _⟩)
  obtain ⟨target, present, -⟩ := within.linked.wellFormed.functions id function
  exact within.embeds.component_eq present

private theorem boundSetter_rename : Carries new.component (small.boundSetter component key)
    (large.boundSetter (component.rename new) key) := by
  refine .bind Component.fieldArgument_rename fun link read => ?_
  have held := Component.fieldRef_of_fieldArgument read
  obtain ⟨-, -, inside⟩ := within.lead.fields component member key link held
  have direct : (link.rename new).isDirect = link.isDirect := List.isEmpty_map
  have setter : (large.field (link.rename new).field).setter =
      (small.field link.field).setter.map new.component := by
    rw [FieldLink.rename, within.field_eq inside]
    rfl
  rw [direct, setter]
  cases link.isDirect with
  | false => exact .throw
  | true =>
      cases (small.field link.field).setter with
      | some id => exact .pure rfl
      | none => exact .throw

/-- The outermost component around another one is there. -/
theorem mem_outermost : small.outermost component ∈ small.components.toList := by
  obtain ⟨root, top, inside⟩ := within.linked.wellFormed.exists_root member
  have located := within.linked.wellFormed.component_id member
  have found := outermost_eq within.linked.wellFormed top inside (by rwa [located])
    (by rw [located])
  rw [located] at found
  obtain ⟨other, present, rfl, -⟩ := (within.linked.wellFormed.mem_roots_iff root).mp top
  rwa [found, within.linked.wellFormed.component_id present]

/-- The class of the record that a component inspects. -/
theorem recordClass_of_referenceTarget {target : SequenceId}
    (found : small.referenceTarget component = .ok target) :
    ∃ image, large.referenceTarget (component.rename new) = .ok image ∧
      large.recordClass image = small.recordClass target := by
  obtain ⟨sort, link, held, rfl⟩ := referenceTarget_eq_ok_iff.mp found
  have inside := within.lead.references _ (within.mem_outermost member) "reference" link held
  refine ⟨_, referenceTarget_eq_ok_iff.mpr ⟨?_, link.rename new, ?_, rfl⟩, ?_⟩
  · rw [within.outermost_rename member]
    exact sort
  · rw [within.outermost_rename member, Component.argument?_rename, held]
    rfl
  · exact congrArg Naming.upperCamel (within.targetKey_eq inside)

end Component

end Within

end Specification

/-! ## Types -/

namespace TypeScope

private theorem usable_rename {α β : Type} {component : Component .resolved} {key : String}
    {change : α → β} {select : Argument .resolved → Option α}
    {other : Argument .resolved → Option β}
    (picks : ∀ argument, other (argument.rename new) = (select argument).map change) :
    Carries change (usable component key select) (usable (component.rename new) key other) := by
  intro value found
  obtain ⟨argument, held, picked⟩ := argument?_of_usable found
  have there : (component.rename new).argument? key = some (argument.rename new) := by
    rw [Component.argument?_rename, held, Option.map_some]
  refine usable_eq_ok there ?_
  rw [picks, picked, Option.map_some]

section Within

variable {small large : Specification .resolved} (within : small.Within new large)
  {names : ChainNames} {record chainBase : String} {component : Component .resolved}
  (member : component ∈ small.components.toList) {key : String}

include within member

private theorem fieldConstant_rename :
    Carries id (fieldConstant ⟨small, names, record, chainBase⟩ component key)
      (fieldConstant ⟨large, names.rename new, record, chainBase⟩ (component.rename new) key) := by
  refine .bind (usable_rename Argument.fieldRef?_rename) fun link used => ?_
  obtain ⟨argument, held, picked⟩ := argument?_of_usable used
  rw [Argument.eq_fieldRef picked] at held
  obtain ⟨-, -, inside⟩ := within.lead.fields component member key link held
  have same : (FieldLink.rename new link).field = new.field link.field := rfl
  refine .pure ?_
  dsimp only
  rw [same, within.ownerClass_eq inside, within.field_eq inside]
  rfl

private theorem referenceConstant_rename :
    Carries id (referenceConstant ⟨small, names, record, chainBase⟩ component key)
      (referenceConstant ⟨large, names.rename new, record, chainBase⟩ (component.rename new)
        key) := by
  refine .bind (usable_rename Argument.referenceRef?_rename) fun link used => ?_
  obtain ⟨argument, held, picked⟩ := argument?_of_usable used
  rw [Argument.eq_referenceRef picked] at held
  have inside := within.lead.references component member key link held
  have same : (ReferenceLink.rename new link).reference = new.reference link.reference := rfl
  refine .pure ?_
  dsimp only
  rw [same, within.reference_eq inside]
  rfl

private theorem functionType_rename :
    Carries id (functionType ⟨small, names, record, chainBase⟩ component key)
      (functionType ⟨large, names.rename new, record, chainBase⟩ (component.rename new) key) := by
  refine .bind (usable_rename Argument.functionRef?_rename) fun function used => ?_
  obtain ⟨argument, held, picked⟩ := argument?_of_usable used
  rw [Argument.eq_functionRef picked] at held
  dsimp only
  rw [within.function_eq member held]
  exact .of_eq rfl

private theorem targetRecord_rename :
    Carries id (targetRecord ⟨small, names, record, chainBase⟩ component)
      (targetRecord ⟨large, names.rename new, record, chainBase⟩ (component.rename new)) := by
  intro type found
  obtain ⟨target, known, rfl⟩ := bind_pure_eq_ok_iff.mp found
  obtain ⟨image, there, classes⟩ := within.recordClass_of_referenceTarget member known
  exact bind_eq_ok_iff.mpr ⟨image, there, pure_eq_ok_iff.mpr (congrArg TypeArgument.text classes)⟩

omit member

variable (apart : names.KeptApart new)

include apart

omit within in
private theorem nestedType_rename :
    Carries id (nestedType ⟨small, names, record, chainBase⟩ component key)
      (nestedType ⟨large, names.rename new, record, chainBase⟩ (component.rename new) key) := by
  refine .bind (usable_rename Argument.component?_rename) fun nested _ => ?_
  refine .bind (ChainNames.get_rename apart) fun named _ => ?_
  exact .pure rfl

include member

private theorem setterType_rename :
    Carries id (setterType ⟨small, names, record, chainBase⟩ component key)
      (setterType ⟨large, names.rename new, record, chainBase⟩ (component.rename new) key) := by
  refine .bind (within.boundSetter_rename member) fun setter _ => ?_
  dsimp only
  cases found : names.find? setter with
  | some named =>
      rw [ChainNames.find?_rename apart found]
      exact .pure rfl
  | none => exact .throw

/-- **Types** do not depend on handles. -/
theorem typeArguments_rename :
    Carries id (typeArguments ⟨small, names, record, chainBase⟩ component)
      (typeArguments ⟨large, names.rename new, record, chainBase⟩ (component.rename new)) := by
  have value : valueType (component.rename new) = valueType component := rfl
  have size : (component.rename new).sizeParameter? = component.sizeParameter? := rfl
  have kind : (component.rename new).kind = component.kind := rfl
  unfold typeArguments
  dsimp only
  rw [kind, value, size]
  cases sort : component.kind with
  | fieldSetter =>
      refine .bind (fieldConstant_rename within member) fun _ _ => ?_
      exact .bind (nestedType_rename apart) fun _ _ => .pure rfl
  | referenceSetter =>
      refine .bind (referenceConstant_rename within member) fun _ _ => ?_
      exact .bind (nestedType_rename apart) fun _ _ => .pure rfl
  | clusteredValueProvider =>
      refine .bind (.of_eq rfl) fun _ _ => ?_
      refine .bind (functionType_rename within member) fun _ _ => ?_
      exact .bind (nestedType_rename apart) fun _ _ => .pure rfl
  | randomValueProvider =>
      refine .bind (.of_eq rfl) fun _ _ => ?_
      exact .bind (functionType_rename within member) fun _ _ => .pure rfl
  | contextFieldRangeProvider =>
      refine .bind (setterType_rename within member apart) fun _ _ => ?_
      exact .of_eq rfl
  | clusteredReferenceProvider | randomReferenceProvider | equalityPredicateProvider =>
      exact .bind (targetRecord_rename within member) fun _ _ => .pure rfl
  | fieldBinder =>
      refine .bind (fieldConstant_rename within member) fun _ _ => ?_
      refine .bind (nestedType_rename apart) fun _ _ => ?_
      exact .bind (targetRecord_rename within member) fun _ _ => .pure rfl
  -- The other kinds mention no other part.
  | callbackValueProvider | elementWiseValueProvider | constValueProvider
  | contextFieldValueProvider | constRangeProvider => exact .of_eq rfl
  | uniformProbability | normalProbability | paretoProbability | combinedProbability
  | conditionalCombinedProbability | enumSet | constEstimator | linearScaleEstimator
  | partitionedIterator | emptyOutputFormat | csvOutputFormat => exact .throw

/-- The type of a member, if there is one, does not change under a renaming. -/
theorem memberType_rename :
    Carries id (memberType ⟨small, names, record, chainBase⟩ component)
      (memberType ⟨large, names.rename new, record, chainBase⟩ (component.rename new)) :=
  .bind (typeArguments_rename within member apart) fun _ _ => .pure rfl

end Within

end TypeScope

/-! ## Constructors -/

namespace ConstructorScope

variable {small large : Specification .resolved} (within : small.Within new large)
  {config : String} {names : Option ChainNames} {chainBase : Option String}
  {component : Component .resolved} (member : component ∈ small.components.toList) {key : String}

section Parts

include within member

private theorem functionLookup_rename :
    Carries id (functionLookup ⟨small, config, names, chainBase⟩ component key)
      (functionLookup ⟨large, config, names.map (ChainNames.rename new), chainBase⟩
        (component.rename new) key) := by
  refine .bind Component.functionArgument_rename fun function read => ?_
  obtain ⟨argument, held, picked⟩ := Component.argument?_of_argumentAs read
  rw [Argument.eq_functionRef picked] at held
  dsimp only
  rw [within.function_eq member held]
  exact .of_eq rfl

private theorem inspector_rename :
    Carries id (inspector ⟨small, config, names, chainBase⟩ component)
      (inspector ⟨large, config, names.map (ChainNames.rename new), chainBase⟩
        (component.rename new)) := by
  intro argument found
  obtain ⟨target, known, rfl⟩ := bind_pure_eq_ok_iff.mp found
  obtain ⟨image, there, classes⟩ := within.recordClass_of_referenceTarget member known
  refine bind_eq_ok_iff.mpr ⟨image, there, pure_eq_ok_iff.mpr ?_⟩
  dsimp only
  rw [classes]
  rfl

private theorem fieldReader_rename :
    Carries id (fieldReader ⟨small, config, names, chainBase⟩ component key)
      (fieldReader ⟨large, config, names.map (ChainNames.rename new), chainBase⟩
        (component.rename new) key) := by
  refine .bind Component.fieldArgument_rename fun link read => ?_
  have held := Component.fieldRef_of_fieldArgument read
  obtain ⟨root, through, inside⟩ := within.lead.fields component member key link held
  have inner : (link.rename new).inner.map (fun id => Naming.lowerCamel (large.reference id).name) =
      link.inner.map fun id => Naming.lowerCamel (small.reference id).name := by
    rw [FieldLink.rename, List.map_map]
    refine List.map_congr_left fun id listed => ?_
    rw [Function.comp_apply, within.reference_eq (through id listed)]
    rfl
  have accessor : (large.field (link.rename new).field).accessor =
      (small.field link.field).accessor := by
    rw [FieldLink.rename, within.field_eq inside]
    rfl
  have record : large.recordClass (link.rename new).root = small.recordClass link.root :=
    within.recordClass_eq root
  refine .pure ?_
  dsimp only
  rw [inner, accessor, record]
  rfl

end Parts

private theorem callbackPointer_rename :
    Carries id (callbackPointer ⟨small, config, names, chainBase⟩ component key)
      (callbackPointer ⟨large, config, names.map (ChainNames.rename new), chainBase⟩
        (component.rename new) key) := by
  cases chainBase with
  | none => exact .throw
  | some base => exact .bind Component.callbackName_rename fun _ _ => .pure rfl

variable (apart : ∀ known ∈ names, known.KeptApart new)

include apart

private theorem nestedMembers_rename :
    Carries id (nestedMembers ⟨small, config, names, chainBase⟩ component key)
      (nestedMembers ⟨large, config, names.map (ChainNames.rename new), chainBase⟩
        (component.rename new) key) := by
  cases names with
  | none => exact .throw
  | some known =>
      have apart := apart known rfl
      refine .bind Component.argument_rename fun argument _ => ?_
      cases argument with
      | component nested =>
          refine .bind ?_ fun _ _ => .pure rfl
          exact .bind (ChainNames.get_rename apart) fun _ _ => .pure rfl
      | collection items =>
          rw [Argument.rename, Argument.renameAll_eq_map]
          refine .mapM_same fun item _ => ?_
          rw [Argument.component?_rename]
          cases item.component? with
          | some nested => exact .bind (ChainNames.get_rename apart) fun _ _ => .pure rfl
          | none => exact .throw
      | literal | fieldRef | referenceRef | functionRef => exact .throw

include within member

private theorem setterMember_rename :
    Carries id (setterMember ⟨small, config, names, chainBase⟩ component key)
      (setterMember ⟨large, config, names.map (ChainNames.rename new), chainBase⟩
        (component.rename new) key) := by
  refine .bind (within.boundSetter_rename member) fun setter _ => ?_
  cases names with
  | none => exact .throw
  | some known =>
      dsimp only [Option.map_some, Option.bind_some]
      cases found : known.find? setter with
      | some named =>
          rw [ChainNames.find?_rename (apart known rfl) found]
          exact .pure rfl
      | none => exact .throw

/-- **Constructor calls** do not depend on handles. -/
theorem constructorArguments_rename :
    Carries id (constructorArguments ⟨small, config, names, chainBase⟩ component)
      (constructorArguments ⟨large, config, names.map (ChainNames.rename new), chainBase⟩
        (component.rename new)) := by
  have each : ∀ directive, Carries id
      (directiveArguments ⟨small, config, names, chainBase⟩ component directive)
      (directiveArguments ⟨large, config, names.map (ChainNames.rename new), chainBase⟩
        (component.rename new) directive) := by
    intro directive
    cases directive with
    | literal key => exact .bind Component.literalArgument_rename fun _ _ => .pure rfl
    | verbatim text | environment key => exact .pure rfl
    | fieldSetter key => exact .bind (setterMember_rename within member apart) fun _ _ => .pure rfl
    | sequenceInspector => exact .bind (inspector_rename within member) fun _ _ => .pure rfl
    | function key => exact .bind (functionLookup_rename within member) fun _ _ => .pure rfl
    | nested key => exact nestedMembers_rename apart
    | callback key => exact .bind callbackPointer_rename fun _ _ => .pure rfl
    | fieldAccessor key => exact .bind (fieldReader_rename within member) fun _ _ => .pure rfl
  have all : Carries id
      (component.kind.entry.directives.mapM
        (directiveArguments ⟨small, config, names, chainBase⟩ component))
      ((component.kind.entry.directives.map id).mapM
        (directiveArguments ⟨large, config, names.map (ChainNames.rename new), chainBase⟩
          (component.rename new))) :=
    .mapM_same fun directive _ => each directive
  rw [List.map_id] at all
  exact .bind all fun _ _ => .pure rfl

/-- Nor do the arguments of its constructor call. -/
theorem argumentTexts_rename :
    Carries id (argumentTexts ⟨small, config, names, chainBase⟩ component)
      (argumentTexts ⟨large, config, names.map (ChainNames.rename new), chainBase⟩
        (component.rename new)) :=
  .bind (constructorArguments_rename within member apart) fun _ _ => .pure rfl

end ConstructorScope

end Recordgen

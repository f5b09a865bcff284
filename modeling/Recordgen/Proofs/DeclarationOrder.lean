import Recordgen.Proofs.NameLetters
import Recordgen.Proofs.PlannedHeaders
import Recordgen.Proofs.PreOrder
import Recordgen.Proofs.TypeNames

/-! # What the members of a setter chain use, and in which order they are declared

The members of a chain are declared in the order in which they are named: setter by setter, and what
is nested in a member right before it. A member uses what it holds, which is declared before it. A
range over a field uses the setter of that field as well. That setter has a place of its own in the
chain, so it is declared before the range only if it comes before the setter around the range
(`chain_uses`).

A declaration has other parts than the names of members, and `TypeScope.Part` and
`ConstructorScope.Part` list them all. Of these, only a text that is copied from the document
(`ConstructorScope.Copied`) has an underscore in it, as the variables of members have.
-/

namespace Recordgen

open Outcome

section Pairs

variable {α : Type} {first second : α} {values : List α}

/-- Of two members of a list, one comes before the other. -/
theorem pair_sublist_or (left : first ∈ values) (right : second ∈ values)
    (different : first ≠ second) :
    [first, second].Sublist values ∨ [second, first].Sublist values := by
  induction values with
  | nil => cases left
  | cons value values ih =>
      rcases List.mem_cons.mp left with rfl | leftLater
      · have rightLater := (List.mem_cons.mp right).resolve_left (Ne.symm different)
        exact .inl ((List.singleton_sublist.mpr rightLater).cons_cons first)
      · rcases List.mem_cons.mp right with rfl | rightLater
        · exact .inr ((List.singleton_sublist.mpr leftLater).cons_cons second)
        · exact (ih leftLater rightLater).imp (·.cons value) (·.cons value)

/-- In a list without repetitions, only one of them does. -/
theorem not_pair_sublist (distinct : values.Nodup) (before : [first, second].Sublist values) :
    ¬[second, first].Sublist values := by
  intro behind
  induction values with
  | nil => cases before
  | cons value values ih =>
      obtain ⟨fresh, distinct⟩ := List.nodup_cons.mp distinct
      cases before with
      | cons _ before =>
          cases behind with
          | cons _ behind => exact ih distinct before behind
          | cons_cons _ behind => exact fresh (before.subset (by simp))
      | cons_cons _ before =>
          cases behind with
          | cons _ behind => exact fresh (behind.subset (by simp))
          | cons_cons _ behind => exact fresh (before.subset (by simp))

end Pairs

namespace Specification.WellFormed

variable {phase : Phase} {spec : Specification phase} {sequence : RecordSequence}

/-- No component stands in a chain twice. -/
theorem chain_nodup (wellFormed : spec.WellFormed) (member : sequence ∈ spec.sequences.toList) :
    (spec.chain sequence).Nodup := by
  have all : (spec.roots.flatMap spec.subtree).Nodup :=
    wellFormed.flatMap_subtree_perm.nodup_iff.mpr wellFormed.ids_nodup
  have own : sequence.setters.Sublist sequence.roots := by
    rw [RecordSequence.roots, List.append_assoc, List.append_assoc]
    exact (List.sublist_append_left _ _).trans (List.sublist_append_right _ _)
  have listed : sequence.roots.Sublist (spec.sequences.toList.flatMap RecordSequence.roots) :=
    List.sublist_flatten_of_mem (List.mem_map_of_mem member)
  refine all.sublist ?_
  exact ((own.trans listed).trans (List.sublist_append_right _ _)).flatMap _

/-- A setter in the chain of a sequence is one of its setters. -/
theorem mem_setters_of_chain (wellFormed : spec.WellFormed)
    (member : sequence ∈ spec.sequences.toList) {id : ComponentId}
    (inside : id ∈ spec.chain sequence) (sort : (spec.component id).kind.entry.category = .setter) :
    id ∈ sequence.setters := by
  obtain ⟨present, placed, owned, -⟩ := wellFormed.chain_member member inside
  obtain ⟨other, known, setter⟩ := wellFormed.exists_sequence_of_setter present sort
  rw [placed] at setter
  have home := (wellFormed.component_of_setter known setter).2.2.2
  obtain rfl := wellFormed.eq_of_id known member (Option.some.inj (home.symm.trans owned))
  exact setter

end Specification.WellFormed

namespace ChainNames

variable {spec : Specification .resolved} {sequence : RecordSequence} {names : ChainNames}
  {root holder id : ComponentId}

/-- What is found under a handle is the member with that handle. -/
theorem find?_eq_some {member : ChainMember} (found : names.find? id = some member) :
    member ∈ names.members ∧ member.id = id := by
  refine ⟨List.mem_reverse.mp (List.mem_of_find?_eq_some found), ?_⟩
  have same := List.find?_some found
  exact beq_iff_eq.mp same

theorem get_eq_ok_iff {member : ChainMember} :
    names.get id = .ok member ↔ names.find? id = some member := by
  unfold get
  split
  · rename_i found
    rw [found, Except.ok.injEq, Option.some.injEq]
  · rename_i missing
    simp [missing]

/-- What is named when a walk goes over what a component holds, and the component itself. -/
def block (spec : Specification .resolved) (id : ComponentId) : List ComponentId :=
  (spec.component id).children.flatMap
    (fun child => (spec.walkComponent child).filterMap (leftMember? spec)) ++ [id]

private theorem left_eq_block (wellFormed : spec.WellFormed)
    (held : id ∈ (spec.component holder).children) :
    (spec.walkComponent id).filterMap (leftMember? spec) = block spec id := by
  obtain ⟨-, -, -, placed, parent, -⟩ := wellFormed.held held
  have left : leftMember? spec (.leave (.component id)) = some id := by
    rw [leftMember?, parent, placed]
    rfl
  rw [Specification.walkComponent_eq wellFormed.childrenFollow,
    Specification.filterMap_walkInside_eq, left, List.filterMap_flatMap]
  rfl

private theorem left_setter_eq_block (placed : (spec.component root).id = root) :
    (spec.walkSetter (spec.component root)).filterMap (leftMember? spec) = block spec root := by
  have left : leftMember? spec (.leave (.setter root)) = some root := by
    rw [leftMember?, placed]
  rw [Specification.walkSetter, Specification.filterMap_walkInside_eq, placed, left,
    List.filterMap_flatMap]
  rfl

private theorem postOrder_eq (wellFormed : spec.WellFormed)
    (member : sequence ∈ spec.sequences.toList) :
    (assign spec sequence).postOrder =
      (spec.orderedSetters sequence).flatMap fun setter => block spec setter.id := by
  rw [postOrder_assign wellFormed member]
  refine List.flatMap_congr fun setter listed => ?_
  obtain ⟨root, known, rfl⟩ :=
    List.mem_map.mp ((spec.orderedSetters_perm sequence).mem_iff.mp listed)
  have placed := (wellFormed.component_of_setter member known).2.1
  rw [left_setter_eq_block placed, placed]

/-- No member has two places in the post-order. -/
theorem postOrder_nodup (wellFormed : spec.WellFormed)
    (member : sequence ∈ spec.sequences.toList) : (assign spec sequence).postOrder.Nodup :=
  (postOrder_perm wellFormed member).nodup_iff.mpr (wellFormed.chain_nodup member)

/-- What is under a component is named with it. -/
theorem block_sublist (wellFormed : spec.WellFormed) (inside : id ∈ spec.subtree root) :
    (block spec id).Sublist (block spec root) := by
  refine Specification.subtree_induction (fun id => (block spec id).Sublist (block spec root))
    (List.Sublist.refl _) ?_ id inside
  intro holder child above held
  refine List.Sublist.trans ?_ above
  rw [← left_eq_block wellFormed held]
  apply List.Sublist.trans _ (List.sublist_append_left _ _)
  exact List.sublist_flatten_of_mem (List.mem_map_of_mem held)

private theorem mem_block (spec : Specification .resolved) (id : ComponentId) :
    id ∈ block spec id :=
  List.mem_append_right _ (List.mem_singleton_self id)

/-- What a component holds is named before it. -/
theorem held_sublist_block (wellFormed : spec.WellFormed)
    (held : id ∈ (spec.component holder).children) :
    [id, holder].Sublist (block spec holder) := by
  have named : id ∈ (spec.component holder).children.flatMap
      (fun child => (spec.walkComponent child).filterMap (leftMember? spec)) := by
    refine List.mem_flatMap.mpr ⟨id, held, ?_⟩
    rw [left_eq_block wellFormed held]
    exact mem_block spec id
  exact (List.singleton_sublist.mpr named).append (List.Sublist.refl [holder])

private theorem sublist_block_root (wellFormed : spec.WellFormed) (inside : id ∈ spec.subtree root)
    (below : id ≠ root) : [id, root].Sublist (block spec root) := by
  have named := (block_sublist wellFormed inside).subset (mem_block spec id)
  have inner := (List.mem_append.mp named).resolve_right fun last =>
    below (List.mem_singleton.mp last)
  exact (List.singleton_sublist.mpr inner).append (List.Sublist.refl [root])

section Order

variable (wellFormed : spec.WellFormed) (member : sequence ∈ spec.sequences.toList)
  {setter : ComponentId}

include wellFormed member

private theorem block_sublist_postOrder (setter : root ∈ sequence.setters) :
    (block spec root).Sublist (assign spec sequence).postOrder := by
  rw [postOrder_eq wellFormed member]
  have listed : spec.component root ∈ spec.orderedSetters sequence :=
    (spec.orderedSetters_perm sequence).mem_iff.mpr (List.mem_map_of_mem setter)
  have placed := (wellFormed.component_of_setter member setter).2.1
  have found := List.sublist_flatten_of_mem
    (List.mem_map_of_mem listed (f := fun setter => block spec setter.id))
  rwa [placed] at found

/-- **What a member of a chain holds is named before it.** -/
theorem held_precedes (inside : holder ∈ spec.chain sequence)
    (held : id ∈ (spec.component holder).children) :
    [id, holder].Sublist (assign spec sequence).postOrder := by
  obtain ⟨root, setter, below⟩ := List.mem_flatMap.mp inside
  have named := (held_sublist_block wellFormed held).trans (block_sublist wellFormed below)
  exact named.trans (block_sublist_postOrder wellFormed member setter)

/-- What is under the first of two setters is named before what is under the second. -/
theorem sublist_of_order_lt (first : root ∈ sequence.setters) (second : setter ∈ sequence.setters)
    (before : (spec.component root).order < (spec.component setter).order)
    (left : holder ∈ block spec root) (right : id ∈ block spec setter) :
    [holder, id].Sublist (assign spec sequence).postOrder := by
  have listed : ∀ id ∈ sequence.setters, spec.component id ∈ spec.orderedSetters sequence :=
    fun id known => (spec.orderedSetters_perm sequence).mem_iff.mpr (List.mem_map_of_mem known)
  have sorted : (spec.orderedSetters sequence).Pairwise fun setter other =>
      setter.order ≤ other.order := pairwise_mergeSort_order _
  have different : spec.component root ≠ spec.component setter := by
    intro same
    rw [same] at before
    exact Nat.lt_irrefl _ before
  have pair : [spec.component root, spec.component setter].Sublist
      (spec.orderedSetters sequence) := by
    refine (pair_sublist_or (listed root first) (listed setter second) different).resolve_right ?_
    intro turned
    exact Nat.not_le_of_lt before (List.pairwise_iff_forall_sublist.mp sorted turned)
  rw [postOrder_eq wellFormed member]
  have blocks := pair.flatMap fun setter => block spec setter.id
  rw [List.flatMap_cons, List.flatMap_singleton, (wellFormed.component_of_setter member first).2.1,
    (wellFormed.component_of_setter member second).2.1] at blocks
  refine List.Sublist.trans ?_ blocks
  exact (List.singleton_sublist.mpr left).append (List.singleton_sublist.mpr right)

/-- **A setter is named before a member under another setter** exactly if it comes first in the
chain. -/
theorem setter_precedes_iff (known : setter ∈ sequence.setters) (top : root ∈ sequence.setters)
    (below : id ∈ spec.subtree root) (other : id ≠ setter) :
    [setter, id].Sublist (assign spec sequence).postOrder ↔
      (spec.component setter).order < (spec.component root).order := by
  have distinct := postOrder_nodup wellFormed member
  have named := (block_sublist wellFormed below).subset (mem_block spec id)
  rcases Nat.lt_trichotomy (spec.component setter).order (spec.component root).order with
    before | same | behind
  · exact iff_of_true (sublist_of_order_lt wellFormed member known top before
      (mem_block spec setter) named) before
  · -- Order keys are positions, so the member stands under the setter itself.
    have orders : ((sequence.setters.map spec.component).map Component.order).Nodup := by
      rw [(wellFormed.chain member).orders]
      exact List.nodup_range
    have alike : spec.component setter = spec.component root :=
      List.inj_on_of_nodup_map orders (List.mem_map_of_mem known) (List.mem_map_of_mem top) same
    obtain rfl : setter = root := by
      rw [← (wellFormed.component_of_setter member known).2.1, alike,
        (wellFormed.component_of_setter member top).2.1]
    refine iff_of_false (not_pair_sublist distinct ?_) (Nat.lt_irrefl _)
    exact (sublist_block_root wellFormed below other).trans
      (block_sublist_postOrder wellFormed member top)
  · refine iff_of_false (not_pair_sublist distinct ?_) (by omega)
    exact sublist_of_order_lt wellFormed member top known behind named (mem_block spec setter)

end Order

end ChainNames

/-- Why a chain member uses another one: it holds it, or it is a range over a field of which the other
one is the setter. -/
inductive Specification.Uses (spec : Specification .resolved) (user : ComponentId) :
    ComponentId → Prop
  | held (used : ComponentId) (child : used ∈ (spec.component user).children) : Uses spec user used
  | range (link : FieldLink) (used : ComponentId)
      (sort : (spec.component user).kind = .contextFieldRangeProvider)
      (found : (spec.component user).argument? "field" = some (@Argument.fieldRef .resolved link))
      (direct : link.inner = []) (bound : (spec.field link.field).setter = some used) :
      Uses spec user used

namespace Component

variable {component : Component .resolved} {key : String} {argument : Argument .resolved}
  {id : ComponentId}

private theorem mem_children_of_argument? (found : component.argument? key = some argument)
    (held : id ∈ argument.children) : id ∈ component.children :=
  List.mem_flatMap.mpr ⟨_, mem_arguments_of_argument? found, held⟩

theorem argument?_of_argument (found : component.argument key = .ok argument) :
    component.argument? key = some argument := by
  unfold Component.argument at found
  split at found
  · rename_i here
    rw [here, Except.ok.inj found]
  · cases found

/-- What is picked out of an argument is there. -/
theorem argument?_of_argumentAs {α : Type} {expected : String} {value : α}
    {select : Argument .resolved → Option α}
    (found : component.argumentAs key expected select = .ok value) :
    ∃ argument, component.argument? key = some argument ∧ select argument = some value := by
  obtain ⟨argument, here, picked⟩ := bind_eq_ok_iff.mp found
  refine ⟨argument, argument?_of_argument here, ?_⟩
  split at picked
  · rename_i given
    rw [given, pure_eq_ok_iff.mp picked]
  · cases picked

private theorem literal_of_literalArgument {literal : Literal}
    (read : component.literalArgument key = .ok literal) :
    component.argument? key = some (.literal literal) := by
  obtain ⟨argument, found, picked⟩ := argument?_of_argumentAs read
  rw [found, Argument.eq_literal picked]

theorem fieldRef_of_fieldArgument {link : FieldLink}
    (read : component.fieldArgument key = .ok link) :
    component.argument? key = some (@Argument.fieldRef .resolved link) := by
  obtain ⟨argument, found, picked⟩ := argument?_of_argumentAs read
  rw [found, Argument.eq_fieldRef picked]

private theorem functionRef_of_functionArgument (read : component.functionArgument key = .ok id) :
    component.argument? key = some (@Argument.functionRef .resolved id) := by
  obtain ⟨argument, found, picked⟩ := argument?_of_argumentAs read
  rw [found, Argument.eq_functionRef picked]

end Component

namespace Specification

variable {spec : Specification .resolved} {id setter : ComponentId}

/-- The setter that a range over a field asks for. -/
theorem uses_of_boundSetter (sort : (spec.component id).kind = .contextFieldRangeProvider)
    (asked : spec.boundSetter (spec.component id) "field" = .ok setter) : spec.Uses id setter := by
  obtain ⟨link, read, -⟩ := bind_eq_ok_iff.mp asked
  have found := Component.fieldRef_of_fieldArgument read
  by_cases direct : link.inner = []
  · rw [boundSetter_of_direct found direct] at asked
    split at asked
    · rename_i bound
      obtain rfl := Except.ok.inj asked
      exact .range link _ sort found direct bound
    · cases asked
  · rw [boundSetter_of_inner found direct] at asked
    cases asked

end Specification

namespace TypeScope

variable {scope : TypeScope} {id : ComponentId} {key : String}

/-- What can stand in the type of a chain member: the type name of a member that it uses, the constant
of a field or reference, and texts for which no member is looked up. -/
inductive Part (scope : TypeScope) (id : ComponentId) : TypeArgument → Prop
  | member (used : ComponentId) (member : ChainMember) (uses : scope.spec.Uses id used)
      (found : scope.names.find? used = some member) : Part scope id (.memberType member.typeName)
  | field (key : String) (link : FieldLink)
      (found : (scope.spec.component id).argument? key = some (@Argument.fieldRef .resolved link)) :
      Part scope id (.constant (scope.spec.recordClass (scope.spec.field link.field).owner)
        (Naming.constantName (scope.spec.field link.field).name))
  | reference (key : String) (link : ReferenceLink)
      (found : (scope.spec.component id).argument? key =
        some (@Argument.referenceRef .resolved link)) :
      Part scope id (.constant scope.record
        (Naming.constantName (scope.spec.reference link.reference).name))
  | record : Part scope id (.text scope.record)
  | chainBase : Part scope id (.text scope.chainBase)
  | value (type : LiteralType)
      (found : (scope.spec.component id).literalParameter? "value_type" = some type) :
      Part scope id (.text type.name)
  | size (size : Nat) (found : (scope.spec.component id).sizeParameter? "size" = some size) :
      Part scope id (.text size.repr)
  | function (key : String) (function : ComponentId) (className : String)
      (found : (scope.spec.component id).argument? key =
        some (@Argument.functionRef .resolved function))
      (classed : (scope.spec.component function).functionClass = .ok className) :
      Part scope id (.text className)
  | target (sequence : SequenceId)
      (known : scope.spec.referenceTarget (scope.spec.component id) = .ok sequence) :
      Part scope id (.text (scope.spec.recordClass sequence))

theorem argument?_of_usable {α : Type} {component : Component .resolved} {value : α}
    {select : Argument .resolved → Option α} (found : usable component key select = .ok value) :
    ∃ argument, component.argument? key = some argument ∧ select argument = some value := by
  unfold usable at found
  split at found
  · rename_i here
    obtain rfl := Except.ok.inj found
    exact Option.bind_eq_some_iff.mp here
  · cases found

private theorem nestedType_part :
    Yields (scope.Part id) (scope.nestedType (scope.spec.component id) key) := by
  intro made formed
  obtain ⟨used, found, formed⟩ := bind_eq_ok_iff.mp formed
  obtain ⟨member, got, rfl⟩ := bind_pure_eq_ok_iff.mp formed
  obtain ⟨argument, here, picked⟩ := argument?_of_usable found
  have child : used ∈ argument.children := by
    cases argument with
    | component other => exact Option.some.inj picked ▸ List.mem_singleton_self other
    | literal | fieldRef | referenceRef | functionRef | collection => cases picked
  exact .member used member (.held used (Component.mem_children_of_argument? here child))
    (ChainNames.get_eq_ok_iff.mp got)

private theorem setterType_part
    (sort : (scope.spec.component id).kind = .contextFieldRangeProvider) :
    Yields (scope.Part id) (scope.setterType (scope.spec.component id) "field") := by
  intro made formed
  obtain ⟨used, asked, formed⟩ := bind_eq_ok_iff.mp formed
  split at formed
  · rename_i member found
    obtain rfl := pure_eq_ok_iff.mp formed
    exact .member used member (Specification.uses_of_boundSetter sort asked) found
  · cases formed

/-- The type of a range names the type of the setter that the range asks for. -/
theorem memberType_mem_typeArguments {used : ComponentId} {arguments : List TypeArgument}
    (sort : (scope.spec.component id).kind = .contextFieldRangeProvider)
    (asked : scope.spec.boundSetter (scope.spec.component id) "field" = .ok used)
    (formed : scope.typeArguments (scope.spec.component id) = .ok arguments) :
    ∃ member, scope.names.find? used = some member ∧ .memberType member.typeName ∈ arguments := by
  unfold typeArguments at formed
  rw [sort] at formed
  obtain ⟨setter, named, formed⟩ := bind_eq_ok_iff.mp formed
  obtain ⟨value, -, rfl⟩ := bind_pure_eq_ok_iff.mp formed
  obtain ⟨other, again, named⟩ := bind_eq_ok_iff.mp named
  obtain rfl := Except.ok.inj (asked.symm.trans again)
  split at named
  · rename_i member found
    obtain rfl := pure_eq_ok_iff.mp named
    exact ⟨member, found, by simp⟩
  · cases named

/-! The other parts of a type are no names of chain members. -/

private theorem valueType_part : Yields (scope.Part id) (valueType (scope.spec.component id)) := by
  intro made formed
  obtain ⟨name, typed, rfl⟩ := bind_pure_eq_ok_iff.mp formed
  unfold Component.typeParameter at typed
  split at typed
  · rename_i type found
    obtain rfl := Except.ok.inj typed
    exact .value type found
  · cases typed

private theorem fieldConstant_part :
    Yields (scope.Part id) (scope.fieldConstant (scope.spec.component id) key) := by
  intro made formed
  obtain ⟨link, used, rfl⟩ := bind_pure_eq_ok_iff.mp formed
  obtain ⟨argument, found, picked⟩ := argument?_of_usable used
  exact .field key link (found.trans (congrArg some (Argument.eq_fieldRef picked)))

private theorem referenceConstant_part :
    Yields (scope.Part id) (scope.referenceConstant (scope.spec.component id) key) := by
  intro made formed
  obtain ⟨link, used, rfl⟩ := bind_pure_eq_ok_iff.mp formed
  obtain ⟨argument, found, picked⟩ := argument?_of_usable used
  exact .reference key link (found.trans (congrArg some (Argument.eq_referenceRef picked)))

private theorem functionType_part :
    Yields (scope.Part id) (scope.functionType (scope.spec.component id) key) := by
  intro made formed
  obtain ⟨function, used, formed⟩ := bind_eq_ok_iff.mp formed
  obtain ⟨className, classed, rfl⟩ := bind_pure_eq_ok_iff.mp formed
  obtain ⟨argument, found, picked⟩ := argument?_of_usable used
  exact .function key function className
    (found.trans (congrArg some (Argument.eq_functionRef picked))) classed

private theorem targetRecord_part :
    Yields (scope.Part id) (scope.targetRecord (scope.spec.component id)) := by
  intro made formed
  obtain ⟨sequence, known, rfl⟩ := bind_pure_eq_ok_iff.mp formed
  exact .target sequence known

/-- **Types.** What stands in a type is one of its parts. -/
theorem typeArguments_parts :
    Yields (fun arguments => ∀ argument ∈ arguments, scope.Part id argument)
      (scope.typeArguments (scope.spec.component id)) := by
  have own : scope.Part id (.text scope.record) := .record
  unfold typeArguments
  dsimp only
  cases sort : (scope.spec.component id).kind with
  | fieldSetter =>
      refine .bind fieldConstant_part fun field fixed => ?_
      refine .bind nestedType_part fun value nested => .pure ?_
      simp [own, fixed, nested]
  | referenceSetter =>
      refine .bind referenceConstant_part fun reference fixed => ?_
      refine .bind nestedType_part fun value nested => .pure ?_
      simp [own, fixed, nested]
  | callbackValueProvider =>
      refine .bind valueType_part fun type typed => .pure ?_
      simp [own, typed, Part.chainBase]
  | clusteredValueProvider =>
      refine .bind valueType_part fun type typed => ?_
      refine .bind functionType_part fun function fixed => ?_
      refine .bind nestedType_part fun range nested => .pure ?_
      simp [own, typed, fixed, nested]
  | randomValueProvider =>
      refine .bind valueType_part fun type typed => ?_
      refine .bind functionType_part fun function fixed => .pure ?_
      simp [own, typed, fixed]
  | elementWiseValueProvider =>
      dsimp only
      split
      · rename_i size found
        refine .bind valueType_part fun type typed => .pure ?_
        simp [own, typed, Part.size size found]
      · exact .throw
  | constValueProvider | contextFieldValueProvider | constRangeProvider =>
      refine .bind valueType_part fun type typed => .pure ?_
      simp [own, typed]
  | contextFieldRangeProvider =>
      refine .bind (setterType_part sort) fun setter asked => ?_
      refine .bind valueType_part fun type typed => .pure ?_
      simp [own, typed, asked]
  | clusteredReferenceProvider | randomReferenceProvider | equalityPredicateProvider =>
      refine .bind targetRecord_part fun target known => .pure ?_
      simp [own, known]
  | fieldBinder =>
      refine .bind fieldConstant_part fun field fixed => ?_
      refine .bind nestedType_part fun value nested => ?_
      refine .bind targetRecord_part fun target known => .pure ?_
      simp [known, fixed, nested]
  | uniformProbability | normalProbability | paretoProbability | combinedProbability
  | conditionalCombinedProbability | enumSet | constEstimator | linearScaleEstimator
  | partitionedIterator | emptyOutputFormat | csvOutputFormat => exact .throw

end TypeScope

/-- An accessor has no underscore, whatever the name of its field. -/
theorem Field.underscore_notMem_accessor (field : Field) : '_' ∉ field.accessor.toList := by
  unfold accessor
  split
  · decide
  · exact Naming.underscore_notMem_lowerCamel field.name

namespace ConstructorScope

variable {scope : ConstructorScope} {names : ChainNames} {id : ComponentId} {key : String}

/-- A text in a constructor call that holds something copied from the document: a literal, the name of
a callback or the key of a function. -/
inductive Copied (scope : ConstructorScope) (component : Component .resolved) : String → Prop
  | literal (key : String) (literal : Literal)
      (found : component.argument? key = some (.literal literal)) :
      Copied scope component (Literal.render scope.config literal)
  | callback (key chainBase name : String) (inside : scope.chainBase = some chainBase)
      (named : component.callbackName key = .ok name) :
      Copied scope component s!"&{chainBase}::{name}"
  | function (key : String) (function : ComponentId) (className : String)
      (found : component.argument? key = some (@Argument.functionRef .resolved function))
      (classed : (scope.spec.component function).functionClass = .ok className) :
      Copied scope component
        s!"{scope.config}.function<{className}>(\"{(scope.spec.component function).key}\")"

/-- A text in a constructor call that is made up of fixed words and of identifiers formed from the
names of records, fields and references. -/
inductive Formed (scope : ConstructorScope) (component : Component .resolved) : String → Prop
  | self : Formed scope component "*this"
  | config : Formed scope component scope.config
  | inspector (text : String) (made : scope.inspector component = .ok (.text text)) :
      Formed scope component text
  | reader (key text : String) (made : scope.fieldReader component key = .ok (.text text)) :
      Formed scope component text

/-- What a constructor call can take: the variable of a member that the member uses, or a text. -/
inductive Part (scope : ConstructorScope) (names : ChainNames) (id : ComponentId) :
    ConstructorArgument → Prop
  | member (used : ComponentId) (member : ChainMember) (uses : scope.spec.Uses id used)
      (found : names.find? used = some member) : Part scope names id (.member member.memberName)
  | copied (text : String) (copied : scope.Copied (scope.spec.component id) text) :
      Part scope names id (.text text)
  | formed (text : String) (formed : scope.Formed (scope.spec.component id) text) :
      Part scope names id (.text text)

private theorem underscore_notMem_calls {names : List String}
    (plain : ∀ name ∈ names, '_' ∉ name.toList) :
    '_' ∉ (String.join (names.map fun name => s!"->{name}()")).toList := by
  intro inside
  rw [String.toList_join, List.flatMap_map] at inside
  obtain ⟨name, listed, inside⟩ := List.mem_flatMap.mp inside
  exact plain name listed (by simpa [toString] using inside)

/-- No variable of a chain can stand in a text that is formed, as variables have an underscore. -/
theorem Formed.underscore_notMem {component : Component .resolved} {text : String}
    (formed : scope.Formed component text) (plain : '_' ∉ scope.config.toList) :
    '_' ∉ text.toList := by
  have record : ∀ id, '_' ∉ (scope.spec.recordClass id).toList := fun id inside =>
    Naming.ne_underscore (Naming.isAlphanum_of_mem_upperCamel inside) rfl
  cases formed with
  | self => decide
  | config => exact plain
  | inspector _ made =>
      obtain ⟨target, -, same⟩ := bind_pure_eq_ok_iff.mp made
      obtain rfl := ConstructorArgument.text.inj same
      simp [toString, plain, record]
  | reader key _ made =>
      obtain ⟨link, -, same⟩ := bind_pure_eq_ok_iff.mp made
      obtain rfl := ConstructorArgument.text.inj same
      have calls : ∀ name ∈ link.inner.map
          (fun id => Naming.lowerCamel (scope.spec.reference id).name) ++
            [(scope.spec.field link.field).accessor], '_' ∉ name.toList := by
        rw [List.forall_mem_append, List.forall_mem_map, List.forall_mem_singleton]
        exact ⟨fun _ _ => Naming.underscore_notMem_lowerCamel _, Field.underscore_notMem_accessor _⟩
      have path := underscore_notMem_calls calls
      generalize String.join _ = accessors at path ⊢
      simp [toString, record, path]

private theorem nestedMembers_parts (chain : scope.names = some names) :
    Yields (fun arguments => ∀ argument ∈ arguments, scope.Part names id argument)
      (scope.nestedMembers (scope.spec.component id) key) := by
  intro arguments formed made listed
  unfold nestedMembers at formed
  simp only [chain] at formed
  obtain ⟨argument, read, formed⟩ := bind_eq_ok_iff.mp formed
  have found := Component.argument?_of_argument read
  have nested : ∀ used ∈ argument.children, ∀ member, names.get used = .ok member →
      scope.Part names id (.member member.memberName) := by
    intro used child member got
    exact .member used member (.held used (Component.mem_children_of_argument? found child))
      (ChainNames.get_eq_ok_iff.mp got)
  cases argument with
  | collection items =>
      obtain ⟨item, present, formed⟩ := exists_left_of_mem (mapM_eq_ok_iff.mp formed) listed
      split at formed
      · rename_i used held
        obtain ⟨member, got, rfl⟩ := bind_pure_eq_ok_iff.mp formed
        exact nested used (List.mem_filterMap.mpr ⟨item, present, held⟩) member got
      · cases formed
  | component used =>
      obtain ⟨alone, made, rfl⟩ := bind_pure_eq_ok_iff.mp formed
      obtain ⟨member, got, rfl⟩ := bind_pure_eq_ok_iff.mp made
      obtain rfl := List.mem_singleton.mp listed
      exact nested used (List.mem_singleton_self used) member got
  | literal | fieldRef | referenceRef | functionRef => cases formed

private theorem setterMember_part (chain : scope.names = some names)
    (sort : (scope.spec.component id).kind = .contextFieldRangeProvider) :
    Yields (scope.Part names id) (scope.setterMember (scope.spec.component id) "field") := by
  intro made formed
  obtain ⟨used, asked, formed⟩ := bind_eq_ok_iff.mp formed
  rw [chain] at formed
  split at formed
  · rename_i member found
    obtain rfl := pure_eq_ok_iff.mp formed
    exact .member used member (Specification.uses_of_boundSetter sort asked) found
  · cases formed

private theorem callbackPointer_part :
    Yields (scope.Part names id) (scope.callbackPointer (scope.spec.component id) key) := by
  intro made formed
  unfold callbackPointer at formed
  split at formed
  · rename_i chainBase inside
    obtain ⟨name, named, rfl⟩ := bind_pure_eq_ok_iff.mp formed
    exact .copied _ (.callback key chainBase name inside named)
  · cases formed

private theorem functionLookup_part :
    Yields (scope.Part names id) (scope.functionLookup (scope.spec.component id) key) := by
  intro made formed
  obtain ⟨function, read, formed⟩ := bind_eq_ok_iff.mp formed
  obtain ⟨className, classed, rfl⟩ := bind_pure_eq_ok_iff.mp formed
  exact .copied _ (.function key function className (Component.functionRef_of_functionArgument read)
    classed)

/-- What a directive makes is a part of a constructor call. -/
theorem directiveArguments_parts (chain : scope.names = some names) {directive : Directive}
    (given : directive ∈ (scope.spec.component id).kind.entry.directives) :
    Yields (fun arguments => ∀ argument ∈ arguments, scope.Part names id argument)
      (scope.directiveArguments (scope.spec.component id) directive) := by
  have supported := Kind.directives_supported _ directive given
  have alone : ∀ {outcome : Except CompileError ConstructorArgument},
      Yields (scope.Part names id) outcome →
        Yields (fun arguments => ∀ argument ∈ arguments, scope.Part names id argument)
          (do return [← outcome]) :=
    fun made => .bind made fun _ here => .pure (List.forall_mem_singleton.mpr here)
  cases directive with
  | nested key => exact nestedMembers_parts chain
  | fieldSetter key =>
      obtain ⟨same, sort⟩ := Bool.and_eq_true_iff.mp supported
      obtain rfl := beq_iff_eq.mp same
      exact alone (setterMember_part chain (beq_iff_eq.mp sort))
  -- All other directives make texts.
  | verbatim text =>
      obtain rfl := Kind.eq_of_verbatim given
      exact .pure (List.forall_mem_singleton.mpr (.formed _ .self))
  | environment => exact .pure (List.forall_mem_singleton.mpr (.formed _ .config))
  | literal key =>
      intro arguments formed
      obtain ⟨literal, read, rfl⟩ := bind_pure_eq_ok_iff.mp formed
      exact List.forall_mem_singleton.mpr
        (.copied _ (.literal key literal (Component.literal_of_literalArgument read)))
  | callback => exact alone callbackPointer_part
  | function => exact alone functionLookup_part
  | fieldAccessor key =>
      refine alone fun made formed => ?_
      obtain ⟨link, -, rfl⟩ := bind_pure_eq_ok_iff.mp formed
      exact .formed _ (.reader key _ formed)
  | sequenceInspector =>
      refine alone fun made formed => ?_
      obtain ⟨target, -, rfl⟩ := bind_pure_eq_ok_iff.mp formed
      exact .formed _ (.inspector _ formed)

/-- **Constructor calls.** What a call takes is one of its parts. -/
theorem constructorArguments_parts (chain : scope.names = some names) :
    Yields (fun arguments => ∀ argument ∈ arguments, scope.Part names id argument)
      (scope.constructorArguments (scope.spec.component id)) := by
  intro arguments formed argument inside
  obtain ⟨all, followed, rfl⟩ := bind_pure_eq_ok_iff.mp formed
  obtain ⟨some, listed, inside⟩ := List.mem_flatten.mp inside
  obtain ⟨directive, given, made⟩ := exists_left_of_mem (mapM_eq_ok_iff.mp followed) listed
  exact directiveArguments_parts chain given some made argument inside

end ConstructorScope

namespace RecordContext

variable {context : RecordContext} {names : ChainNames} {types after : KeyMap String}
  {id : ComponentId} {declarations : List ChainDeclaration}

/-- The callback of the first member is collected, then the member is declared, then the others. -/
theorem chainDeclarations_cons_eq_ok {rest : List ComponentId}
    (declared : context.chainDeclarations names types (id :: rest) = .ok (declarations, after)) :
    ∃ callback between declaration others,
      callback? (context.spec.component id) = .ok callback ∧
      callback.elim (.ok types) (context.addCallback types) = .ok between ∧
      context.chainDeclaration names id = .ok declaration ∧
      context.chainDeclarations names between rest = .ok (others, after) ∧
      declarations = declaration :: others := by
  obtain ⟨callback, found, declared⟩ := bind_eq_ok_iff.mp declared
  refine ⟨callback, ?_⟩
  cases callback with
  | none | some callback =>
      obtain ⟨between, collected, declared⟩ := bind_eq_ok_iff.mp declared
      obtain ⟨declaration, here, declared⟩ := bind_eq_ok_iff.mp declared
      obtain ⟨⟨others, _⟩, later, same⟩ := bind_pure_eq_ok_iff.mp declared
      obtain ⟨rfl, rfl⟩ := Prod.mk.inj same
      exact ⟨between, declaration, others, found, collected, here, later, rfl⟩

/-- Declarations come one by one, in the order of the members. -/
theorem forall₂_of_chainDeclarations {ids : List ComponentId}
    (declared : context.chainDeclarations names types ids = .ok (declarations, after)) :
    List.Forall₂ (fun id declaration => context.chainDeclaration names id = .ok declaration)
      ids declarations := by
  induction ids generalizing types declarations with
  | nil =>
      obtain ⟨rfl, -⟩ := Prod.mk.inj (Except.ok.inj declared)
      exact .nil
  | cons id rest ih =>
      obtain ⟨_, _, _, _, -, -, here, later, rfl⟩ := chainDeclarations_cons_eq_ok declared
      exact .cons here (ih later)

/-- What a declaration is made of: its member, its class, its type and its arguments. -/
theorem chainDeclaration_eq_ok {declaration : ChainDeclaration}
    (declared : context.chainDeclaration names id = .ok declaration) :
    (context.chainScope names).constructorArguments (context.spec.component id) =
        .ok declaration.arguments ∧
      (context.typeScope names).typeArguments (context.spec.component id) =
        .ok declaration.type.arguments ∧
      names.find? id = some declaration.member ∧
      declaration.type.className = (context.spec.component id).kind.entry.className := by
  obtain ⟨arguments, called, declared⟩ := bind_eq_ok_iff.mp declared
  obtain ⟨type, formed, declared⟩ := bind_eq_ok_iff.mp declared
  obtain ⟨member, got, rfl⟩ := bind_pure_eq_ok_iff.mp declared
  obtain ⟨parts, written, rfl⟩ := bind_pure_eq_ok_iff.mp formed
  exact ⟨called, written, ChainNames.get_eq_ok_iff.mp got, rfl⟩

end RecordContext

/-- When something that a chain member uses comes before it. -/
theorem ChainNames.uses_precedes_iff {spec : Specification .resolved} (linked : spec.Linked)
    {sequence : RecordSequence} (member : sequence ∈ spec.sequences.toList)
    {user used : ComponentId} (inside : user ∈ spec.chain sequence)
    (other : used ∈ spec.chain sequence) (uses : spec.Uses user used) :
    [used, user].Sublist (assign spec sequence).postOrder ↔
      used ∈ (spec.component user).children ∨
        (spec.component used).order < (spec.outermost (spec.component user)).order := by
  have wellFormed := linked.wellFormed
  cases uses with
  | held _ child =>
      exact iff_of_true (held_precedes wellFormed member inside child) (.inl child)
  | range link _ sort found direct bound =>
      obtain ⟨root, top, below⟩ := List.mem_flatMap.mp inside
      obtain ⟨present, placed, -⟩ := wellFormed.chain_member member inside
      have around := Specification.outermost_eq wellFormed
        (Specification.WellFormed.mem_roots_of_setter member top) below present placed
      have kind : (spec.component used).kind.entry.category = .setter := by
        rw [(linked.setter_of_field bound).2.2]
        rfl
      have setter := wellFormed.mem_setters_of_chain member other kind
      have different : user ≠ used := by
        rintro rfl
        rw [sort] at kind
        cases kind
      rw [around, setter_precedes_iff wellFormed member setter top below different]
      -- Setters are not nested in anything.
      refine (or_iff_right fun child => ?_).symm
      obtain ⟨-, -, -, -, -, -, -, _, -, category, -, nested⟩ := wellFormed.held child
      exact category.category_ne_setter (nested.symm.trans kind)

/-- What the declaration of a chain member mentions, and what is declared before it. Of the other
members it names only those that it uses, in its type and in its constructor call. Where a variable
could stand in a text of the call, the text is copied from the document. -/
structure RecordContext.Grounded (context : RecordContext) (names : ChainNames)
    (declarations : List ChainDeclaration) (declaration : ChainDeclaration) : Prop where
  className : declaration.type.className =
    (context.spec.component declaration.member.id).kind.entry.className
  typeParts : ∀ argument ∈ declaration.type.arguments,
    (context.typeScope names).Part declaration.member.id argument
  typeNames : ∀ name, .memberType name ∈ declaration.type.arguments → ∃ other ∈ declarations,
    other.member.typeName = name ∧ context.spec.Uses declaration.member.id other.member.id
  callParts : ∀ argument ∈ declaration.arguments,
    (context.chainScope names).Part names declaration.member.id argument
  memberNames : ∀ name, .member name ∈ declaration.arguments → ∃ other ∈ declarations,
    other.member.memberName = name ∧ context.spec.Uses declaration.member.id other.member.id
  underscore : declaration.member.memberName.toList.head? = some '_'
  copied : ∀ text, .text text ∈ declaration.arguments → '_' ∈ text.toList →
    (context.chainScope names).Copied (context.spec.component declaration.member.id) text
  order : ∀ other ∈ declarations, context.spec.Uses declaration.member.id other.member.id →
    ([other.member.id, declaration.member.id].Sublist names.postOrder ↔
      other.member.id ∈ (context.spec.component declaration.member.id).children ∨
        (context.spec.component other.member.id).order <
          (context.spec.outermost (context.spec.component declaration.member.id)).order)

/-- **Declarations and uses.** The members of a chain that is rendered are declared in post-order. The
types and variables that a declaration names are those of members that it uses, and every other part
of it is listed: only a text that is copied from the document can spell the variable of a member that
is not used. What a member holds is declared before it. The setter of the field that a range is over
is declared before the range exactly if it comes before the setter around the range. -/
theorem chain_uses {text : String} {spec : Specification .resolved}
    (read : readDocument text = .ok spec) {sequence : RecordSequence}
    (member : sequence ∈ spec.sequences.toList) {targetNamespace : String} {pair : HeaderPair}
    (rendered : RecordContext.chainHeaders ⟨spec, sequence, targetNamespace⟩
      (ChainNames.assign spec sequence) = .ok pair) :
    ∃ declarations types,
      RecordContext.chainDeclarations ⟨spec, sequence, targetNamespace⟩
        (ChainNames.assign spec sequence) {} (ChainNames.assign spec sequence).postOrder =
          .ok (declarations, types) ∧
      declarations.map (fun declaration => declaration.member.id) =
        (ChainNames.assign spec sequence).postOrder ∧
      (ChainNames.assign spec sequence).postOrder.Nodup ∧
      ∀ declaration ∈ declarations, RecordContext.Grounded ⟨spec, sequence, targetNamespace⟩
        (ChainNames.assign spec sequence) declarations declaration := by
  have linked := linked_of_readDocument read
  have chained := ChainNames.postOrder_perm linked.wellFormed member
  obtain ⟨⟨declarations, types⟩, declared, -⟩ := bind_eq_ok_iff.mp rendered
  have all := (RecordContext.forall₂_of_chainDeclarations declared).imp fun _ _ here =>
    RecordContext.chainDeclaration_eq_ok here
  -- Each declaration stands for the member that it was made for.
  have placed : ∀ id declaration, (ChainNames.assign spec sequence).find? id =
      some (ChainDeclaration.member declaration) → declaration.member.id = id :=
    fun _ _ found => (ChainNames.find?_eq_some found).2
  have order : declarations.map (fun declaration => declaration.member.id) =
      (ChainNames.assign spec sequence).postOrder.map id :=
    map_eq_map_of_forall₂ all fun id declaration found => placed id declaration found.2.2.1
  rw [List.map_id] at order
  have declares : ∀ used named, (ChainNames.assign spec sequence).find? used = some named →
      ∃ other ∈ declarations, other.member = named ∧ named.id = used := by
    intro used named found
    obtain ⟨listed, rfl⟩ := ChainNames.find?_eq_some found
    obtain ⟨other, present, here⟩ := exists_right_of_mem all (List.mem_map_of_mem listed)
    exact ⟨other, present, Option.some.inj (here.2.2.1.symm.trans found), rfl⟩
  have inside : ∀ declaration ∈ declarations, declaration.member.id ∈ spec.chain sequence :=
    fun declaration present => chained.mem_iff.mp (order ▸ List.mem_map_of_mem present)
  refine ⟨declarations, types, declared, order,
    ChainNames.postOrder_nodup linked.wellFormed member, fun declaration present => ?_⟩
  obtain ⟨id, -, called, formed, found, className⟩ := exists_left_of_mem all present
  obtain rfl := placed id declaration found
  have typeParts := TypeScope.typeArguments_parts _ formed
  have callParts := ConstructorScope.constructorArguments_parts rfl _ called
  have config : '_' ∉ "config".toList := by decide
  exact
    { className, typeParts, callParts
      typeNames := fun name named => by
        obtain ⟨used, member, uses, known⟩ := typeParts _ named
        obtain ⟨other, there, rfl, rfl⟩ := declares used member known
        exact ⟨other, there, rfl, uses⟩
      memberNames := fun name named => by
        obtain ⟨used, member, uses, known⟩ := callParts _ named
        obtain ⟨other, there, rfl, rfl⟩ := declares used member known
        exact ⟨other, there, rfl, uses⟩
      underscore := ChainNames.head?_memberName (ChainNames.find?_eq_some found).1
      copied := fun text written divided => by
        cases callParts _ written with
        | copied _ copied => exact copied
        | formed _ formed => exact absurd divided (formed.underscore_notMem config)
      order := fun other there uses => ChainNames.uses_precedes_iff linked member
        (inside declaration present) (inside other there) uses }

namespace Prototype.Sample

open Markup (Element)

/-- A document in which a setter has a range over a field that is set further on. -/
def forwardRoot : Element :=
  { name := rootName
    children := [
      { name := "functions"
        children := [keyed "function" "f" "normal_probability" [
          literal "mean" "Decimal" "0", literal "stddev" "Decimal" "1"]] },
      { name := "record_sequences"
        children := [
          { name := "random_sequence"
            attributes := [("key", "a")]
            children := [
              { name := "record_type"
                children := [
                  { name := "field", attributes := [("name", "x"), ("type", "I32")] },
                  { name := "field", attributes := [("name", "y"), ("type", "I32")] }] },
              { name := "setter_chain"
                children := [
                  keyed "setter" "s" "field_setter" [
                    link "field" "x",
                    nested "value" "clustered_value_provider[I32]" [
                      link "probability" "f",
                      nested "cardinality" "context_field_range_provider[I32]" [link "field" "y"]]],
                  keyed "setter" "t" "field_setter" [
                    link "field" "y",
                    nested "value" "const_value_provider[I32]" [literal "value" "I32" "0"]]] },
              { name := "cardinality_estimator"
                attributes := [("type", "const_estimator")]
                children := [literal "cardinality" "I64u" "1"] }] }] }] }

/-- The text of the document. -/
def forwardText : String :=
  String.ofList forwardRoot.print

theorem parse_forwardText : Markup.parse forwardText = .ok forwardRoot :=
  Markup.Element.parse_print (by decide +kernel)

/-- Whether a range in the chain of a random sequence is over a field that is set further on. -/
def rangesForward (spec : Specification .resolved) : Bool :=
  spec.sequences.toList.any fun sequence => sequence.kind == .random &&
    (spec.chain sequence).any fun id =>
      (spec.component id).kind == .contextFieldRangeProvider &&
        (spec.boundSetter (spec.component id) "field").toOption.any fun used =>
          !(spec.component id).children.contains used &&
            decide ((spec.outermost (spec.component id)).order ≤ (spec.component used).order)

set_option maxRecDepth 100000 in
theorem exists_compiled_forward :
    ∃ spec report after, readDocument forwardText = .ok spec ∧ rangesForward spec = true ∧
      (spec.plan "Shop").failure = none ∧
      compileInMemory {} "Shop" forwardText = (.ok report, after) := by
  refine exists_compiled_of_isRenderable parse_forwardText ?_ {} "Shop"
  cbv

/-- The chain of the sample is rendered, and one of its ranges is over a field that is set further
on. -/
theorem exists_rendered_forward :
    ∃ spec, readDocument forwardText = .ok spec ∧ ∃ sequence ∈ spec.sequences.toList,
      sequence.kind = .random ∧ (∃ pair, RecordContext.chainHeaders ⟨spec, sequence, "Shop"⟩
        (ChainNames.assign spec sequence) = .ok pair) ∧
      ∃ id ∈ spec.chain sequence, (spec.component id).kind = .contextFieldRangeProvider ∧
        ∃ used, spec.boundSetter (spec.component id) "field" = .ok used ∧
          used ∉ (spec.component id).children ∧
          (spec.outermost (spec.component id)).order ≤ (spec.component used).order := by
  obtain ⟨spec, _, _, read, forward, complete, -⟩ := exists_compiled_forward
  obtain ⟨sequence, member, forward⟩ := List.any_eq_true.mp forward
  obtain ⟨random, forward⟩ := Bool.and_eq_true_iff.mp forward
  obtain ⟨id, inside, forward⟩ := List.any_eq_true.mp forward
  obtain ⟨sort, forward⟩ := Bool.and_eq_true_iff.mp forward
  rw [Option.any_eq_true] at forward
  obtain ⟨used, asked, forward⟩ := forward
  obtain ⟨apart, later⟩ := Bool.and_eq_true_iff.mp forward
  obtain ⟨pairs, rendered, -⟩ := Specification.exists_headers_of_plan (linked_of_readDocument read)
    complete member (beq_iff_eq.mp random)
  obtain ⟨chain, -, chained⟩ := RecordContext.exists_chainHeaders rendered
  refine ⟨spec, read, sequence, member, beq_iff_eq.mp random, ⟨chain, chained⟩, id, inside,
    beq_iff_eq.mp sort, used, toOption_eq_some_iff.mp asked, ?_, of_decide_eq_true later⟩
  intro child
  rw [List.contains_iff_mem.mpr child] at apart
  cases apart

end Prototype.Sample

open Prototype.Sample in
/-- The chain of the sample is rendered. Its members, with a range among them, name only what they use,
and for a use the order of the two is decided by their setters. -/
theorem forward_uses :
    ∃ spec, readDocument forwardText = .ok spec ∧ ∃ sequence ∈ spec.sequences.toList,
      (∃ pair, RecordContext.chainHeaders ⟨spec, sequence, "Shop"⟩
        (ChainNames.assign spec sequence) = .ok pair) ∧
      ∃ declarations types,
        RecordContext.chainDeclarations ⟨spec, sequence, "Shop"⟩
          (ChainNames.assign spec sequence) {} (ChainNames.assign spec sequence).postOrder =
            .ok (declarations, types) ∧
        (∃ declaration ∈ declarations,
          (spec.component declaration.member.id).kind = .contextFieldRangeProvider) ∧
        ∀ declaration ∈ declarations, RecordContext.Grounded ⟨spec, sequence, "Shop"⟩
          (ChainNames.assign spec sequence) declarations declaration := by
  obtain ⟨spec, read, sequence, member, -, ⟨pair, rendered⟩, id, inside, sort, -⟩ :=
    exists_rendered_forward
  obtain ⟨declarations, types, declared, order, -, uses⟩ := chain_uses read member rendered
  refine ⟨spec, read, sequence, member, ⟨pair, rendered⟩, declarations, types, declared, ?_, uses⟩
  have listed := (ChainNames.postOrder_perm (linked_of_readDocument read).wellFormed
    member).mem_iff.mpr inside
  rw [← order] at listed
  obtain ⟨declaration, present, rfl⟩ := List.mem_map.mp listed
  exact ⟨declaration, present, sort⟩

open Prototype.Sample in
/-- **A chain member can name a type that is not declared yet.** In the sample, a range names the type
of a setter that is declared further on, and of nothing else. -/
theorem forward_type_undeclared :
    ∃ spec, readDocument forwardText = .ok spec ∧ ∃ sequence ∈ spec.sequences.toList,
      sequence.kind = .random ∧ (∃ pair, RecordContext.chainHeaders ⟨spec, sequence, "Shop"⟩
        (ChainNames.assign spec sequence) = .ok pair) ∧
      ∃ declarations types,
        RecordContext.chainDeclarations ⟨spec, sequence, "Shop"⟩
          (ChainNames.assign spec sequence) {} (ChainNames.assign spec sequence).postOrder =
            .ok (declarations, types) ∧
        ∃ declaration ∈ declarations, ∃ name, .memberType name ∈ declaration.type.arguments ∧
          ∀ other ∈ declarations, other.member.typeName = name →
            ¬[other.member.id, declaration.member.id].Sublist
              (ChainNames.assign spec sequence).postOrder := by
  obtain ⟨spec, read, sequence, member, random, ⟨pair, rendered⟩, id, inside, sort, used, asked,
    apart, later⟩ := exists_rendered_forward
  have linked := linked_of_readDocument read
  have chained := ChainNames.postOrder_perm linked.wellFormed member
  obtain ⟨⟨declarations, types⟩, declared, -⟩ := bind_eq_ok_iff.mp rendered
  have all := (RecordContext.forall₂_of_chainDeclarations declared).imp fun _ _ here =>
    RecordContext.chainDeclaration_eq_ok here
  obtain ⟨declaration, present, -, formed, found, -⟩ :=
    exists_right_of_mem all (chained.mem_iff.mpr inside)
  obtain ⟨named, known, mentioned⟩ := TypeScope.memberType_mem_typeArguments sort asked formed
  refine ⟨spec, read, sequence, member, random, ⟨pair, rendered⟩, declarations, types, declared,
    declaration, present, named.typeName, mentioned, fun other there same => ?_⟩
  -- Only the setter has the type name.
  obtain ⟨place, -, -, -, here, -⟩ := exists_left_of_mem all there
  have alike : other.member = named := List.inj_on_of_nodup_map
    (ChainNames.nodup_typeNames spec sequence) (ChainNames.find?_eq_some here).1
    (ChainNames.find?_eq_some known).1 same
  have position : other.member.id = used := by
    rw [alike, (ChainNames.find?_eq_some known).2]
  have listed : used ∈ spec.chain sequence := by
    have named := List.mem_map_of_mem (f := ChainMember.id) (ChainNames.find?_eq_some known).1
    rw [(ChainNames.find?_eq_some known).2] at named
    exact chained.mem_iff.mp named
  rw [position, (ChainNames.find?_eq_some found).2, ChainNames.uses_precedes_iff linked member inside
    listed (Specification.uses_of_boundSetter sort asked)]
  rintro (child | before)
  · exact apart child
  · omega

end Recordgen

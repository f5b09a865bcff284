import Recordgen.Chain.Constructor
import Recordgen.Chain.Type
import Recordgen.Proofs.ChainMembers
import Recordgen.Proofs.ResolvedForm

/-! # Rendering the members of a setter chain

What a kind's directives ask for is there in every conforming component
(`Kind.directives_supported`), so rendering a chain member fails in two ways only: a callback
provider gives no usable name (`Component.BadCallback`), or a range provider refers to a field
without a setter in this chain (`Specification.BadRange`).
-/

namespace Recordgen

open Outcome

/-- The callback name that a component gives: a plain text, without the blanks around it. -/
def Component.GivesName (component : Component .resolved) (name : String) : Prop :=
  ∃ literal value cast, component.argument? "name" = some (.literal literal) ∧
    Literal.form literal = .plain value cast ∧ Text.trim value = name

/-- A callback provider whose name is not a plain identifier. -/
def Component.BadCallback (component : Component .resolved) : Prop :=
  component.kind = .callbackValueProvider ∧
    ¬∃ name, component.GivesName name ∧ Component.isIdentifier name.toList = true

/-- A range provider that refers to a field through a reference, to a field without a setter, or to
one whose setter belongs to another sequence. -/
def Specification.BadRange (spec : Specification .resolved) (sequence : RecordSequence)
    (component : Component .resolved) : Prop :=
  component.kind = .contextFieldRangeProvider ∧ ∃ link : FieldLink,
    component.argument? "field" = some (@Argument.fieldRef .resolved link) ∧
      (link.inner ≠ [] ∨ (spec.field link.field).setter = none ∨
        ∃ setter ∈ (spec.field link.field).setter,
          (spec.component setter).owner ≠ some sequence.id)

/-- A chain member that cannot be rendered. -/
def Specification.BadMember (spec : Specification .resolved) (sequence : RecordSequence)
    (id : ComponentId) : Prop :=
  (spec.component id).BadCallback ∨ spec.BadRange sequence (spec.component id)

/-- The errors that emission of a resolved document can end with. -/
def RenderError : CompileError → Prop
  | .malformed (.rendering (.notConstant ..)) => True
  | .malformed (.rendering (.badCallbackName ..)) => True
  | .malformed (.rendering (.callbackConflict ..)) => True
  | .setterTarget _ _ .throughReference => True
  | .setterTarget _ _ .noSetter => True
  | .setterTarget _ _ .foreignChain => True
  | _ => False

namespace Argument

variable {argument : Argument .resolved}

theorem eq_literal {literal : Literal} (picked : argument.literal? = some literal) :
    argument = .literal literal := by
  cases argument with
  | literal value => exact congrArg Argument.literal (Option.some.inj picked)
  | fieldRef | referenceRef | functionRef | component | collection => cases picked

theorem eq_fieldRef {link : FieldLink} (picked : argument.fieldRef? = some link) :
    argument = @Argument.fieldRef .resolved link := by
  cases argument with
  | fieldRef target => exact congrArg (@Argument.fieldRef .resolved) (Option.some.inj picked)
  | literal | referenceRef | functionRef | component | collection => cases picked

theorem eq_referenceRef {link : ReferenceLink} (picked : argument.referenceRef? = some link) :
    argument = @Argument.referenceRef .resolved link := by
  cases argument with
  | referenceRef target =>
      exact congrArg (@Argument.referenceRef .resolved) (Option.some.inj picked)
  | literal | fieldRef | functionRef | component | collection => cases picked

theorem eq_functionRef {id : ComponentId} (picked : argument.functionRef? = some id) :
    argument = @Argument.functionRef .resolved id := by
  cases argument with
  | functionRef target => exact congrArg (@Argument.functionRef .resolved) (Option.some.inj picked)
  | literal | fieldRef | referenceRef | component | collection => cases picked

end Argument

/-- The schema has an argument of the given kind under the key. -/
def Kind.hasArgument (kind : Kind) (key : String) (argument : ArgumentKind) : Bool :=
  kind.entry.schema.any fun entry => entry.key == key && entry.kind == argument

/-- Whether the schema of a kind provides for what a directive asks for. -/
def Directive.isSupported (kind : Kind) : Directive → Bool
  | .literal key => kind.hasArgument key (.single .literal)
  | .verbatim _ | .environment _ => true
  | .fieldSetter key => key == "field" && kind == .contextFieldRangeProvider
  | .sequenceInspector => kind.entry.category == .referenceProvider
  | .function key => kind.hasArgument key (.single .functionRef)
  | .nested key => kind.entry.schema.any fun entry =>
      entry.key == key && entry.kind.item.category?.isSome
  | .callback key => key == "name" && kind == .callbackValueProvider
  | .fieldAccessor key => kind.hasArgument key (.single .fieldRef)

/-- Every directive of a kind is supported by the kind. -/
theorem Kind.directives_supported (kind : Kind) :
    ∀ directive ∈ kind.entry.directives, directive.isSupported kind = true := by
  cases kind <;> decide

/-- The only fixed text is the one for the object itself. -/
theorem Kind.eq_of_verbatim {kind : Kind} {text : String}
    (listed : .verbatim text ∈ kind.entry.directives) : text = "*this" := by
  revert listed
  cases kind <;> simp [entry]

namespace Component

variable {component : Component .resolved} {arena : List (Component .resolved)} {key name : String}
  {argument : Argument .resolved} {literal : Literal}

section

variable (conforms : component.Conforms arena) {key : String}

include conforms

/-- What the schema asks for under a key is there. -/
theorem holds_of_hasArgument
    {item : ItemKind} (listed : component.kind.hasArgument key (.single item) = true) :
    ∃ argument, component.argument? key = some argument ∧ argument.Holds arena item := by
  obtain ⟨entry, member, same⟩ := List.any_eq_true.mp listed
  rw [Bool.and_eq_true, beq_iff_eq, beq_iff_eq] at same
  obtain ⟨rfl, kind⟩ := same
  obtain ⟨argument, found, fits⟩ := conforms.argument?_of_mem member
  rw [kind] at fits
  cases fits with
  | single _ _ holds => exact ⟨argument, found, holds⟩

theorem literal_of_hasArgument (listed : component.kind.hasArgument key (.single .literal) = true) :
    ∃ literal, component.argument? key = some (.literal literal) := by
  obtain ⟨argument, found, holds⟩ := holds_of_hasArgument conforms listed
  cases holds with
  | literal literal => exact ⟨literal, found⟩

theorem field_of_hasArgument (listed : component.kind.hasArgument key (.single .fieldRef) = true) :
    ∃ link : FieldLink, component.argument? key = some (@Argument.fieldRef .resolved link) := by
  obtain ⟨argument, found, holds⟩ := holds_of_hasArgument conforms listed
  cases holds with
  | fieldRef link => exact ⟨link, found⟩

theorem reference_of_hasArgument
    (listed : component.kind.hasArgument key (.single .referenceRef) = true) :
    ∃ link : ReferenceLink,
      component.argument? key = some (@Argument.referenceRef .resolved link) := by
  obtain ⟨argument, found, holds⟩ := holds_of_hasArgument conforms listed
  cases holds with
  | referenceRef link => exact ⟨link, found⟩

end

/-- An argument that is found is one of the component's. -/
theorem mem_arguments_of_argument? (found : component.argument? key = some argument) :
    (key, argument) ∈ component.arguments :=
  mem_of_lookup_eq_some found

private theorem function_of_hasArgument (conforms : component.Conforms arena)
    (listed : component.kind.hasArgument key (.single .functionRef) = true) :
    ∃ id : ComponentId, component.argument? key = some (@Argument.functionRef .resolved id) ∧
      @Argument.functionRef .resolved id ∈ component.items := by
  obtain ⟨argument, found, holds⟩ := holds_of_hasArgument conforms listed
  cases holds with
  | functionRef id =>
      exact ⟨id, found, List.mem_flatMap.mpr
        ⟨_, mem_arguments_of_argument? found, List.mem_singleton_self _⟩⟩

private theorem nested_of_hasArgument (conforms : component.Conforms arena)
    {category : NestedCategory}
    (listed : component.kind.hasArgument key (.single (.nested category)) = true) :
    ∃ id, component.argument? key = some (.component id) ∧ id ∈ component.children := by
  obtain ⟨argument, found, holds⟩ := holds_of_hasArgument conforms listed
  cases holds with
  | nested _ id =>
      exact ⟨id, found, List.mem_flatMap.mpr
        ⟨_, mem_arguments_of_argument? found, List.mem_singleton_self _⟩⟩

theorem argumentAs_eq_ok {α : Type} {expected : String} {select : Argument .resolved → Option α}
    {value : α} (found : component.argument? key = some argument)
    (picked : select argument = some value) :
    component.argumentAs key expected select = .ok value := by
  have here : component.argument key = .ok argument := by
    rw [Component.argument, found]
  simp only [argumentAs, here, bind, Except.bind, picked]
  rfl

/-- A type parameter of the kind is given and has a name. -/
theorem typeParameter_eq_ok (conforms : component.Conforms arena)
    (listed : .literal name ∈ component.kind.entry.params) :
    ∃ type, component.literalParameter? name = some type ∧
      component.typeParameter name = .ok type.name := by
  obtain ⟨type, found⟩ := conforms.types name listed
  exact ⟨type, found, by rw [typeParameter, found]⟩

/-- The class of a function can always be written. -/
theorem exists_functionClass (conforms : component.Conforms arena) :
    ∃ className, component.functionClass = .ok className := by
  have each : ∀ parameter ∈ component.kind.entry.params, ∃ argument,
      component.templateArgument parameter = .ok argument := by
    intro parameter listed
    cases parameter with
    | literal name =>
        obtain ⟨type, -, written⟩ := typeParameter_eq_ok conforms listed
        exact ⟨_, written⟩
    | size name => exact ⟨_, rfl⟩
  obtain ⟨arguments, found⟩ := exists_mapM_ok each
  rw [functionClass, found]
  change ∃ className, (if arguments.isEmpty then _ else _) = Except.ok className
  split
  · exact ⟨_, rfl⟩
  · exact ⟨_, rfl⟩

private theorem callbackName?_eq_some_iff :
    callbackName? literal = some name ↔ ∃ value cast, literal.form = .plain value cast ∧
      Text.trim value = name ∧ isIdentifier name.toList = true := by
  cases form : literal.form with
  | plain value cast =>
      rw [callbackName?, form]
      dsimp only
      split
      · rename_i spelled
        rw [Option.some.injEq]
        constructor
        · rintro rfl
          exact ⟨value, cast, rfl, rfl, spelled⟩
        · rintro ⟨_, _, same, trimmed, -⟩
          cases same
          exact trimmed
      · rename_i misspelled
        refine iff_of_false nofun ?_
        rintro ⟨_, _, same, rfl, spelled⟩
        cases same
        exact misspelled spelled
  | parameter | expression | null =>
      rw [callbackName?, form]
      refine iff_of_false nofun ?_
      rintro ⟨_, _, same, -⟩
      cases same

private theorem callbackName_eq (found : component.argument? key = some (.literal literal)) :
    component.callbackName key = match callbackName? literal with
      | some name => .ok name
      | none => .error (.rendering (.badCallbackName literal.raw component.describe)) := by
  have read : component.literalArgument key = .ok literal := argumentAs_eq_ok found rfl
  rw [callbackName, read]
  rfl

/-- When the name of a callback cannot be used. -/
theorem callbackName_fails (conforms : component.Conforms arena)
    (sort : component.kind = .callbackValueProvider) :
    FailsExactly component.BadCallback RenderError (component.callbackName "name") := by
  have listed : component.kind.hasArgument "name" (.single .literal) = true := by
    rw [sort]
    rfl
  obtain ⟨literal, found⟩ := literal_of_hasArgument conforms listed
  rw [callbackName_eq found]
  cases name? : callbackName? literal with
  | some name =>
      obtain ⟨value, cast, form, trimmed, spelled⟩ := callbackName?_eq_some_iff.mp name?
      refine (FailsExactly.ok name).congr (iff_of_false not_false ?_)
      rintro ⟨-, nameless⟩
      exact nameless ⟨name, ⟨literal, value, cast, found, form, trimmed⟩, spelled⟩
  | none =>
      refine (FailsExactly.error trivial).congr (iff_of_true trivial ⟨sort, ?_⟩)
      rintro ⟨name, ⟨other, value, cast, again, form, trimmed⟩, spelled⟩
      obtain ⟨⟩ := Option.some.inj (found.symm.trans again)
      rw [callbackName?_eq_some_iff.mpr ⟨value, cast, form, trimmed, spelled⟩] at name?
      cases name?

/-- A name that is read as a callback's is the one that the component gives. -/
theorem givesName_of_callbackName (conforms : component.Conforms arena)
    (sort : component.kind = .callbackValueProvider)
    (succeeded : component.callbackName "name" = .ok name) : component.GivesName name := by
  have listed : component.kind.hasArgument "name" (.single .literal) = true := by
    rw [sort]
    rfl
  obtain ⟨literal, found⟩ := literal_of_hasArgument conforms listed
  rw [callbackName_eq found] at succeeded
  split at succeeded
  · rename_i name?
    obtain rfl := Except.ok.inj succeeded
    obtain ⟨value, cast, form, trimmed, -⟩ := callbackName?_eq_some_iff.mp name?
    exact ⟨literal, value, cast, found, form, trimmed⟩
  · cases succeeded

/-- A component gives one name. -/
theorem GivesName.unique {first second : String} (one : component.GivesName first)
    (two : component.GivesName second) : first = second := by
  obtain ⟨literal, value, cast, found, form, rfl⟩ := one
  obtain ⟨other, text, _, again, same, rfl⟩ := two
  obtain ⟨⟩ := Option.some.inj (found.symm.trans again)
  rw [form] at same
  cases same
  rfl

end Component

/-- A directive that needs nothing but the literals of the component itself. -/
def Directive.isPlain : Directive → Bool
  | .literal _ | .verbatim _ | .environment _ => true
  | _ => false

private theorem Kind.directives_plain (kind : Kind) (flat : kind.entry.category.isFlat = true) :
    ∀ directive ∈ kind.entry.directives, directive.isPlain = true := by
  revert flat
  cases kind <;> decide

/-- The constructor of a component that holds no others can be called everywhere. -/
theorem exists_argumentTexts {component : Component .resolved} {arena : List (Component .resolved)}
    (conforms : component.Conforms arena) (flat : component.kind.entry.category.isFlat = true)
    (scope : ConstructorScope) : ∃ texts, scope.argumentTexts component = .ok texts := by
  have each : ∀ directive ∈ component.kind.entry.directives, ∃ arguments,
      scope.directiveArguments component directive = .ok arguments := by
    intro directive listed
    have plain := component.kind.directives_plain flat directive listed
    have supported := component.kind.directives_supported directive listed
    cases directive with
    | literal key =>
        obtain ⟨literal, found⟩ := Component.literal_of_hasArgument conforms supported
        exact ⟨_, bind_eq_ok_iff.mpr ⟨literal, Component.argumentAs_eq_ok found rfl, rfl⟩⟩
    | verbatim | environment => exact ⟨_, rfl⟩
    | fieldSetter | sequenceInspector | function | nested | callback | fieldAccessor => cases plain
  have arguments := exists_mapM_ok each
  exact exists_bind_ok (exists_bind_ok arguments fun _ => ⟨_, rfl⟩) fun _ => ⟨_, rfl⟩

section Chain

variable {spec : Specification .resolved} {sequence : RecordSequence} {names : ChainNames}
  {id : ComponentId} {field : FieldId} {setter : ComponentId} {component : Component .resolved}
  {arena : List (Component .resolved)}

/-- What a chain member holds has a name. -/
theorem exists_get_of_held (linked : spec.Linked)
    (named : names.postOrder.Perm (spec.chain sequence)) (inside : id ∈ spec.chain sequence)
    {child : ComponentId} (held : child ∈ (spec.component id).children) :
    ∃ member, names.get child = .ok member :=
  ChainNames.exists_get
    (named.mem_iff.mpr (linked.wellFormed.mem_chain_of_held inside held))

/-- The setter of a field is a field setter of the specification. -/
theorem Specification.Linked.setter_of_field (linked : spec.Linked)
    (bound : (spec.field field).setter = some setter) :
    spec.component setter ∈ spec.components.toList ∧ (spec.component setter).id = setter ∧
      (spec.component setter).kind = .fieldSetter := by
  cases present : spec.fields[field.index]? with
  | none =>
      rw [Specification.field, Array.getD_eq_getD_getElem?, present] at bound
      cases bound
  | some stored =>
      rw [Specification.field_eq present] at bound
      obtain ⟨component, listed, rfl, sort⟩ := linked.setters stored
        (Array.mem_toList_iff.mpr (Array.mem_of_getElem? present)) setter bound
      rw [linked.wellFormed.component_id listed]
      exact ⟨listed, rfl, sort⟩

/-- The setter of a field has no name in a chain exactly when it belongs to another sequence. -/
theorem find?_setter_eq_none_iff (linked : spec.Linked) (member : sequence ∈ spec.sequences.toList)
    (named : names.postOrder.Perm (spec.chain sequence))
    (bound : (spec.field field).setter = some setter) :
    names.find? setter = none ↔ (spec.component setter).owner ≠ some sequence.id := by
  have wellFormed := linked.wellFormed
  rw [ChainNames.find?_eq_none_iff, named.mem_iff, not_iff_not]
  constructor
  · intro inside
    exact (wellFormed.chain_member member inside).2.2.1
  · intro owned
    obtain ⟨listed, placed, sort⟩ := linked.setter_of_field bound
    obtain ⟨other, known, among⟩ := wellFormed.exists_sequence_of_setter listed
      (by rw [sort]; rfl)
    rw [placed] at among
    have home := (wellFormed.component_of_setter known among).2.2.2
    obtain rfl := wellFormed.eq_of_id known member (Option.some.inj (home.symm.trans owned))
    exact wellFormed.mem_chain_of_setter among

section Field

variable {component : Component .resolved} {link : FieldLink}
  (found : component.argument? "field" = some (@Argument.fieldRef .resolved link))

include found

private theorem badRange_iff (sort : component.kind = .contextFieldRangeProvider) :
    spec.BadRange sequence component ↔ link.inner ≠ [] ∨
      (spec.field link.field).setter = none ∨ ∃ setter ∈ (spec.field link.field).setter,
        (spec.component setter).owner ≠ some sequence.id := by
  constructor
  · rintro ⟨-, other, again, reason⟩
    obtain ⟨⟩ := Option.some.inj (found.symm.trans again)
    exact reason
  · exact fun reason => ⟨sort, link, found, reason⟩

/-- A range through a reference has no setter bound to it. -/
theorem boundSetter_of_inner (through : link.inner ≠ []) :
    spec.boundSetter component "field" =
      .error (.setterTarget link.path component.describe .throughReference) := by
  have read : component.fieldArgument "field" = .ok link := Component.argumentAs_eq_ok found rfl
  have curved : link.isDirect = false := List.isEmpty_eq_false_iff.mpr through
  simp only [Specification.boundSetter, read, bind, Except.bind, curved]
  rfl

/-- A range over a field that is named directly has the field's setter, if there is one. -/
theorem boundSetter_of_direct (direct : link.inner = []) :
    spec.boundSetter component "field" = match (spec.field link.field).setter with
      | some setter => .ok setter
      | none => .error (.setterTarget link.path component.describe .noSetter) := by
  have read : component.fieldArgument "field" = .ok link := Component.argumentAs_eq_ok found rfl
  have straight : link.isDirect = true := List.isEmpty_iff.mpr direct
  simp only [Specification.boundSetter, read, bind, Except.bind, straight]
  rfl

end Field

/-- When the setter behind the field of a range provider cannot be used in a chain. -/
theorem boundSetter_fails {α : Type} (use : ChainMember → α) (linked : spec.Linked)
    (member : sequence ∈ spec.sequences.toList) (named : names.postOrder.Perm (spec.chain sequence))
    (conforms : component.Conforms arena) (sort : component.kind = .contextFieldRangeProvider) :
    FailsExactly (spec.BadRange sequence component) RenderError (do
      let setter ← spec.boundSetter component "field"
      match names.find? setter with
      | some member => Except.ok (use member)
      | none => Except.error (component.foreignSetter "field")) := by
  have listed : component.kind.hasArgument "field" (.single .fieldRef) = true := by
    rw [sort]
    rfl
  obtain ⟨link, found⟩ := Component.field_of_hasArgument conforms listed
  rw [badRange_iff found sort]
  by_cases direct : link.inner = []
  · rw [boundSetter_of_direct found direct]
    cases bound : (spec.field link.field).setter with
    | none => exact (FailsExactly.error trivial).congr (iff_of_true trivial (.inr (.inl rfl)))
    | some setter =>
        have known := find?_setter_eq_none_iff linked member named bound
        simp only [bind, Except.bind]
        cases own : names.find? setter with
        | none =>
            refine (FailsExactly.error trivial).congr (iff_of_true trivial ?_)
            exact .inr (.inr ⟨setter, rfl, known.mp own⟩)
        | some found =>
            refine (FailsExactly.ok _).congr (iff_of_false not_false ?_)
            rintro (through | unset | ⟨other, same, foreign⟩)
            · exact through direct
            · cases unset
            · obtain rfl := Option.some.inj same
              rw [known.mpr foreign] at own
              cases own
  · rw [boundSetter_of_inner found direct]
    exact (FailsExactly.error trivial).congr (iff_of_true trivial (.inl direct))

/-- A member that selects or inspects referred records is for those that the reference setter around
it refers to. -/
theorem referenceTarget_of_subtree (linked : spec.Linked)
    (member : sequence ∈ spec.sequences.toList) {root : ComponentId}
    (setter : root ∈ sequence.setters) (inside : id ∈ spec.subtree root)
    (under : Specification.WellFormed.underReference (spec.component id)) :
    (spec.component root).kind = .referenceSetter ∧ ∃ link : ReferenceLink,
      (spec.component root).argument? "reference" = some (@Argument.referenceRef .resolved link) ∧
        spec.referenceTarget (spec.component id) = .ok (spec.reference link.reference).target := by
  have wellFormed := linked.wellFormed
  obtain ⟨present, placed, -⟩ :=
    wellFormed.chain_member member (List.mem_flatMap.mpr ⟨root, setter, inside⟩)
  have sort := wellFormed.kind_of_underReference member setter inside under
  have top := Specification.WellFormed.mem_roots_of_setter member setter
  have listed := (wellFormed.component_of_setter member setter).1
  have argument : (spec.component root).kind.hasArgument "reference" (.single .referenceRef) =
      true := by
    rw [sort]
    rfl
  obtain ⟨link, found⟩ := Component.reference_of_hasArgument
    (wellFormed.conform _ (Array.mem_toList_iff.mpr (Array.mem_of_getElem? listed))) argument
  have isReference : ((spec.component root).kind == .referenceSetter) = true :=
    beq_iff_eq.mpr sort
  refine ⟨sort, link, found, ?_⟩
  simp only [Specification.referenceTarget,
    Specification.outermost_eq wellFormed top inside present placed, isReference, found]
  rfl

/-- A member that selects or inspects referred records knows which records these are. -/
theorem exists_referenceTarget (linked : spec.Linked) (member : sequence ∈ spec.sequences.toList)
    (inside : id ∈ spec.chain sequence)
    (under : Specification.WellFormed.underReference (spec.component id)) :
    ∃ target, spec.referenceTarget (spec.component id) = .ok target := by
  obtain ⟨root, setter, inside⟩ := List.mem_flatMap.mp inside
  obtain ⟨-, link, -, known⟩ := referenceTarget_of_subtree linked member setter inside under
  exact ⟨_, known⟩

/-- The function that an argument refers to has a class. -/
theorem exists_function (linked : spec.Linked) (present : component ∈ spec.components.toList)
    {key : String} (listed : component.kind.hasArgument key (.single .functionRef) = true) :
    ∃ function : ComponentId,
      component.argument? key = some (@Argument.functionRef .resolved function) ∧
        ∃ className, (spec.component function).functionClass = .ok className := by
  obtain ⟨function, found, held⟩ := Component.function_of_hasArgument
    (linked.wellFormed.conform component present) listed
  obtain ⟨target, stored, -⟩ := linked.wellFormed.functions function
    (linked.functions component present function held)
  refine ⟨function, found, ?_⟩
  rw [Specification.component_eq stored]
  exact Component.exists_functionClass (linked.wellFormed.conform target
    (Array.mem_toList_iff.mpr (Array.mem_of_getElem? stored)))

/-- What is nested in an argument has names, whether it is one component or a collection. -/
theorem exists_nestedMembers (linked : spec.Linked)
    (named : names.postOrder.Perm (spec.chain sequence)) (inside : id ∈ spec.chain sequence)
    (conforms : (spec.component id).Conforms arena) (config base : String) {entry : SchemaEntry}
    (listed : entry ∈ (spec.component id).kind.entry.schema)
    (nested : entry.kind.item.category?.isSome = true) :
    ∃ members, ConstructorScope.nestedMembers ⟨spec, config, some names, some base⟩
      (spec.component id) entry.key = .ok members := by
  obtain ⟨argument, found, fits⟩ := conforms.argument?_of_mem listed
  have read : (spec.component id).argument entry.key = .ok argument := by
    rw [Component.argument, found]
  have stored := Component.mem_arguments_of_argument? found
  simp only [ConstructorScope.nestedMembers, read]
  generalize entry.kind = kind at fits nested
  cases fits with
  | single item _ holds =>
      cases holds with
      | nested category child _ _ _ =>
          have held : child ∈ (spec.component id).children :=
            List.mem_flatMap.mpr ⟨_, stored, List.mem_singleton_self child⟩
          obtain ⟨member, known⟩ := exists_get_of_held linked named inside held
          exact ⟨_, bind_eq_ok_iff.mpr ⟨_, rfl, bind_eq_ok_iff.mpr
            ⟨_, bind_eq_ok_iff.mpr ⟨member, known, rfl⟩, rfl⟩⟩⟩
      | literal | fieldRef | referenceRef | functionRef => cases nested
  | collection item items filled holds =>
      refine exists_mapM_ok fun argument member => ?_
      have holds := holds argument member
      cases holds with
      | nested category child _ _ _ =>
          have held : child ∈ (spec.component id).children :=
            List.mem_flatMap.mpr ⟨_, stored, List.mem_filterMap.mpr ⟨_, member, rfl⟩⟩
          obtain ⟨name, known⟩ := exists_get_of_held linked named inside held
          exact ⟨_, bind_eq_ok_iff.mpr ⟨name, known, rfl⟩⟩
      | literal | fieldRef | referenceRef | functionRef => cases nested

/-- What makes a directive fail for a chain member. -/
def Directive.Fails (spec : Specification .resolved) (sequence : RecordSequence)
    (component : Component .resolved) : Directive → Prop
  | .callback _ => component.BadCallback
  | .fieldSetter _ => spec.BadRange sequence component
  | _ => False

section

variable (linked : spec.Linked) (member : sequence ∈ spec.sequences.toList)
  (named : names.postOrder.Perm (spec.chain sequence)) (inside : id ∈ spec.chain sequence)
  (config base : String)

include linked member named inside

/-- **Directives.** A directive for a chain member fails for a bad callback or a bad range only. -/
theorem directiveArguments_fails {directive : Directive}
    (supported : directive.isSupported (spec.component id).kind = true) :
    FailsExactly (directive.Fails spec sequence (spec.component id)) RenderError
      (ConstructorScope.directiveArguments ⟨spec, config, some names, some base⟩
        (spec.component id) directive) := by
  have present := (linked.wellFormed.chain_member member inside).1
  have conforms := linked.wellFormed.conform _ present
  cases directive with
  | literal key =>
      obtain ⟨literal, found⟩ := Component.literal_of_hasArgument conforms supported
      exact .of_succeeds
        ⟨_, bind_eq_ok_iff.mpr ⟨literal, Component.argumentAs_eq_ok found rfl, rfl⟩⟩
  | verbatim text => exact .ok _
  | environment key => exact .ok _
  | fieldSetter key =>
      obtain ⟨same, sort⟩ := Bool.and_eq_true_iff.mp supported
      obtain rfl := beq_iff_eq.mp same
      exact (boundSetter_fails (fun member => ConstructorArgument.member member.memberName) linked
        member named conforms (beq_iff_eq.mp sort)).bind_ok fun _ => ⟨_, rfl⟩
  | sequenceInspector =>
      have target := exists_referenceTarget linked member inside (.inl (beq_iff_eq.mp supported))
      exact .of_succeeds (exists_bind_ok (exists_bind_ok target fun _ => ⟨_, rfl⟩) fun _ => ⟨_, rfl⟩)
  | function key =>
      obtain ⟨function, found, className, written⟩ := exists_function linked present supported
      exact .of_succeeds ⟨_, bind_eq_ok_iff.mpr ⟨_, bind_eq_ok_iff.mpr
        ⟨function, Component.argumentAs_eq_ok found rfl, bind_eq_ok_iff.mpr
          ⟨className, written, rfl⟩⟩, rfl⟩⟩
  | nested key =>
      obtain ⟨entry, listed, found⟩ := List.any_eq_true.mp supported
      obtain ⟨same, nested⟩ := Bool.and_eq_true_iff.mp found
      obtain rfl := beq_iff_eq.mp same
      exact .of_succeeds
        (exists_nestedMembers linked named inside conforms config base listed nested)
  | callback key =>
      obtain ⟨same, sort⟩ := Bool.and_eq_true_iff.mp supported
      obtain rfl := beq_iff_eq.mp same
      exact ((Component.callbackName_fails conforms (beq_iff_eq.mp sort)).bind_ok
        fun _ => ⟨_, rfl⟩).bind_ok fun _ => ⟨_, rfl⟩
  | fieldAccessor key =>
      obtain ⟨link, found⟩ := Component.field_of_hasArgument conforms supported
      exact .of_succeeds ⟨_, bind_eq_ok_iff.mpr ⟨_, bind_eq_ok_iff.mpr
        ⟨link, Component.argumentAs_eq_ok found rfl, rfl⟩, rfl⟩⟩

/-- The constructor arguments of a chain member fail for a bad callback or a bad range only. -/
theorem constructorArguments_fails :
    FailsExactly (spec.BadMember sequence id) RenderError
      (ConstructorScope.constructorArguments ⟨spec, config, some names, some base⟩
        (spec.component id)) := by
  have each := FailsExactly.mapM fun directive listed =>
    directiveArguments_fails linked member named inside config base
      (Kind.directives_supported _ directive listed)
  refine (each.bind_ok fun _ => ⟨_, rfl⟩).congr ?_
  constructor
  · rintro ⟨directive, -, failing⟩
    cases directive with
    | callback key => exact .inl failing
    | fieldSetter key => exact .inr failing
    | literal | verbatim | environment | sequenceInspector | function | nested | fieldAccessor =>
        exact failing.elim
  · rintro (bad | bad)
    · refine ⟨.callback "name", ?_, bad⟩
      rw [bad.1]
      exact .tail _ (.head _)
    · refine ⟨.fieldSetter "field", ?_, bad⟩
      rw [bad.1]
      exact .head _

end

namespace TypeScope

variable {component : Component .resolved} {arena : List (Component .resolved)}

theorem usable_eq_ok {α : Type} {key : String} {select : Argument .resolved → Option α}
    {argument : Argument .resolved} {value : α} (found : component.argument? key = some argument)
    (picked : select argument = some value) : usable component key select = .ok value := by
  rw [usable, found, Option.bind_some, picked]

private theorem exists_valueType (conforms : component.Conforms arena)
    (listed : Kind.valueType ∈ component.kind.entry.params) :
    ∃ argument, valueType component = .ok argument := by
  obtain ⟨type, -, written⟩ := Component.typeParameter_eq_ok conforms listed
  exact ⟨_, bind_eq_ok_iff.mpr ⟨_, written, rfl⟩⟩

private theorem exists_fieldConstant (scope : TypeScope) (key : String)
    (conforms : component.Conforms arena)
    (listed : component.kind.hasArgument key (.single .fieldRef) = true) :
    ∃ argument, scope.fieldConstant component key = .ok argument := by
  obtain ⟨link, found⟩ := Component.field_of_hasArgument conforms listed
  exact ⟨_, bind_eq_ok_iff.mpr ⟨link, usable_eq_ok found rfl, rfl⟩⟩

private theorem exists_referenceConstant (scope : TypeScope) (key : String)
    (conforms : component.Conforms arena)
    (listed : component.kind.hasArgument key (.single .referenceRef) = true) :
    ∃ argument, scope.referenceConstant component key = .ok argument := by
  obtain ⟨link, found⟩ := Component.reference_of_hasArgument conforms listed
  exact ⟨_, bind_eq_ok_iff.mpr ⟨link, usable_eq_ok found rfl, rfl⟩⟩

private theorem exists_functionType (scope : TypeScope) (key : String) (linked : scope.spec.Linked)
    (present : component ∈ scope.spec.components.toList)
    (listed : component.kind.hasArgument key (.single .functionRef) = true) :
    ∃ argument, scope.functionType component key = .ok argument := by
  obtain ⟨function, found, className, written⟩ := exists_function linked present listed
  exact ⟨_, bind_eq_ok_iff.mpr ⟨function, usable_eq_ok found rfl,
    bind_eq_ok_iff.mpr ⟨className, written, rfl⟩⟩⟩

variable {scope : TypeScope}

private theorem exists_nestedType (linked : scope.spec.Linked)
    (named : scope.names.postOrder.Perm (scope.spec.chain sequence))
    (inside : id ∈ scope.spec.chain sequence)
    (conforms : (scope.spec.component id).Conforms arena) (key : String)
    (category : NestedCategory) (listed : (scope.spec.component id).kind.hasArgument key
      (.single (.nested category)) = true) :
    ∃ argument, scope.nestedType (scope.spec.component id) key = .ok argument := by
  obtain ⟨child, found, held⟩ := Component.nested_of_hasArgument conforms listed
  obtain ⟨name, known⟩ := exists_get_of_held linked named inside held
  exact ⟨_, bind_eq_ok_iff.mpr ⟨child, usable_eq_ok found rfl,
    bind_eq_ok_iff.mpr ⟨name, known, rfl⟩⟩⟩

section

variable (linked : scope.spec.Linked) (member : sequence ∈ scope.spec.sequences.toList)

include linked member

private theorem exists_targetRecord (inside : id ∈ scope.spec.chain sequence)
    (under : Specification.WellFormed.underReference (scope.spec.component id)) :
    ∃ argument, scope.targetRecord (scope.spec.component id) = .ok argument := by
  exact exists_bind_ok (exists_referenceTarget linked member inside under) fun _ => ⟨_, rfl⟩

/-- The type of a chain member other than a range over a field can always be formed. -/
theorem exists_typeArguments (named : scope.names.postOrder.Perm (scope.spec.chain sequence))
    (inside : id ∈ scope.spec.chain sequence)
    (other : (scope.spec.component id).kind ≠ .contextFieldRangeProvider) :
    ∃ arguments, scope.typeArguments (scope.spec.component id) = .ok arguments := by
  obtain ⟨present, -, -, nested⟩ := linked.wellFormed.chain_member member inside
  have conforms := linked.wellFormed.conform _ present
  have value := exists_valueType conforms
  have field := exists_fieldConstant scope "field" conforms
  have function := exists_functionType scope "probability" linked present
  have child := exists_nestedType linked named inside conforms
  have target := exists_targetRecord linked member inside
  rw [Specification.WellFormed.underReference] at target
  rw [typeArguments]
  cases sort : (scope.spec.component id).kind with
  | contextFieldRangeProvider => exact absurd sort other
  | fieldSetter =>
      rw [sort] at field child
      refine exists_bind_ok (field rfl) fun _ => ?_
      exact exists_bind_ok (child "value" .valueProvider rfl) fun _ => ⟨_, rfl⟩
  | referenceSetter =>
      have reference := exists_referenceConstant scope "reference" conforms
      rw [sort] at reference child
      refine exists_bind_ok (reference rfl) fun _ => ?_
      exact exists_bind_ok (child "value" .referenceProvider rfl) fun _ => ⟨_, rfl⟩
  | clusteredValueProvider =>
      rw [sort] at value function child
      refine exists_bind_ok (value (.head _)) fun _ => ?_
      refine exists_bind_ok (function rfl) fun _ => ?_
      exact exists_bind_ok (child "cardinality" .rangeProvider rfl) fun _ => ⟨_, rfl⟩
  | randomValueProvider =>
      rw [sort] at value function
      refine exists_bind_ok (value (.head _)) fun _ => ?_
      exact exists_bind_ok (function rfl) fun _ => ⟨_, rfl⟩
  | elementWiseValueProvider =>
      obtain ⟨size, -, given, -⟩ := conforms.sizes "size" (by rw [sort]; exact .tail _ (.head _))
      rw [sort] at value
      have sized : (scope.spec.component id).sizeParameter? "size" = some size := by
        rw [Component.sizeParameter?, Attributes.size?, given]
      simp only [sized]
      exact exists_bind_ok (value (.head _)) fun _ => ⟨_, rfl⟩
  | callbackValueProvider | constValueProvider | contextFieldValueProvider
  | constRangeProvider =>
      rw [sort] at value
      exact exists_bind_ok (value (.head _)) fun _ => ⟨_, rfl⟩
  | clusteredReferenceProvider | randomReferenceProvider =>
      rw [sort] at target
      exact exists_bind_ok (target (.inl rfl)) fun _ => ⟨_, rfl⟩
  | equalityPredicateProvider =>
      rw [sort] at target
      exact exists_bind_ok (target (.inr (.inl rfl))) fun _ => ⟨_, rfl⟩
  | fieldBinder =>
      rw [sort] at field child target
      refine exists_bind_ok (field rfl) fun _ => ?_
      refine exists_bind_ok (child "value" .valueProvider rfl) fun _ => ?_
      exact exists_bind_ok (target (.inr (.inr rfl))) fun _ => ⟨_, rfl⟩
  | uniformProbability | normalProbability | paretoProbability | combinedProbability
  | conditionalCombinedProbability | enumSet | constEstimator | linearScaleEstimator
  | partitionedIterator | emptyOutputFormat | csvOutputFormat =>
      -- These stand outside of every chain.
      rw [sort] at nested
      cases nested

/-- **Types.** The type of a chain member fails for a bad range only. -/
theorem memberType_fails (named : scope.names.postOrder.Perm (scope.spec.chain sequence))
    (inside : id ∈ scope.spec.chain sequence) :
    FailsExactly (scope.spec.BadRange sequence (scope.spec.component id)) RenderError
      (scope.memberType (scope.spec.component id)) := by
  refine FailsExactly.bind_ok ?_ fun _ => ⟨_, rfl⟩
  by_cases sort : (scope.spec.component id).kind = .contextFieldRangeProvider
  · have conforms := linked.wellFormed.conform _ (linked.wellFormed.chain_member member inside).1
    have value := exists_valueType conforms
    rw [sort] at value
    rw [typeArguments, sort]
    exact (boundSetter_fails (fun member => TypeArgument.memberType member.typeName) linked member
      named conforms sort).bind_ok fun _ => exists_bind_ok (value (.head _)) fun _ => ⟨_, rfl⟩
  · refine (FailsExactly.of_succeeds
      (exists_typeArguments linked member named inside sort)).congr (iff_of_false not_false ?_)
    exact fun bad => sort bad.1

end

end TypeScope

end Chain

end Recordgen

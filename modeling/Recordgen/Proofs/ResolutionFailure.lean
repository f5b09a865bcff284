import Recordgen.Proofs.Resolution

/-! # When resolution fails

Resolution of a parsed specification fails for five reasons only (`Unresolvable`). The remaining
checks of the resolver guard against specifications that no document describes: order keys always
number their lists, every field setter has a bound field, and every name of the arena is bound.
-/

namespace Recordgen.Linking

open Outcome

variable {spec : Specification .raw}

/-- A field that a setter must not set: one of another record, the identifier, or a computed
field. -/
def Unsettable (spec : Specification .raw) (setter : Component .raw) (link : FieldLink) : Prop :=
  link.inner ≠ [] ∨ some (spec.field link.field).owner ≠ setter.owner ∨
    (spec.field link.field).implicit = true ∨ (spec.field link.field).derived = true

/-- Why a specification cannot be resolved. -/
inductive Unresolvable (spec : Specification .raw) : Prop
  | target (reference : Reference .raw) (member : reference ∈ spec.references.toList)
      (missing : ∀ sequence ∈ spec.sequences.toList,
        sequence.key ≠ Reference.target reference) : Unresolvable spec
  | field (targets : List SequenceId) (known : Targets spec targets) (component : Component .raw)
      (member : component ∈ spec.components.toList) (name : String)
      (held : @Argument.fieldRef .raw name ∈ component.items)
      (fails : ∃ fault, resolveFieldPath spec targets name component.owner
        (placeOf spec component) = .error fault) : Unresolvable spec
  | reference (component : Component .raw) (member : component ∈ spec.components.toList)
      (name : String) (held : @Argument.referenceRef .raw name ∈ component.items)
      (fails : ∃ fault, resolveReferencePath spec name component.owner
        (placeOf spec component) = .error fault) : Unresolvable spec
  | function (component : Component .raw) (member : component ∈ spec.components.toList)
      (name : String) (held : @Argument.functionRef .raw name ∈ component.items)
      (missing : spec.functions.get? name = none) : Unresolvable spec
  | setter (targets : List SequenceId) (known : Targets spec targets) (component : Component .raw)
      (member : component ∈ spec.components.toList) (sort : component.kind = .fieldSetter)
      (name : String) (held : component.argument? "field" = some (@Argument.fieldRef .raw name))
      (link : FieldLink)
      (found : resolveFieldPath spec targets name component.owner (placeOf spec component) =
        .ok link)
      (unsettable : Unsettable spec component link) : Unresolvable spec

/-- The errors that a parsed specification can lead to: a path that cannot be read or followed, or a
setter on a field that takes none. -/
def LinkError : CompileError → Prop
  | .unresolved .. => True
  | .setterTarget .. => True
  | .malformed (.emptySegment ..) => True
  | .malformed (.referenceForm ..) => True
  | _ => False

private theorem pathSegments_linkError {kind : PathKind} {text : String} {fault : CompileError}
    (failed : pathSegments kind text = .error fault) : LinkError fault := by
  simp only [pathSegments] at failed
  split at failed
  · obtain rfl := Except.error.inj failed
    trivial
  · cases failed

private theorem startSequence_linkError {kind : LinkKind} {path : String} {root : Option String}
    {owner : Option SequenceId} {place : String} {fault : CompileError}
    (failed : startSequence spec kind path root owner place = .error fault) : LinkError fault := by
  unfold startSequence at failed
  split at failed
  · split at failed
    · cases failed
    · obtain rfl := Except.error.inj failed
      trivial
  · cases failed
  · obtain rfl := Except.error.inj failed
    trivial

private theorem resolveFieldPath_linkError {targets : List SequenceId} {path : String}
    {owner : Option SequenceId} {place : String} {fault : CompileError}
    (failed : resolveFieldPath spec targets path owner place = .error fault) :
    LinkError fault := by
  rcases bind_eq_error_iff.mp failed with unread | ⟨parsed, -, failed⟩
  · rcases bind_eq_error_iff.mp unread with unread | ⟨segments, -, unread⟩
    · exact pathSegments_linkError unread
    · split at unread
      · cases unread
      · obtain rfl := Except.error.inj unread
        trivial
  rcases bind_eq_error_iff.mp failed with lost | ⟨root, -, failed⟩
  · exact startSequence_linkError lost
  rcases bind_eq_error_iff.mp failed with stuck | ⟨⟨inner, last⟩, -, failed⟩
  · cases followed : followReferences spec targets root parsed.inner with
    | ok reached =>
        rw [followed] at stuck
        cases stuck
    | error segment =>
        rw [followed] at stuck
        obtain rfl := Except.error.inj stuck
        trivial
  · dsimp only at failed
    split at failed
    · cases failed
    · obtain rfl := Except.error.inj failed
      trivial

private theorem resolveReferencePath_linkError {path : String} {owner : Option SequenceId}
    {place : String} {fault : CompileError}
    (failed : resolveReferencePath spec path owner place = .error fault) : LinkError fault := by
  rcases bind_eq_error_iff.mp failed with unread | ⟨parsed, -, failed⟩
  · rcases bind_eq_error_iff.mp unread with unread | ⟨segments, -, unread⟩
    · exact pathSegments_linkError unread
    · split at unread
      · cases unread
      · cases unread
      · obtain rfl := Except.error.inj unread
        trivial
  rcases bind_eq_error_iff.mp failed with lost | ⟨record, -, failed⟩
  · exact startSequence_linkError lost
  · split at failed
    · cases failed
    · obtain rfl := Except.error.inj failed
      trivial

private theorem resolveFunction_fails (site : LinkSite) :
    FailsExactly (spec.functions.get? site.name = none) LinkError (resolveFunction spec site) := by
  unfold resolveFunction
  split
  · rename_i found
    exact (FailsExactly.ok _).congr (by simp [found])
  · rename_i missing
    exact (FailsExactly.error trivial).congr (by simp [missing])

private theorem resolveTarget_fails (wellFormed : spec.WellFormed) (reference : Reference .raw) :
    FailsExactly (∀ sequence ∈ spec.sequences.toList, sequence.key ≠ Reference.target reference)
      LinkError (resolveTarget spec reference) := by
  refine ⟨?_, ?_⟩
  · rw [← not_iff_not, ← exists_ok_iff]
    simp only [resolveTarget_eq_ok_iff wellFormed, not_forall, not_not, exists_prop]
    constructor
    · rintro ⟨_, sequence, member, same, -⟩
      exact ⟨sequence, member, same⟩
    · rintro ⟨sequence, member, same⟩
      exact ⟨_, sequence, member, same, rfl⟩
  · intro fault failed
    unfold resolveTarget at failed
    split at failed
    · cases failed
    · obtain rfl := Except.error.inj failed
      trivial

/-- When binding fails, and with which errors. -/
theorem bindAll_fails (wellFormed : spec.WellFormed) :
    FailsExactly
      ((∃ reference ∈ spec.references.toList, ∀ sequence ∈ spec.sequences.toList,
          sequence.key ≠ Reference.target reference) ∨
        ∃ targets, spec.references.toList.mapM (resolveTarget spec) = .ok targets ∧
          ((∃ site ∈ sitesOf spec .field, ∃ fault,
              resolveFieldPath spec targets site.name site.owner site.place = .error fault) ∨
            (∃ site ∈ sitesOf spec .reference, ∃ fault,
              resolveReferencePath spec site.name site.owner site.place = .error fault) ∨
            ∃ site ∈ sitesOf spec .function, spec.functions.get? site.name = none))
      LinkError (bindAll spec) := by
  have targets := FailsExactly.mapM fun reference (_ : reference ∈ spec.references.toList) =>
    resolveTarget_fails wellFormed reference
  have references := bindSites_fails (sitesOf_slots_nodup wellFormed .reference) fun site _ =>
    FailsExactly.of_within fun fault => @resolveReferencePath_linkError spec site.name site.owner
      site.place fault
  have functions := bindSites_fails (sitesOf_slots_nodup wellFormed .function) fun site _ =>
    @resolveFunction_fails spec site
  refine targets.bindOn fun found _ => ?_
  have fields := bindSites_fails (sitesOf_slots_nodup wellFormed .field) fun site _ =>
    FailsExactly.of_within fun fault => @resolveFieldPath_linkError spec found site.name site.owner
      site.place fault
  exact fields.bind fun _ _ => references.bind fun _ _ => functions.bind_ok fun _ => ⟨_, rfl⟩

private theorem checkOrders_ok {list : OrderedList} {sequence : String} {orders : List Nat}
    {count : Nat} (numbered : orders = List.range count) :
    checkOrders list sequence orders = .ok () := by
  have sorted : orders.mergeSort = List.range count := by
    rw [numbered]
    refine List.mergeSort_of_pairwise (List.pairwise_lt_range.imp fun less => ?_)
    exact decide_eq_true (Nat.le_of_lt less)
  rw [checkOrders, sorted, List.length_range, if_pos rfl]

private theorem startsWithIdentifier_of_record {enumSets : KeyMap ComponentId} {owner : SequenceId}
    {fields : List Field} (record : RecordFields enumSets owner fields) :
    startsWithIdentifier fields = true := by
  obtain ⟨first, rest, rfl, implicit, named, -⟩ := record.identifier
  have zero : first.order = 0 := by
    have orders := record.orders
    rw [List.map_cons, List.length_cons, List.range_succ_eq_map] at orders
    exact (List.cons.inj orders).1
  rw [startsWithIdentifier, List.find?_cons_of_pos (by simp [zero])]
  simp [implicit, named]

/-- The order keys of a well-formed specification are always in order. -/
theorem checkOrderKeys_ok (wellFormed : spec.WellFormed) : checkOrderKeys spec = .ok () := by
  rw [checkOrderKeys, forM_eq_ok_iff]
  intro sequence member
  obtain ⟨record, linked⟩ := wellFormed.record member
  have chain := wellFormed.chain member
  rw [checkSequenceOrders, checkOrders_ok record.orders, checkOrders_ok linked.orders,
    checkOrders_ok chain.orders, startsWithIdentifier_of_record record]
  rfl

private theorem fieldSetter_arguments {arena : List (Component .raw)} {component : Component .raw}
    (conforms : component.Conforms arena) (sort : component.kind = .fieldSetter) :
    ∃ name value, component.arguments =
      [("field", @Argument.fieldRef .raw name), ("value", .component value)] := by
  have keys := conforms.keys
  have fits := conforms.fits
  rw [sort] at keys fits
  generalize component.arguments = arguments at keys fits ⊢
  rcases arguments with _ | ⟨⟨firstKey, first⟩, _ | ⟨⟨secondKey, second⟩, rest⟩⟩
  · cases keys
  · cases keys
  · cases fits with
    | cons firstFits fits =>
        cases fits with
        | cons secondFits fits =>
            cases fits
            cases firstFits with
            | single _ _ holds =>
                cases holds with
                | fieldRef name =>
                    cases secondFits with
                    | single _ _ holds =>
                        cases holds with
                        | nested _ id =>
                            obtain ⟨rfl, same⟩ := List.cons.inj keys
                            obtain ⟨rfl, -⟩ := List.cons.inj same
                            exact ⟨name, id, rfl⟩

section

variable (wellFormed : spec.WellFormed) {bindings : Bindings} (bound : bindAll spec = .ok bindings)
  {component : Component .raw} (member : component ∈ spec.components.toList)
  (sort : component.kind = .fieldSetter)

include wellFormed bound member sort

/-- What is checked about the field of a setter, once all names are bound. -/
theorem setterField_eq :
    ∃ name link, component.argument? "field" = some (@Argument.fieldRef .raw name) ∧
      resolveFieldPath spec bindings.targets name component.owner (placeOf spec component) =
        .ok link ∧
      setterField spec bindings component.id =
        if link.inner ≠ [] ∨ some (spec.field link.field).owner ≠ component.owner then
          .error (.setterTarget link.path component.describe .foreignField)
        else if (spec.field link.field).implicit then
          .error (.setterTarget link.path component.describe .implicitField)
        else if (spec.field link.field).derived then
          .error (.setterTarget link.path component.describe .derivedField)
        else .ok link.field := by
  obtain ⟨name, value, arguments⟩ :=
    fieldSetter_arguments (wellFormed.conform component member) sort
  have present : component.arguments[0]? = some ("field", @Argument.fieldRef .raw name) := by
    rw [arguments]
    rfl
  have site : siteAt spec component 0 none .field name ∈ sitesOf spec .field :=
    mem_sitesOf wellFormed member present (List.mem_singleton_self _) rfl
  obtain ⟨-, fields, -⟩ := bindAll_eq_ok wellFormed bound
  obtain ⟨link, found, looked⟩ :=
    lookup_of_bindSites (sitesOf_slots_nodup wellFormed .field) fields site
  have looked : bindings.fields.lookup ⟨component.id, 0, none⟩ = some link := looked
  refine ⟨name, link, ?_, found, ?_⟩
  · rw [Component.argument?, arguments]
    rfl
  · have entry : component.arguments.findIdx? (fun argument => argument.1 == "field") = some 0 := by
      rw [arguments]
      rfl
    have foreign : (!link.isDirect ||
        decide (some (spec.field link.field).owner ≠ component.owner)) = true ↔
        link.inner ≠ [] ∨ some (spec.field link.field).owner ≠ component.owner := by
      simp [FieldLink.isDirect]
    simp only [setterField, wellFormed.component_id member, entry, looked, foreign]
    split
    · rfl
    split
    · rfl
    split <;> rfl

/-- When the field of a setter cannot be set, once all names are bound. -/
theorem setterField_fails :
    ∃ name link, component.argument? "field" = some (@Argument.fieldRef .raw name) ∧
      resolveFieldPath spec bindings.targets name component.owner (placeOf spec component) =
        .ok link ∧
      FailsExactly (Unsettable spec component link)
        (fun fault => ∃ path place reason, fault = .setterTarget path place reason)
        (setterField spec bindings component.id) := by
  obtain ⟨name, link, held, found, checks⟩ := setterField_eq wellFormed bound member sort
  refine ⟨name, link, held, found, ?_⟩
  rw [checks, Unsettable, ← or_assoc]
  split
  · rename_i apart
    exact (FailsExactly.error ⟨_, _, _, rfl⟩).congr (iff_of_true trivial (.inl apart))
  split
  · rename_i implicit
    exact (FailsExactly.error ⟨_, _, _, rfl⟩).congr (iff_of_true trivial (.inr (.inl implicit)))
  split
  · rename_i derived
    exact (FailsExactly.error ⟨_, _, _, rfl⟩).congr (iff_of_true trivial (.inr (.inr derived)))
  · rename_i own explicit stored
    refine (FailsExactly.ok _).congr (iff_of_false not_false ?_)
    rintro (apart | implicit | derived)
    · exact own apart
    · exact explicit implicit
    · exact stored derived

end

/-- The field setters are the components of that kind. -/
theorem mem_fieldSetters (wellFormed : spec.WellFormed) {id : ComponentId} :
    id ∈ fieldSetters spec ↔ ∃ component ∈ spec.components.toList,
      component.kind = .fieldSetter ∧ component.id = id := by
  rw [wellFormed.fieldSetters_perm.mem_iff]
  simp [and_assoc]

private theorem setterField_linkError (wellFormed : spec.WellFormed) {bindings : Bindings}
    (bound : bindAll spec = .ok bindings) {id : ComponentId} (member : id ∈ fieldSetters spec)
    {fault : CompileError} (failed : setterField spec bindings id = .error fault) :
    ∃ path place reason, fault = .setterTarget path place reason := by
  obtain ⟨component, present, sort, rfl⟩ := (mem_fieldSetters wellFormed).mp member
  obtain ⟨_, _, -, -, fails⟩ := setterField_fails wellFormed bound present sort
  exact fails.within fault failed

/-- When a run fails, said in terms of its stages. -/
theorem run_fails_stages (wellFormed : spec.WellFormed) :
    FailsExactly ((∃ fault, bindAll spec = .error fault) ∨ ∃ bindings, bindAll spec = .ok bindings ∧
      ∃ id ∈ fieldSetters spec, ∃ fault, setterField spec bindings id = .error fault)
      LinkError (run spec) := by
  have binding := FailsExactly.of_within (bindAll_fails wellFormed).within
  refine binding.bindOn fun bindings bound => ?_
  have attaching : FailsExactly (∃ id ∈ fieldSetters spec, ∃ fault,
      setterField spec bindings id = .error fault) LinkError
      (attachSetters spec bindings (fieldSetters spec)) := by
    refine FailsExactly.foldlM (fun fields id member => ?_) spec.fields
    refine (FailsExactly.of_within fun fault failed => ?_).bind_ok fun _ => ⟨_, rfl⟩
    obtain ⟨path, place, reason, rfl⟩ := setterField_linkError wellFormed bound member failed
    trivial
  obtain ⟨components, placed, -⟩ := exists_mapM_eq_ok
    fun component (member : component ∈ spec.components.toList) =>
      resolveComponent_resolved wellFormed bound member
  refine attaching.bind_ok fun fields => ?_
  rw [checkOrderKeys_ok wellFormed]
  change ∃ result, (spec.components.toList.mapM (resolveComponent bindings) >>= _) = .ok result
  rw [placed]
  exact ⟨_, rfl⟩

private theorem linkName?_eq_field {item : Argument .raw} {name : String} :
    linkName? item = some (.field, name) ↔ item = @Argument.fieldRef .raw name := by
  cases item <;> simp [linkName?]

private theorem linkName?_eq_reference {item : Argument .raw} {name : String} :
    linkName? item = some (.reference, name) ↔ item = @Argument.referenceRef .raw name := by
  cases item <;> simp [linkName?]

private theorem linkName?_eq_function {item : Argument .raw} {name : String} :
    linkName? item = some (.function, name) ↔ item = @Argument.functionRef .raw name := by
  cases item <;> simp [linkName?]

/-- Binding fails for the first four reasons. -/
theorem bindAll_fails_iff (wellFormed : spec.WellFormed) :
    (∃ fault, bindAll spec = .error fault) ↔
      (∃ reference ∈ spec.references.toList, ∀ sequence ∈ spec.sequences.toList,
          sequence.key ≠ Reference.target reference) ∨
        ∃ targets, Targets spec targets ∧ ∃ component ∈ spec.components.toList, ∃ name : String,
          (@Argument.fieldRef .raw name ∈ component.items ∧ ∃ fault, resolveFieldPath spec targets
            name component.owner (placeOf spec component) = .error fault) ∨
          (@Argument.referenceRef .raw name ∈ component.items ∧ ∃ fault, resolveReferencePath spec
            name component.owner (placeOf spec component) = .error fault) ∨
          (@Argument.functionRef .raw name ∈ component.items ∧
            spec.functions.get? name = none) := by
  rw [(bindAll_fails wellFormed).fails]
  refine or_congr_right (exists_congr fun targets =>
    and_congr (mapM_resolveTarget_eq_ok_iff wellFormed) ?_)
  rw [exists_mem_sitesOf wellFormed .field fun name owner place => ∃ fault,
      resolveFieldPath spec targets name owner place = .error fault,
    exists_mem_sitesOf wellFormed .reference fun name owner place => ∃ fault,
      resolveReferencePath spec name owner place = .error fault,
    exists_mem_sitesOf wellFormed .function fun name _ _ => spec.functions.get? name = none]
  simp only [linkName?_eq_field, linkName?_eq_reference, linkName?_eq_function]
  constructor
  · rintro (⟨component, member, _, held, name, rfl, fails⟩ |
      ⟨component, member, _, held, name, rfl, fails⟩ |
      ⟨component, member, _, held, name, rfl, fails⟩)
    · exact ⟨component, member, name, .inl ⟨held, fails⟩⟩
    · exact ⟨component, member, name, .inr (.inl ⟨held, fails⟩)⟩
    · exact ⟨component, member, name, .inr (.inr ⟨held, fails⟩)⟩
  · rintro ⟨component, member, name, ⟨held, fails⟩ | ⟨held, fails⟩ | ⟨held, fails⟩⟩
    · exact .inl ⟨component, member, _, held, name, rfl, fails⟩
    · exact .inr (.inl ⟨component, member, _, held, name, rfl, fails⟩)
    · exact .inr (.inr ⟨component, member, _, held, name, rfl, fails⟩)

/-- A specification has one list of targets. -/
theorem Targets.unique (wellFormed : spec.WellFormed) {first second : List SequenceId}
    (known : Targets spec first) (again : Targets spec second) : first = second := by
  rw [← mapM_resolveTarget_eq_ok_iff wellFormed] at known again
  exact Except.ok.inj (known.symm.trans again)

/-- The sequences that references refer to are known unless some reference refers to none. -/
theorem exists_targets (wellFormed : spec.WellFormed)
    (known : ¬∃ reference ∈ spec.references.toList, ∀ sequence ∈ spec.sequences.toList,
      sequence.key ≠ Reference.target reference) : ∃ targets, Targets spec targets := by
  have exact := FailsExactly.mapM fun reference (_ : reference ∈ spec.references.toList) =>
    resolveTarget_fails wellFormed reference
  obtain ⟨targets, found⟩ := exact.succeeds_iff.mpr known
  exact ⟨targets, (mapM_resolveTarget_eq_ok_iff wellFormed).mp found⟩

/-- Resolution of a well-formed specification fails exactly when it is unresolvable. -/
theorem run_fails (wellFormed : spec.WellFormed) :
    FailsExactly (Unresolvable spec) LinkError (run spec) := by
  refine (run_fails_stages wellFormed).congr ⟨?_, ?_⟩
  · rintro (failed | ⟨bindings, bound, id, member, failed⟩)
    · rcases (bindAll_fails_iff wellFormed).mp failed with ⟨reference, member, missing⟩ |
        ⟨targets, known, component, member, name, ⟨held, fails⟩ | ⟨held, fails⟩ | ⟨held, fails⟩⟩
      · exact .target reference member missing
      · exact .field targets known component member name held fails
      · exact .reference component member name held fails
      · exact .function component member name held fails
    · obtain ⟨component, present, sort, rfl⟩ := (mem_fieldSetters wellFormed).mp member
      obtain ⟨name, link, held, found, fails⟩ := setterField_fails wellFormed bound present sort
      exact .setter bindings.targets (bindAll_eq_ok wellFormed bound).1 component present sort name
        held link found (fails.fails.mp failed)
  · intro unresolvable
    -- Nothing is asked of the later stages where a reference leads nowhere.
    by_cases lost : ∃ reference ∈ spec.references.toList, ∀ sequence ∈ spec.sequences.toList,
        sequence.key ≠ Reference.target reference
    · exact .inl ((bindAll_fails_iff wellFormed).mpr (.inl lost))
    obtain ⟨targets, known⟩ := exists_targets wellFormed lost
    have unbound := fun fails => (bindAll_fails_iff wellFormed).mpr (.inr ⟨targets, known, fails⟩)
    cases unresolvable with
    | target reference member missing => exact absurd ⟨reference, member, missing⟩ lost
    | field others again component member name held fails =>
        obtain rfl := known.unique wellFormed again
        exact .inl (unbound ⟨component, member, name, .inl ⟨held, fails⟩⟩)
    | reference component member name held fails =>
        exact .inl (unbound ⟨component, member, name, .inr (.inl ⟨held, fails⟩)⟩)
    | function component member name held missing =>
        exact .inl (unbound ⟨component, member, name, .inr (.inr ⟨held, missing⟩)⟩)
    | setter others again component member sort name held link found unsettable =>
        cases bound : bindAll spec with
        | error fault => exact .inl ⟨fault, rfl⟩
        | ok bindings =>
            refine .inr ⟨bindings, rfl, component.id,
              (mem_fieldSetters wellFormed).mpr ⟨component, member, sort, rfl⟩, ?_⟩
            obtain ⟨other, reached, same, followed, fails⟩ :=
              setterField_fails wellFormed bound member sort
            obtain rfl := again.unique wellFormed (bindAll_eq_ok wellFormed bound).1
            obtain ⟨⟩ := Option.some.inj (held.symm.trans same)
            obtain rfl := Except.ok.inj (found.symm.trans followed)
            exact fails.fails.mpr unsettable

/-- **When resolution fails.** A parsed specification cannot be resolved exactly when a reference
refers to no sequence, a path or a function name leads nowhere, or a setter sets a field that takes
none. No other check of the resolver can fail. -/
theorem run_fails_iff {text : String} (parsed : Prototype.parse text = .ok spec) :
    ((∃ fault, run spec = .error fault) ↔ Unresolvable spec) ∧
      (∀ fault, run spec = .error fault → LinkError fault) ∧
      checkOrderKeys spec = .ok () ∧
      ∀ bindings, bindAll spec = .ok bindings →
        (∀ component ∈ spec.components.toList,
          ∃ resolved, resolveComponent bindings component = .ok resolved) ∧
        ∀ setter ∈ fieldSetters spec, ∀ fault, setterField spec bindings setter = .error fault →
          ∃ path place reason, fault = .setterTarget path place reason := by
  have wellFormed := (Prototype.parse_assembled parsed).wellFormed
  have exact := run_fails wellFormed
  refine ⟨exact.fails, exact.within, checkOrderKeys_ok wellFormed, fun bindings bound => ⟨?_, ?_⟩⟩
  · intro component member
    obtain ⟨resolved, found, -⟩ := resolveComponent_resolved wellFormed bound member
    exact ⟨resolved, found⟩
  · intro setter member fault failed
    exact setterField_linkError wellFormed bound member failed

/-- The sample is resolvable. -/
theorem sample_resolvable :
    ∃ spec, Prototype.parse Prototype.Sample.text = .ok spec ∧ ¬Unresolvable spec ∧
      checkOrderKeys spec = .ok () := by
  obtain ⟨spec, result, parsed, ran⟩ := exists_run_sample
  obtain ⟨exact, -, ordered, -⟩ := run_fails_iff parsed
  refine ⟨spec, parsed, fun unresolvable => ?_, ordered⟩
  obtain ⟨fault, failed⟩ := exact.mpr unresolvable
  rw [ran] at failed
  cases failed

end Recordgen.Linking

import Mathlib
import Recordgen.Linking.Resolution
import Recordgen.Proofs.Binding
import Recordgen.Proofs.DocumentReading

/-! # What resolution does to a specification

Resolution puts at every position that holds a name what this name denotes there, and changes nothing
else (`Resolved`). Whether a position is reached does not depend on the order in which the walk meets
the components, so the relation speaks about the arena and not about bindings.
-/

namespace Recordgen.Linking

open Outcome

section Paths

variable {phase : Phase} {spec : Specification phase} {path place : String}
  {owner : Option SequenceId}

/-- A path starts at the sequence that its root names, or else at the one that holds it. -/
theorem startSequence_eq_ok_iff {kind : LinkKind} {root : Option String} {start : SequenceId} :
    startSequence spec kind path root owner place = .ok start ↔
      (∃ key sequence, root = some key ∧ spec.sequenceByKey? key = some sequence ∧
        sequence.id = start) ∨ root = none ∧ owner = some start := by
  cases root with
  | some key => cases found : spec.sequenceByKey? key <;> simp [startSequence, found]
  | none => cases owner <;> simp [startSequence]

/-- The steps in which a field path is resolved. -/
theorem resolveFieldPath_steps_iff {targets : List SequenceId} {link : FieldLink} :
    resolveFieldPath spec targets path owner place = .ok link ↔
      ∃ parsed last field, FieldPath.parse path = .ok parsed ∧
        startSequence spec .field path parsed.root owner place = .ok link.root ∧
        followReferences spec targets link.root parsed.inner = .ok (link.inner, last) ∧
        spec.findField? last parsed.field = some field ∧ link.path = path ∧
        link.field = field.id := by
  constructor
  · intro found
    obtain ⟨parsed, read, found⟩ := bind_eq_ok_iff.mp found
    obtain ⟨root, started, found⟩ := bind_eq_ok_iff.mp found
    obtain ⟨⟨inner, last⟩, followed, found⟩ := bind_eq_ok_iff.mp found
    dsimp only at found
    split at found
    · rename_i field here
      obtain rfl := pure_eq_ok_iff.mp found
      exact ⟨parsed, last, field, read, started, mapError_eq_ok_iff.mp followed, here, rfl, rfl⟩
    · cases found
  · rintro ⟨parsed, last, field, read, started, followed, here, rfl, ended⟩
    refine bind_eq_ok_iff.mpr ⟨parsed, read, bind_eq_ok_iff.mpr ⟨link.root, started, ?_⟩⟩
    refine bind_eq_ok_iff.mpr ⟨(link.inner, last), mapError_eq_ok_iff.mpr followed, ?_⟩
    simp only [here, ← ended]
    rfl

/-- The steps in which a reference path is resolved. -/
theorem resolveReferencePath_steps_iff {link : ReferenceLink} :
    resolveReferencePath spec path owner place = .ok link ↔
      ∃ parsed reference, ReferencePath.parse path = .ok parsed ∧
        startSequence spec .reference path parsed.record owner place = .ok link.record ∧
        spec.findReference? link.record parsed.reference = some reference ∧ link.path = path ∧
        link.reference = reference.id := by
  constructor
  · intro found
    obtain ⟨parsed, read, found⟩ := bind_eq_ok_iff.mp found
    obtain ⟨record, started, found⟩ := bind_eq_ok_iff.mp found
    split at found
    · rename_i reference here
      obtain rfl := pure_eq_ok_iff.mp found
      exact ⟨parsed, reference, read, started, here, rfl, rfl⟩
    · cases found
  · rintro ⟨parsed, reference, read, started, here, rfl, ended⟩
    refine bind_eq_ok_iff.mpr ⟨parsed, read, bind_eq_ok_iff.mpr ⟨link.record, started, ?_⟩⟩
    simp only [here, ← ended]
    rfl

end Paths

variable {spec : Specification .raw} {sequence : RecordSequence} {targets : List SequenceId}
  {bindings : Bindings} {kind : LinkKind} {result : Specification .resolved} {summary : Summary}

/-- The sequences that the references of a specification refer to, in the order of the
references. -/
def Targets (spec : Specification .raw) (targets : List SequenceId) : Prop :=
  List.Forall₂ (fun reference target => ∃ sequence ∈ spec.sequences.toList,
    sequence.key = Reference.target reference ∧ sequence.id = target)
    spec.references.toList targets

/-- An item and what becomes of it. Names are followed from the sequence that owns the component. -/
inductive ItemResolved (spec : Specification .raw) (targets : List SequenceId)
    (component : Component .raw) : Argument .raw → Argument .resolved → Prop
  | literal (literal : Literal) :
      ItemResolved spec targets component (.literal literal) (.literal literal)
  | component (id : ComponentId) :
      ItemResolved spec targets component (.component id) (.component id)
  | fieldRef (name : String) (link : FieldLink)
      (found : resolveFieldPath spec targets name component.owner (placeOf spec component) =
        .ok link) :
      ItemResolved spec targets component (@Argument.fieldRef .raw name)
        (@Argument.fieldRef .resolved link)
  | referenceRef (name : String) (link : ReferenceLink)
      (found : resolveReferencePath spec name component.owner (placeOf spec component) =
        .ok link) :
      ItemResolved spec targets component (@Argument.referenceRef .raw name)
        (@Argument.referenceRef .resolved link)
  | functionRef (name : String) (function : ComponentId)
      (found : spec.functions.get? name = some function) :
      ItemResolved spec targets component (@Argument.functionRef .raw name)
        (@Argument.functionRef .resolved function)

/-- An argument and what becomes of it, item by item. -/
inductive ArgumentResolved (spec : Specification .raw) (targets : List SequenceId)
    (component : Component .raw) : Argument .raw → Argument .resolved → Prop
  | item {before : Argument .raw} {after : Argument .resolved}
      (related : ItemResolved spec targets component before after) :
      ArgumentResolved spec targets component before after
  | collection {before : List (Argument .raw)} {after : List (Argument .resolved)}
      (related : List.Forall₂ (ItemResolved spec targets component) before after) :
      ArgumentResolved spec targets component (.collection before) (.collection after)

/-- A component and what becomes of it. -/
structure ComponentResolved (spec : Specification .raw) (targets : List SequenceId)
    (before : Component .raw) (after : Component .resolved) : Prop where
  id : after.id = before.id
  key : after.key = before.key
  kind : after.kind = before.kind
  attributes : after.attributes = before.attributes
  parent : after.parent = before.parent
  owner : after.owner = before.owner
  order : after.order = before.order
  arguments : List.Forall₂ (fun argument resolved => resolved.1 = argument.1 ∧
    ArgumentResolved spec targets before argument.2 resolved.2) before.arguments after.arguments

/-- A reference and what becomes of it. -/
structure ReferenceResolved (spec : Specification .raw) (before : Reference .raw)
    (after : Reference .resolved) : Prop where
  id : after.id = before.id
  owner : after.owner = before.owner
  name : after.name = before.name
  order : after.order = before.order
  target : ∃ sequence ∈ spec.sequences.toList,
    sequence.key = Reference.target before ∧ sequence.id = Reference.target after

/-- A specification and its resolution. -/
structure Resolved (before : Specification .raw) (after : Specification .resolved) : Prop where
  parameters : after.parameters = before.parameters
  functions : after.functions = before.functions
  enumSets : after.enumSets = before.enumSets
  sequences : after.sequences = before.sequences
  fields : List.Forall₂ (fun field attached => attached = { field with setter := attached.setter })
    before.fields.toList after.fields.toList
  references : List.Forall₂ (ReferenceResolved before) before.references.toList
    after.references.toList
  components : List.Forall₂
    (ComponentResolved before (after.references.toList.map Reference.target))
    before.components.toList after.components.toList

theorem mem_of_sequenceByKey? {key : String} (found : spec.sequenceByKey? key = some sequence) :
    sequence ∈ spec.sequences.toList ∧ sequence.key = key := by
  have matching := Array.find?_some found
  exact ⟨Array.mem_toList_iff.mpr (Array.mem_of_find?_eq_some found), beq_iff_eq.mp matching⟩

/-- A key is found exactly if a sequence has it. -/
theorem sequenceByKey?_eq_some_iff (wellFormed : spec.WellFormed) {key : String} :
    spec.sequenceByKey? key = some sequence ↔
      sequence ∈ spec.sequences.toList ∧ sequence.key = key := by
  constructor
  · exact mem_of_sequenceByKey?
  · rintro ⟨member, rfl⟩
    cases found : spec.sequenceByKey? sequence.key with
    | none =>
        have different := Array.find?_eq_none.mp found sequence (Array.mem_toList_iff.mp member)
        simp at different
    | some other =>
        obtain ⟨listed, same⟩ := mem_of_sequenceByKey? found
        rw [List.inj_on_of_nodup_map wellFormed.sequenceKeys listed member same]

/-- A reference is resolved to the sequence with its target's key. -/
theorem resolveTarget_eq_ok_iff (wellFormed : spec.WellFormed) {reference : Reference .raw}
    {target : SequenceId} :
    resolveTarget spec reference = .ok target ↔ ∃ sequence ∈ spec.sequences.toList,
      sequence.key = Reference.target reference ∧ sequence.id = target := by
  unfold resolveTarget
  split
  · rename_i sequence found
    obtain ⟨member, keyed⟩ := (sequenceByKey?_eq_some_iff wellFormed).mp found
    rw [Except.ok.injEq]
    constructor
    · rintro rfl
      exact ⟨sequence, member, keyed, rfl⟩
    · rintro ⟨other, listed, same, rfl⟩
      have again := (sequenceByKey?_eq_some_iff wellFormed).mpr ⟨listed, same⟩
      rw [found] at again
      rw [Option.some.inj again]
  · rename_i missing
    constructor
    · intro impossible
      cases impossible
    · rintro ⟨other, listed, same, -⟩
      rw [(sequenceByKey?_eq_some_iff wellFormed).mpr ⟨listed, same⟩] at missing
      cases missing

/-- All references are resolved at once, each to its target. -/
theorem mapM_resolveTarget_eq_ok_iff (wellFormed : spec.WellFormed) :
    spec.references.toList.mapM (resolveTarget spec) = .ok targets ↔ Targets spec targets := by
  rw [mapM_eq_ok_iff, Targets]
  constructor
  · exact fun all => all.imp fun _ _ found => (resolveTarget_eq_ok_iff wellFormed).mp found
  · exact fun all => all.imp fun _ _ found => (resolveTarget_eq_ok_iff wellFormed).mpr found

/-- What it takes to bind all names. -/
theorem bindAll_eq_ok (wellFormed : spec.WellFormed) (bound : bindAll spec = .ok bindings) :
    Targets spec bindings.targets ∧
      bindSites (fun site => resolveFieldPath spec bindings.targets site.name site.owner site.place)
        (sitesOf spec .field) = .ok bindings.fields ∧
      bindSites (fun site => resolveReferencePath spec site.name site.owner site.place)
        (sitesOf spec .reference) = .ok bindings.references ∧
      bindSites (resolveFunction spec) (sitesOf spec .function) = .ok bindings.functions := by
  obtain ⟨targets, found, bound⟩ := bind_eq_ok_iff.mp bound
  obtain ⟨fields, fieldsBound, bound⟩ := bind_eq_ok_iff.mp bound
  obtain ⟨references, referencesBound, bound⟩ := bind_eq_ok_iff.mp bound
  obtain ⟨functions, functionsBound, rfl⟩ := bind_pure_eq_ok_iff.mp bound
  exact ⟨(mapM_resolveTarget_eq_ok_iff wellFormed).mp found, fieldsBound, referencesBound,
    functionsBound⟩

theorem mem_sitesOf (wellFormed : spec.WellFormed) {component : Component .raw}
    (member : component ∈ spec.components.toList) {entry : Nat} {key : String}
    {argument : Argument .raw} (present : component.arguments[entry]? = some (key, argument))
    {position : Option Nat} {item : Argument .raw} (placed : (position, item) ∈ positions argument)
    {kind : LinkKind} {name : String} (named : linkName? item = some (kind, name)) :
    siteAt spec component entry position kind name ∈ sitesOf spec kind := by
  refine List.mem_filter.mpr ⟨(mem_linkSites wellFormed).mpr ?_, beq_self_eq_true kind⟩
  exact ⟨component, member, entry, key, argument, position, item, kind, name, present, placed,
    named, rfl⟩

private theorem map_boundLink_eq_ok {α β : Type} {wrap : α → β} {bindings : List (Slot × α)}
    {slot : Slot} {name place : String} {link : α} (found : bindings.lookup slot = some link) :
    wrap <$> boundLink bindings slot kind name place = .ok (wrap link) := by
  rw [boundLink, found]
  rfl

section

variable (wellFormed : spec.WellFormed) {bindings : Bindings} (bound : bindAll spec = .ok bindings)
  {component : Component .raw} (member : component ∈ spec.components.toList)
  {argument : Argument .raw} {arena : List (Component .raw)}

include wellFormed bound member

/-- An item of the arena becomes what it should become. -/
theorem resolveItem_resolved {entry : Nat} {key : String}
    (present : component.arguments[entry]? = some (key, argument)) {position : Option Nat}
    {item : Argument .raw} (placed : (position, item) ∈ positions argument) {kind : ItemKind}
    (holds : item.Holds arena kind) :
    ∃ resolved, resolveItem bindings component.describe ⟨component.id, entry, position⟩ item =
      .ok resolved ∧ ItemResolved spec bindings.targets component item resolved := by
  obtain ⟨-, fields, references, functions⟩ := bindAll_eq_ok wellFormed bound
  have site := fun kind name => @mem_sitesOf spec wellFormed component member entry key argument
    present position item placed kind name
  cases holds with
  | literal literal => exact ⟨_, rfl, .literal literal⟩
  | nested category id => exact ⟨_, rfl, .component id⟩
  | fieldRef name =>
      obtain ⟨link, found, looked⟩ := lookup_of_bindSites (sitesOf_slots_nodup wellFormed .field)
        fields (site .field name rfl)
      exact ⟨.fieldRef link, map_boundLink_eq_ok looked, .fieldRef name link found⟩
  | referenceRef name =>
      obtain ⟨link, found, looked⟩ := lookup_of_bindSites
        (sitesOf_slots_nodup wellFormed .reference) references (site .reference name rfl)
      exact ⟨.referenceRef link, map_boundLink_eq_ok looked, .referenceRef name link found⟩
  | functionRef name =>
      obtain ⟨function, found, looked⟩ := lookup_of_bindSites
        (sitesOf_slots_nodup wellFormed .function) functions (site .function name rfl)
      refine ⟨.functionRef function, map_boundLink_eq_ok looked, .functionRef name function ?_⟩
      unfold resolveFunction at found
      split at found
      · rename_i known
        obtain rfl := Except.ok.inj found
        exact known
      · cases found

/-- An argument of the arena becomes what it should become. -/
theorem resolveArgument_resolved {entry : Nat} {key : String}
    (present : component.arguments[entry]? = some (key, argument)) {kind : ArgumentKind}
    (fits : argument.Fits arena kind) :
    ∃ resolved, resolveArgument bindings component.describe component.id entry argument =
      .ok resolved ∧ ArgumentResolved spec bindings.targets component argument resolved := by
  cases fits with
  | single item argument holds =>
      have alone : positions argument = [(none, argument)] ∧
          resolveArgument bindings component.describe component.id entry argument =
            resolveItem bindings component.describe ⟨component.id, entry, none⟩ argument := by
        cases holds <;> exact ⟨rfl, rfl⟩
      obtain ⟨resolved, found, related⟩ := resolveItem_resolved wellFormed bound member present
        (alone.1 ▸ List.mem_singleton_self _) holds
      exact ⟨resolved, alone.2.trans found, .item related⟩
  | collection item items filled holds =>
      have each : ∀ pair ∈ items.zipIdx, ∃ resolved,
          resolveItem bindings component.describe ⟨component.id, entry, some pair.2⟩ pair.1 =
            .ok resolved ∧ ItemResolved spec bindings.targets component pair.1 resolved := by
        rintro ⟨item, position⟩ listed
        refine resolveItem_resolved wellFormed bound member present ?_
          (holds item (List.fst_mem_of_mem_zipIdx listed))
        exact List.mem_map.mpr ⟨(item, position), listed, rfl⟩
      obtain ⟨resolved, found, related⟩ := exists_mapM_eq_ok each
      refine ⟨.collection resolved, ?_, .collection ?_⟩
      · rw [resolveArgument, found]
        rfl
      · rw [← List.zipIdx_map_fst 0 items, List.forall₂_map_left_iff]
        exact related

/-- A component of the arena becomes what it should become. -/
theorem resolveComponent_resolved :
    ∃ resolved, resolveComponent bindings component = .ok resolved ∧
      ComponentResolved spec bindings.targets component resolved := by
  have each : ∀ pair ∈ component.arguments.zipIdx, ∃ resolved : String × Argument .resolved,
      (do return (pair.1.1,
        ← resolveArgument bindings component.describe component.id pair.2 pair.1.2)) =
          Except.ok resolved ∧
        resolved.1 = pair.1.1 ∧
          ArgumentResolved spec bindings.targets component pair.1.2 resolved.2 := by
    rintro ⟨⟨key, argument⟩, entry⟩ listed
    have present := List.mem_zipIdx_iff_getElem?.mp listed
    obtain ⟨schema, -, fits⟩ := exists_left_of_mem (wellFormed.conform component member).fits
      (List.mem_of_getElem? present)
    obtain ⟨resolved, found, related⟩ :=
      resolveArgument_resolved wellFormed bound member present fits
    refine ⟨(key, resolved), ?_, rfl, related⟩
    simp only [found]
    rfl
  obtain ⟨arguments, found, related⟩ := exists_mapM_eq_ok each
  refine ⟨{ component with arguments := arguments }, ?_, rfl, rfl, rfl, rfl, rfl, rfl, rfl, ?_⟩
  · rw [resolveComponent, found]
    rfl
  · rw [← List.zipIdx_map_fst 0 component.arguments, List.forall₂_map_left_iff]
    exact related

end

/-- A field that differs from another in its setter only, and has at most one of the given
setters. -/
def Attached (setters : List ComponentId) (field attached : Field) : Prop :=
  attached = { field with setter := attached.setter } ∧ ∀ id ∈ attached.setter, id ∈ setters

private theorem attachSetters_attached {setters : List ComponentId} {fields : Array Field}
    (unset : ∀ field ∈ spec.fields.toList, field.setter = none)
    (attached : attachSetters spec bindings setters = .ok fields) :
    List.Forall₂ (Attached setters) spec.fields.toList fields.toList := by
  refine foldlM_invariant
    (fun fields : Array Field => List.Forall₂ (Attached setters) spec.fields.toList fields.toList)
    (List.forall₂_same.mpr fun field member => ⟨rfl, ?_⟩) ?_ attached
  · rw [unset field member]
    simp
  · intro fields setter next member before step
    obtain ⟨target, -, rfl⟩ := bind_pure_eq_ok_iff.mp step
    rw [attachSetter, Array.toList_modify]
    refine forall₂_modify before fun field partner related => ⟨?_, ?_⟩
    · rw [related.1]
    · intro id found
      obtain rfl := Option.some.inj found
      exact member

/-- What a run of resolution is made of. -/
theorem run_eq_ok (resolved : run spec = .ok (result, summary)) :
    ∃ bindings fields components, bindAll spec = .ok bindings ∧
      attachSetters spec bindings (fieldSetters spec) = .ok fields ∧
      spec.components.toList.mapM (resolveComponent bindings) = .ok components ∧
      result =
        { parameters := spec.parameters
          functions := spec.functions
          enumSets := spec.enumSets
          sequences := spec.sequences
          fields := fields
          references := (spec.references.toList.zipWith resolveReference bindings.targets).toArray
          components := components.toArray } ∧
      summary =
        { recordReferences := bindings.targets.length
          fieldRefs := bindings.fields.length
          referenceRefs := bindings.references.length
          functionRefs := bindings.functions.length
          setterLinks := (fieldSetters spec).length } := by
  obtain ⟨bindings, bound, resolved⟩ := bind_eq_ok_iff.mp resolved
  obtain ⟨fields, attached, resolved⟩ := bind_eq_ok_iff.mp resolved
  obtain ⟨_, -, resolved⟩ := bind_eq_ok_iff.mp resolved
  obtain ⟨components, placed, same⟩ := bind_pure_eq_ok_iff.mp resolved
  obtain ⟨rfl, rfl⟩ := Prod.mk.inj same
  exact ⟨bindings, fields, components, bound, attached, placed, rfl, rfl⟩

/-- References are resolved in their order, each with its own target. -/
theorem zipWith_resolveReference {references : List (Reference .raw)}
    {related : Reference .raw → SequenceId → Prop} (all : List.Forall₂ related references targets) :
    (references.zipWith resolveReference targets).map Reference.target = targets ∧
      List.Forall₂ (fun before after => ∃ target, related before target ∧
        after = resolveReference before target) references
        (references.zipWith resolveReference targets) := by
  induction all with
  | nil => exact ⟨rfl, .nil⟩
  | cons here _ ih => exact ⟨congrArg (List.cons _) ih.1, .cons ⟨_, here, rfl⟩ ih.2⟩

/-- A run gives the resolution of a specification, in which a field has at most a setter of the
arena. -/
theorem resolved_of_run (assembled : Prototype.Assembled spec)
    (resolved : run spec = .ok (result, summary)) :
    Resolved spec result ∧
      List.Forall₂ (Attached (fieldSetters spec)) spec.fields.toList result.fields.toList := by
  have wellFormed := assembled.wellFormed
  obtain ⟨bindings, fields, components, bound, attached, placed, rfl, -⟩ := run_eq_ok resolved
  obtain ⟨targets, -⟩ := bindAll_eq_ok wellFormed bound
  obtain ⟨sameTargets, references⟩ := zipWith_resolveReference targets
  have fields := attachSetters_attached assembled.unset attached
  refine ⟨⟨rfl, rfl, rfl, rfl, fields.imp fun _ _ related => related.1, ?_, ?_⟩, fields⟩
  · refine references.imp fun before after related => ?_
    obtain ⟨target, found, rfl⟩ := related
    exact ⟨rfl, rfl, rfl, rfl, found⟩
  · have each : ∀ component ∈ spec.components.toList, ∃ resolved,
        resolveComponent bindings component = .ok resolved ∧
          ComponentResolved spec bindings.targets component resolved :=
      fun component member => resolveComponent_resolved wellFormed bound member
    obtain ⟨others, again, related⟩ := exists_mapM_eq_ok each
    obtain rfl := Except.ok.inj (placed.symm.trans again)
    rw [List.toList_toArray, List.toList_toArray, sameTargets]
    exact related

/-- **Resolution is exact, slot by slot.** Nothing but the names changes, every name is replaced by
what it denotes in the place where it stands, and the summary counts each of them once. -/
theorem run_resolves {text : String} (parsed : Prototype.parse text = .ok spec)
    {result : Specification .resolved} {summary : Summary}
    (resolved : run spec = .ok (result, summary)) :
    Resolved spec result ∧
      summary.recordReferences = spec.references.size ∧
      summary.fieldRefs = spec.countLinks .field ∧
      summary.referenceRefs = spec.countLinks .reference ∧
      summary.functionRefs = spec.countLinks .function ∧
      summary.setterLinks =
        spec.components.toList.countP fun component => component.kind == .fieldSetter := by
  have assembled := Prototype.parse_assembled parsed
  have wellFormed := assembled.wellFormed
  refine ⟨(resolved_of_run assembled resolved).1, ?_⟩
  obtain ⟨bindings, _, _, bound, -, -, -, rfl⟩ := run_eq_ok resolved
  obtain ⟨targets, fields, references, functions⟩ := bindAll_eq_ok wellFormed bound
  have counted : ∀ {α : Type} {resolve : LinkSite → Except CompileError α} {kind : LinkKind}
      {links : List (Slot × α)}, bindSites resolve (sitesOf spec kind) = .ok links →
      links.length = spec.countLinks kind := by
    intro α resolve kind links made
    rw [← length_sitesOf wellFormed kind]
    exact (forall₂_of_bindSites (sitesOf_slots_nodup wellFormed kind) made).length_eq.symm
  refine ⟨?_, counted fields, counted references, counted functions, ?_⟩
  · exact targets.length_eq.symm.trans Array.length_toList
  · rw [wellFormed.fieldSetters_perm.length_eq, List.length_map, List.countP_eq_length_filter]

/-- What a run over the result of a reading counts. -/
def summaryOf : Except CompileError (Specification .raw) → Option Summary
  | .ok spec => (run spec).toOption.map Prod.snd
  | .error _ => none

set_option maxRecDepth 100000 in
private theorem summaryOf_sample :
    summaryOf (Prototype.readRoot Prototype.Sample.root) = some ⟨1, 2, 1, 1, 1⟩ := by
  cbv

theorem exists_run_sample :
    ∃ spec result, Prototype.parse Prototype.Sample.text = .ok spec ∧
      run spec = .ok (result, ⟨1, 2, 1, 1, 1⟩) := by
  have counted := summaryOf_sample
  rw [Prototype.parse_eq_readRoot Prototype.Sample.parse_text]
  cases read : Prototype.readRoot Prototype.Sample.root with
  | error fault =>
      rw [read] at counted
      cases counted
  | ok spec =>
      rw [read] at counted
      obtain ⟨⟨result, summary⟩, ran, same⟩ := Option.map_eq_some_iff.mp counted
      obtain rfl : summary = _ := same
      refine ⟨spec, result, rfl, ?_⟩
      cases outcome : run spec with
      | error fault =>
          rw [outcome] at ran
          cases ran
      | ok pair =>
          rw [outcome] at ran
          rw [Option.some.inj ran]

/-- In the sample, two names of fields and one name of each other sort are replaced. -/
theorem sample_resolves :
    ∃ spec result, Prototype.parse Prototype.Sample.text = .ok spec ∧
      run spec = .ok (result, ⟨1, 2, 1, 1, 1⟩) ∧ Resolved spec result ∧
      spec.references.size = 1 ∧ spec.countLinks .field = 2 ∧ spec.countLinks .reference = 1 ∧
      spec.countLinks .function = 1 ∧
      (spec.components.toList.countP fun component => component.kind == .fieldSetter) = 1 := by
  obtain ⟨spec, result, parsed, ran⟩ := exists_run_sample
  obtain ⟨resolved, records, fields, references, functions, setters⟩ := run_resolves parsed ran
  exact ⟨spec, result, parsed, ran, resolved, records.symm, fields.symm, references.symm,
    functions.symm, setters.symm⟩

end Recordgen.Linking

import Recordgen.Compilation
import Recordgen.Proofs.ChainRendering
import Recordgen.Proofs.EmissionRun

/-! # When emission fails

The headers of a random sequence cannot be rendered for four reasons only (`Blocked`): an option of
its output format is not a constant, a callback has no usable name, two callbacks contradict each
other, or a range refers to a field that has no setter in the chain. The configuration, the meta
class and the generator can always be rendered, and a store in memory takes whatever is written, so
a run on one fails exactly when a sequence is blocked (`emission_fails_iff`).
-/

namespace Recordgen

open Outcome

variable {spec : Specification .resolved}

/-- A delimited output format with an option that is not written out. -/
def Component.BadFormat (component : Component .resolved) : Prop :=
  component.kind = .csvOutputFormat ∧ ∃ key ∈ ["delimiter", "quoted"], ∃ literal : Literal,
    component.argument? key = some (.literal literal) ∧
      ∀ value cast, literal.form ≠ .plain value cast

/-- What keeps the headers of a random sequence from being rendered. -/
inductive Specification.Blocked (spec : Specification .resolved) (sequence : RecordSequence) : Prop
  | format (id : ComponentId) (listed : id ∈ sequence.outputFormat)
      (bad : (spec.component id).BadFormat)
  | callback (id : ComponentId) (inside : id ∈ spec.chain sequence)
      (bad : (spec.component id).BadCallback)
  | conflict (conflict : spec.CallbackConflict sequence)
  | range (id : ComponentId) (inside : id ∈ spec.chain sequence)
      (bad : spec.BadRange sequence (spec.component id))

namespace Specification

/-- Whether nothing in a sequence can keep its headers from being rendered: it has no output format
and no callbacks, and its ranges are over fields with setters of its own. -/
def isRenderable (spec : Specification .resolved) (sequence : RecordSequence) : Bool :=
  sequence.outputFormat.isNone && (spec.chain sequence).all fun id =>
    match (spec.component id).kind, (spec.component id).argument? "field" with
    | .callbackValueProvider, _ => false
    | .contextFieldRangeProvider, some (.fieldRef link) =>
      FieldLink.isDirect link && (spec.field link.field).setter.any fun setter =>
        (spec.component setter).owner == some sequence.id
    | _, _ => true

/-- A sequence that can be rendered is not blocked. -/
theorem not_blocked_of_isRenderable {spec : Specification .resolved} {sequence : RecordSequence}
    (renderable : spec.isRenderable sequence = true) : ¬spec.Blocked sequence := by
  rw [isRenderable, Bool.and_eq_true_iff, Option.isNone_iff_eq_none, List.all_eq_true] at renderable
  obtain ⟨format, members⟩ := renderable
  have quiet : ∀ id ∈ spec.chain sequence, (spec.component id).kind ≠ .callbackValueProvider := by
    intro id inside sort
    have allowed := members id inside
    rw [sort] at allowed
    cases allowed
  intro blocked
  cases blocked with
  | format id listed bad =>
      rw [format] at listed
      cases listed
  | callback id inside bad => exact quiet id inside bad.1
  | conflict conflict =>
      obtain ⟨first, inside, _, _, _, _, _, declares, -⟩ := conflict
      exact quiet first inside declares.1
  | range id inside bad =>
      obtain ⟨sort, link, held, failing⟩ := bad
      have bound := members id inside
      rw [sort, held] at bound
      obtain ⟨direct, bound⟩ := Bool.and_eq_true_iff.mp bound
      rw [Option.any_eq_true] at bound
      obtain ⟨setter, some, owned⟩ := bound
      rcases failing with inner | unset | ⟨other, also, foreign⟩
      · exact inner (List.isEmpty_iff.mp direct)
      · rw [unset] at some
        cases some
      · obtain rfl := Option.some.inj (some.symm.trans also)
        exact foreign (beq_iff_eq.mp owned)

end Specification

/-- A handle that leads to a component of the given category leads to one that conforms. -/
theorem Specification.WellFormed.conforms_of_hasRoot (wellFormed : spec.WellFormed)
    {category : Category} {owner : Option SequenceId} {id : ComponentId}
    (root : spec.HasRoot category owner id) :
    (spec.component id).Conforms spec.components.toList ∧
      (spec.component id).kind.entry.category = category := by
  obtain ⟨component, present, sort, -⟩ := root
  rw [component_eq present]
  exact ⟨wellFormed.conform component (Array.mem_toList_iff.mpr (Array.mem_of_getElem? present)),
    sort⟩

namespace DelimitedFormat

variable {format : Component .resolved} {arena : List (Component .resolved)}

private theorem isPlain_eq_false_iff {form : Literal.Form} :
    form.isPlain = false ↔ ∀ value cast, form ≠ .plain value cast := by
  cases form <;> simp [Literal.Form.isPlain]

private theorem option_fails (conforms : format.Conforms arena) {key : String}
    (listed : format.kind.hasArgument key (.single .literal) = true) :
    FailsExactly (∃ literal : Literal, format.argument? key = some (.literal literal) ∧
      ∀ value cast, literal.form ≠ .plain value cast) RenderError (option format key) := by
  obtain ⟨literal, found⟩ := Component.literal_of_hasArgument conforms listed
  have only : (∃ other : Literal, format.argument? key = some (.literal other) ∧
      ∀ value cast, other.form ≠ .plain value cast) ↔ literal.form.isPlain = false := by
    rw [isPlain_eq_false_iff]
    constructor
    · rintro ⟨other, again, unfixed⟩
      obtain ⟨⟩ := Option.some.inj (found.symm.trans again)
      exact unfixed
    · exact fun unfixed => ⟨literal, found, unfixed⟩
  have taken : (format.argument? key).bind Argument.literal? = some literal := by
    rw [found]
    rfl
  rw [only]
  simp only [option, taken]
  split
  · rename_i plain
    exact (FailsExactly.ok _).congr (iff_of_false not_false (by rw [plain]; nofun))
  · rename_i other
    exact (FailsExactly.error trivial).congr (iff_of_true trivial (Bool.eq_false_iff.mpr other))

private theorem ofComponent_fails (conforms : format.Conforms arena)
    (sort : format.kind = .csvOutputFormat) :
    FailsExactly format.BadFormat RenderError (ofComponent format) := by
  have delimiter := option_fails conforms
    (by rw [sort]; rfl : format.kind.hasArgument "delimiter" (.single .literal) = true)
  have quoted := option_fails conforms
    (by rw [sort]; rfl : format.kind.hasArgument "quoted" (.single .literal) = true)
  rw [ofComponent]
  refine FailsExactly.congr (delimiter.bind fun _ _ => quoted.bind_ok fun _ => ⟨_, rfl⟩) ?_
  rw [Component.BadFormat, List.exists_mem_cons_iff, List.exists_mem_cons_iff]
  simp [sort]

end DelimitedFormat

namespace RecordContext

variable {context : RecordContext}

private theorem exists_plainArguments (linked : context.spec.Linked) {category : Category}
    {id : ComponentId}
    (root : context.spec.HasRoot category (some context.sequence.id) id)
    (flat : category.isFlat = true) (config : String) :
    ∃ arguments, context.plainArguments config (context.spec.component id) = .ok arguments := by
  obtain ⟨conforms, sort⟩ := linked.wellFormed.conforms_of_hasRoot root
  have texts := exists_argumentTexts conforms (by rw [sort]; exact flat)
    { spec := context.spec, config := config }
  exact exists_bind_ok texts fun _ => ⟨_, rfl⟩

section Sequence

variable (linked : context.spec.Linked) (member : context.sequence ∈ context.spec.sequences.toList)

include linked member

private theorem delimitedFormat?_fails :
    FailsExactly (∃ id ∈ context.sequence.outputFormat, (context.spec.component id).BadFormat)
      RenderError context.delimitedFormat? := by
  rw [delimitedFormat?]
  cases listed : context.sequence.outputFormat with
  | none => exact (FailsExactly.ok none).congr (by simp)
  | some id =>
      have conforms := (linked.wellFormed.conforms_of_hasRoot
        ((linked.wellFormed.sequences _ member).outputFormat id listed)).1
      have only : (∃ other ∈ some id, (context.spec.component other).BadFormat) ↔
          (context.spec.component id).BadFormat := by
        simp
      rw [only, Option.map_some]
      by_cases sort : (context.spec.component id).kind = .csvOutputFormat
      · have csv : ((context.spec.component id).kind == .csvOutputFormat) = true :=
          beq_iff_eq.mpr sort
        simp only [Option.filter_some, csv, if_true]
        exact (DelimitedFormat.ofComponent_fails conforms sort).map
      · have other : ((context.spec.component id).kind == .csvOutputFormat) = false :=
          beq_eq_false_iff_ne.mpr sort
        simp only [Option.filter_some, other]
        exact (FailsExactly.ok none).congr (iff_of_false not_false fun bad => sort bad.1)

/-- The record class fails for a bad output format only. -/
theorem recordHeaders_fails :
    FailsExactly (∃ id ∈ context.sequence.outputFormat, (context.spec.component id).BadFormat)
      RenderError context.recordHeaders := by
  have format := delimitedFormat?_fails linked member
  exact (format.bind_ok fun _ => ⟨_, rfl⟩).bind_ok fun _ => ⟨_, rfl⟩

/-- Every enumeration field has a table. -/
theorem exists_metaHeaders : ∃ headers, context.metaHeaders = .ok headers := by
  have each : ∀ field ∈ context.fields, ∃ table, context.enumTable? field = .ok table := by
    intro field listed
    have stored := (List.mergeSort_perm _ _).mem_iff.mp listed
    have enumSet := ((linked.wellFormed.record member).1.enumSets field stored).1
    rw [enumTable?]
    cases isEnum : field.type.isEnum with
    | false => exact ⟨none, rfl⟩
    | true =>
        rw [isEnum] at enumSet
        obtain ⟨key, given⟩ := Option.isSome_iff_exists.mp enumSet
        exact ⟨some ⟨Naming.lowerCamel field.name, key⟩, by rw [given]; rfl⟩
  have tables := exists_mapM_ok each
  exact exists_bind_ok (exists_bind_ok tables fun _ => ⟨_, rfl⟩) fun _ => ⟨_, rfl⟩

/-- The generator of a random sequence has an estimator, and its parts need nothing of the chain. -/
theorem exists_generatorHeaders (random : context.sequence.kind = .random) :
    ∃ headers, context.generatorHeaders = .ok headers := by
  have shaped := linked.wellFormed.sequences _ member
  obtain ⟨id, given⟩ := Option.isSome_iff_exists.mp (shaped.estimated random)
  have estimator : context.estimator = .ok (context.spec.component id) := by
    rw [RecordContext.estimator, given]
  obtain ⟨arguments, called⟩ :=
    exists_plainArguments linked (shaped.estimator id given) rfl "config"
  have each : ∀ task ∈ context.sequence.sequenceIterator.toList.map context.spec.component,
      ∃ step, context.iteratorTask task = .ok step := by
    intro task listed
    obtain ⟨id, present, rfl⟩ := List.mem_map.mp listed
    have arguments := exists_plainArguments linked
      (shaped.sequenceIterator id (Option.mem_toList.mp present)) rfl "_config"
    exact exists_bind_ok arguments fun _ => ⟨_, rfl⟩
  obtain ⟨steps, taken⟩ := exists_mapM_ok each
  exact ⟨_, bind_eq_ok_iff.mpr ⟨_, estimator, bind_eq_ok_iff.mpr ⟨arguments, called,
    bind_eq_ok_iff.mpr ⟨steps, taken, rfl⟩⟩⟩⟩

/-- **Sequences.** The headers of a random sequence can be rendered unless it is blocked. -/
theorem headers_fails (random : context.sequence.kind = .random) :
    FailsExactly (context.spec.Blocked context.sequence) RenderError context.headers := by
  have named := ChainNames.postOrder_perm linked.wellFormed member
  have first : FailsExactly False RenderError context.metaHeaders :=
    .of_succeeds (exists_metaHeaders linked member)
  rw [headers]
  refine FailsExactly.congr (first.bind fun _ _ =>
    (recordHeaders_fails linked member).bind fun _ _ =>
      (chainHeaders_fails linked member named).bind_ok fun _ => ?_) ?_
  · exact exists_bind_ok (exists_generatorHeaders linked member random) fun _ => ⟨_, rfl⟩
  · rw [false_or]
    constructor
    · rintro (⟨id, listed, bad⟩ | ⟨id, inside, bad | bad⟩ | conflict)
      · exact .format id listed bad
      · exact .callback id inside bad
      · exact .range id inside bad
      · exact .conflict conflict
    · intro blocked
      cases blocked with
      | format id listed bad => exact .inl ⟨id, listed, bad⟩
      | callback id inside bad => exact .inr (.inl ⟨id, inside, .inl bad⟩)
      | conflict conflict => exact .inr (.inr conflict)
      | range id inside bad => exact .inr (.inl ⟨id, inside, .inr bad⟩)

end Sequence

end RecordContext

namespace Specification

variable {spec : Specification .resolved}

private theorem exists_registrationArguments (linked : spec.Linked) {category : Category}
    {owner : Option SequenceId} {id : ComponentId} (root : spec.HasRoot category owner id)
    (flat : category.isFlat = true) :
    ∃ arguments, spec.registrationArguments (spec.component id) = .ok arguments := by
  obtain ⟨conforms, sort⟩ := linked.wellFormed.conforms_of_hasRoot root
  have texts := exists_argumentTexts conforms (by rw [sort]; exact flat) spec.configScope
  exact exists_bind_ok texts fun _ => ⟨_, rfl⟩

/-- Every function and every enumeration can be registered. -/
theorem exists_configHeaders (linked : spec.Linked) (targetNamespace : String) :
    ∃ headers, spec.configHeaders targetNamespace = .ok headers := by
  have wellFormed := linked.wellFormed
  have eachFunction : ∀ id ∈ spec.functions.values, ∃ step,
      spec.functionRegistration id = .ok step := by
    intro id listed
    have root := wellFormed.functions id listed
    have named := Component.exists_functionClass (wellFormed.conforms_of_hasRoot root).1
    refine exists_bind_ok (exists_registrationArguments linked root rfl) fun _ => ?_
    exact exists_bind_ok named fun _ => ⟨_, rfl⟩
  have eachEnumSet : ∀ id ∈ spec.enumSets.values, ∃ step,
      spec.enumSetRegistration id = .ok step := by
    intro id listed
    have arguments := exists_registrationArguments linked (wellFormed.enumSets id listed) rfl
    exact exists_bind_ok arguments fun _ => ⟨_, rfl⟩
  refine exists_bind_ok (exists_mapM_ok eachFunction) fun _ => ?_
  exact exists_bind_ok (exists_mapM_ok eachEnumSet) fun _ => ⟨_, rfl⟩

private theorem sequenceSteps_fails (linked : spec.Linked) (targetNamespace : String)
    {sequence : RecordSequence} (member : sequence ∈ spec.sequences.toList) :
    FailsExactly (sequence.kind = .random ∧ spec.Blocked sequence) RenderError
      (spec.sequenceSteps targetNamespace sequence) := by
  rw [sequenceSteps]
  cases sort : sequence.kind with
  | random =>
      have headers :=
        @RecordContext.headers_fails ⟨spec, sequence, targetNamespace⟩ linked member sort
      exact (headers.bind_ok fun _ => ⟨_, rfl⟩).congr (and_iff_right rfl).symm
  | unsupported element => exact (FailsExactly.ok _).congr (by simp)

/-- A plan ends with the error of the first sequence that fails. -/
theorem planSequences_failure (targetNamespace : String) (final : List PlanStep)
    (sequences : List RecordSequence) :
    (spec.planSequences targetNamespace final sequences).failure =
      match sequences.mapM (spec.sequenceSteps targetNamespace) with
      | .ok _ => none
      | .error fault => some fault := by
  induction sequences with
  | nil => rfl
  | cons sequence rest ih =>
      rw [planSequences, List.mapM_cons]
      cases spec.sequenceSteps targetNamespace sequence with
      | error fault => rfl
      | ok steps =>
          change (spec.planSequences targetNamespace final rest).failure = _
          rw [ih]
          cases rest.mapM (spec.sequenceSteps targetNamespace) <;> rfl

/-- **Plans.** A plan ends with an error exactly when a random sequence is blocked. -/
theorem plan_fails (linked : spec.Linked) (targetNamespace : String) :
    ((∃ fault, (spec.plan targetNamespace).failure = some fault) ↔
      ∃ sequence ∈ spec.sequences.toList, sequence.kind = .random ∧ spec.Blocked sequence) ∧
      ∀ fault, (spec.plan targetNamespace).failure = some fault → RenderError fault := by
  obtain ⟨config, rendered⟩ := exists_configHeaders linked targetNamespace
  have steps := FailsExactly.mapM fun (sequence : RecordSequence) member =>
    sequenceSteps_fails linked targetNamespace member
  have failure : ∀ fault, (spec.plan targetNamespace).failure = some fault ↔
      spec.sequences.toList.mapM (spec.sequenceSteps targetNamespace) = .error fault := by
    intro fault
    rw [plan, rendered]
    dsimp only [Plan.precede]
    rw [planSequences_failure]
    cases spec.sequences.toList.mapM (spec.sequenceSteps targetNamespace) with
    | ok _ => exact iff_of_false nofun nofun
    | error other => rw [Option.some.injEq, Except.error.injEq]
  simp only [failure]
  exact ⟨steps.fails, steps.within⟩

end Specification

/-- **Runs.** A run on a store in memory fails with the error of its plan and no other. -/
theorem Sink.runPlan_eq_error_iff {plan : Plan} {store : MemoryStore} {fault : CompileError} :
    ((memorySink.runPlan plan).run store).1 = .error fault ↔ plan.failure = some fault :=
  memory.runPlan_eq_error_iff

/-- **When emission fails.** A document that is parsed and resolved cannot be emitted into a store in
memory exactly when a random sequence is blocked, whatever the namespace and the store. No other
error can be reported. -/
theorem emission_fails_iff {text : String} {raw : Specification .raw}
    {spec : Specification .resolved} (parsed : Prototype.parse text = .ok raw)
    (resolved : Linking.resolve raw = .ok spec) (targetNamespace : String) (store : MemoryStore) :
    ((∃ fault, ((memorySink.runPlan (spec.plan targetNamespace)).run store).1 = .error fault) ↔
      ∃ sequence ∈ spec.sequences.toList, sequence.kind = .random ∧ spec.Blocked sequence) ∧
      ∀ fault, ((memorySink.runPlan (spec.plan targetNamespace)).run store).1 = .error fault →
        RenderError fault := by
  have linked : spec.Linked := by
    obtain ⟨⟨_, summary⟩, ran, rfl⟩ := map_eq_ok_iff.mp resolved
    exact Linking.linked_of_run (Prototype.parse_assembled parsed) ran
  simp only [Sink.runPlan_eq_error_iff]
  exact Specification.plan_fails linked targetNamespace

/-- Whether the chain of a random sequence has a range over a field of its own without a setter. -/
def Specification.hasUnsetRange (spec : Specification .resolved) : Bool :=
  spec.sequences.toList.any fun sequence => sequence.kind == .random &&
    (spec.chain sequence).any fun id =>
      (spec.component id).kind == .contextFieldRangeProvider &&
        match (spec.component id).argument? "field" with
        | some (.fieldRef link) => (spec.field (FieldLink.field link)).setter.isNone
        | _ => false

/-- A range over a field without a setter blocks a random sequence. -/
theorem Specification.exists_blocked (unset : spec.hasUnsetRange = true) :
    ∃ sequence ∈ spec.sequences.toList, sequence.kind = .random ∧ spec.Blocked sequence := by
  obtain ⟨sequence, member, found⟩ := List.any_eq_true.mp unset
  obtain ⟨random, found⟩ := Bool.and_eq_true_iff.mp found
  obtain ⟨id, inside, found⟩ := List.any_eq_true.mp found
  obtain ⟨sort, found⟩ := Bool.and_eq_true_iff.mp found
  refine ⟨sequence, member, beq_iff_eq.mp random, .range id inside ⟨beq_iff_eq.mp sort, ?_⟩⟩
  split at found
  · rename_i link held
    exact ⟨link, held, .inr (.inl (Option.isNone_iff_eq_none.mp found))⟩
  · cases found

/-- Whether a reading is resolved into something with an unset range. -/
def unsetRangeOf : Except CompileError (Specification .raw) → Bool
  | .ok raw => (Linking.resolve raw).toOption.any Specification.hasUnsetRange
  | .error _ => false

set_option maxRecDepth 100000 in
private theorem unsetRangeOf_sample :
    unsetRangeOf (Prototype.readRoot Prototype.Sample.root) = true := by
  cbv

/-- The sample is resolved, but one of its ranges is over a field without a setter, so it cannot be
emitted. -/
theorem sample_not_emitted :
    ∃ raw spec, Prototype.parse Prototype.Sample.text = .ok raw ∧
      Linking.resolve raw = .ok spec ∧ ∀ targetNamespace store, ∃ fault,
        ((memorySink.runPlan (spec.plan targetNamespace)).run store).1 = .error fault ∧
          RenderError fault := by
  have found := unsetRangeOf_sample
  rw [← Prototype.parse_eq_readRoot Prototype.Sample.parse_text] at found
  cases parsed : Prototype.parse Prototype.Sample.text with
  | error fault =>
      rw [parsed] at found
      cases found
  | ok raw =>
      rw [parsed] at found
      cases resolved : Linking.resolve raw with
      | error fault =>
          rw [unsetRangeOf, resolved] at found
          cases found
      | ok spec =>
          rw [unsetRangeOf, resolved] at found
          refine ⟨raw, spec, rfl, resolved, fun targetNamespace store => ?_⟩
          obtain ⟨fails, within⟩ := emission_fails_iff parsed resolved targetNamespace store
          obtain ⟨fault, failed⟩ := fails.mpr (Specification.exists_blocked found)
          exact ⟨fault, failed, within fault failed⟩

end Recordgen

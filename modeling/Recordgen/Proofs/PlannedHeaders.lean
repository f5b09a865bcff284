import Recordgen.Proofs.ArtifactPaths
import Recordgen.Proofs.EmissionFailure

/-! # The headers that a plan writes

A specification has a configuration class, five classes for each random sequence and a subsystem
class (`Specification.artifacts`). A plan writes the headers of these classes in this order. One that
fails ends in front of the first sequence whose headers cannot be rendered, behind the headers of all
sequences before it (`Specification.plan_cases`).
-/

namespace Recordgen

open Outcome

variable {text : String} {check : Specification .resolved → Bool}

/-- The kinds of classes that a random sequence has, in the order of emission. -/
def ArtifactKind.ofSequence : List ArtifactKind :=
  [.recordMeta, .record, .util, .setterChain, .generator]

namespace RecordSequence

variable {sequence : RecordSequence}

/-- The classes of a sequence. Only a random one has any. -/
def artifacts (sequence : RecordSequence) : List Artifact :=
  match sequence.kind with
  | .random => ArtifactKind.ofSequence.map fun kind => .ofRecord kind sequence.key
  | .unsupported _ => []

/-- A random sequence has one artifact of each kind. -/
theorem artifacts_of_random (random : sequence.kind = .random) :
    sequence.artifacts = ArtifactKind.ofSequence.map fun kind => .ofRecord kind sequence.key := by
  rw [artifacts, random]

/-- The artifacts of a sequence: those of a random one, named by its key. -/
theorem mem_artifacts {artifact : Artifact} :
    artifact ∈ sequence.artifacts ↔ sequence.kind = .random ∧
      ∃ kind ∈ ArtifactKind.ofSequence, artifact = .ofRecord kind sequence.key := by
  cases sort : sequence.kind with
  | random =>
      rw [artifacts_of_random sort, List.mem_map]
      simp [eq_comm]
  | unsupported element => simp [artifacts, sort]

/-- The artifacts of a sequence have plain paths. -/
theorem isPlain_of_mem_artifacts {artifact : Artifact} (member : artifact ∈ sequence.artifacts) :
    artifact.IsPlain := by
  obtain ⟨-, kind, -, rfl⟩ := mem_artifacts.mp member
  exact Artifact.isPlain_ofRecord kind sequence.key

end RecordSequence

theorem Step.infix_declarationBraces (body : List Step) : body <:+: declarationBraces body :=
  ⟨[opening "\x7b"], [closing "\x7d;"], rfl⟩

namespace RecordContext

variable {context : RecordContext} {pair : HeaderPair} {names : ChainNames}
  {pairs : List HeaderPair}

private theorem artifact_of_metaHeaders (rendered : context.metaHeaders = .ok pair) :
    pair.artifact = context.artifact .recordMeta := by
  obtain ⟨_, -, same⟩ := bind_eq_ok_iff.mp rendered
  exact congrArg HeaderPair.artifact (pure_eq_ok_iff.mp same).symm

private theorem artifact_of_recordHeaders (rendered : context.recordHeaders = .ok pair) :
    pair.artifact = context.artifact .record := by
  obtain ⟨_, -, same⟩ := bind_eq_ok_iff.mp rendered
  exact congrArg HeaderPair.artifact (pure_eq_ok_iff.mp same).symm

theorem artifact_of_chainHeaders (rendered : context.chainHeaders names = .ok pair) :
    pair.artifact = context.artifact .setterChain := by
  obtain ⟨_, -, rendered⟩ := bind_eq_ok_iff.mp rendered
  obtain ⟨_, -, rendered⟩ := bind_eq_ok_iff.mp rendered
  obtain ⟨_, -, same⟩ := bind_eq_ok_iff.mp rendered
  exact congrArg HeaderPair.artifact (pure_eq_ok_iff.mp same).symm

private theorem artifact_of_generatorHeaders (rendered : context.generatorHeaders = .ok pair) :
    pair.artifact = context.artifact .generator := by
  obtain ⟨_, -, rendered⟩ := bind_eq_ok_iff.mp rendered
  obtain ⟨_, -, rendered⟩ := bind_eq_ok_iff.mp rendered
  obtain ⟨_, -, same⟩ := bind_eq_ok_iff.mp rendered
  exact congrArg HeaderPair.artifact (pure_eq_ok_iff.mp same).symm

/-- The headers of a random sequence, each with its rendering. -/
theorem parts_of_headers (rendered : context.headers = .ok pairs) :
    ∃ metaPair record chain generator, context.metaHeaders = .ok metaPair ∧
      context.recordHeaders = .ok record ∧
      context.chainHeaders (ChainNames.assign context.spec context.sequence) = .ok chain ∧
      context.generatorHeaders = .ok generator ∧
      pairs = [metaPair, record, context.utilHeaders, chain, generator] := by
  obtain ⟨metaPair, metaRendered, rendered⟩ := bind_eq_ok_iff.mp rendered
  obtain ⟨record, recordRendered, rendered⟩ := bind_eq_ok_iff.mp rendered
  obtain ⟨chain, chainRendered, rendered⟩ := bind_eq_ok_iff.mp rendered
  obtain ⟨generator, generatorRendered, rfl⟩ := bind_pure_eq_ok_iff.mp rendered
  exact ⟨metaPair, record, chain, generator, metaRendered, recordRendered, chainRendered,
    generatorRendered, rfl⟩

/-- The headers of a record come with those of its chain. -/
theorem exists_chainHeaders (rendered : context.headers = .ok pairs) :
    ∃ chain ∈ pairs,
      context.chainHeaders (ChainNames.assign context.spec context.sequence) = .ok chain := by
  obtain ⟨_, _, chain, _, -, -, chained, -, rfl⟩ := parts_of_headers rendered
  exact ⟨chain, by simp, chained⟩

/-- What the base class of a setter chain consists of, beside the application of the setters: type
names, the constructor, callbacks, the filter and variables. -/
theorem parts_of_chainHeaders (rendered : context.chainHeaders names = .ok pair) :
    ∃ declarations types,
      context.chainDeclarations names {} names.postOrder = .ok (declarations, types) ∧
      chainTypes declarations <:+: pair.base.body ∧
      context.chainConstructor declarations <:+: pair.base.body ∧
      (types.entries.map fun (name, type) => Callback.mk name type).flatMap context.callbackHook <:+:
        pair.base.body ∧
      (∃ setters, context.chainFilter setters <:+: pair.base.body) ∧
      .line "const I64u _sequenceCardinality;" :: declarations.map ChainDeclaration.variableStep <:+:
        pair.base.body := by
  obtain ⟨⟨declarations, types⟩, declared, rendered⟩ := bind_eq_ok_iff.mp rendered
  obtain ⟨_, -, rendered⟩ := bind_eq_ok_iff.mp rendered
  obtain ⟨filtering, -, rfl⟩ := bind_pure_eq_ok_iff.mp rendered
  refine ⟨declarations, types, declared, ?_⟩
  have within : ∀ {steps body behind : List Step} {line : Step}, steps <:+: body →
      steps <:+: line :: Step.declarationBraces body ++ behind := fun inside =>
    List.infix_append_of_infix_left
      (List.infix_cons (inside.trans (Step.infix_declarationBraces _)))
  -- The parts are counted from the end of the class.
  refine ⟨within ?_, within ?_, within ?_, ⟨filtering, within ?_⟩, within ?_⟩
  · iterate 11 apply List.infix_append_of_infix_left
    exact List.infix_append_of_infix_right List.infix_rfl
  · iterate 10 apply List.infix_append_of_infix_left
    exact List.infix_append_of_infix_right List.infix_rfl
  · iterate 7 apply List.infix_append_of_infix_left
    exact List.infix_append_of_infix_right List.infix_rfl
  · iterate 3 apply List.infix_append_of_infix_left
    exact List.infix_append_of_infix_right List.infix_rfl
  · exact List.infix_append_of_infix_right List.infix_rfl

/-- The headers of a record are those of its artifacts, in their order. -/
theorem artifacts_of_headers (rendered : context.headers = .ok pairs) :
    pairs.map HeaderPair.artifact = ArtifactKind.ofSequence.map context.artifact := by
  obtain ⟨metaPair, record, chain, generator, metaRendered, recordRendered, chainRendered,
    generatorRendered, rfl⟩ := parts_of_headers rendered
  rw [List.map_cons, List.map_cons, List.map_cons, List.map_cons, List.map_singleton,
    artifact_of_metaHeaders metaRendered, artifact_of_recordHeaders recordRendered,
    artifact_of_chainHeaders chainRendered, artifact_of_generatorHeaders generatorRendered]
  rfl

end RecordContext

private theorem Plan.headers_precede (steps : List PlanStep) (plan : Plan) :
    (plan.precede steps).headers = steps.filterMap PlanStep.headers? ++ plan.headers :=
  List.filterMap_append

namespace Specification

/-- The classes of a specification, in the order of emission. -/
def artifacts {phase : Phase} (spec : Specification phase) : List Artifact :=
  .config :: spec.sequences.toList.flatMap RecordSequence.artifacts ++ [.subsystem]

theorem isPlain_of_mem_artifacts {phase : Phase} {spec : Specification phase} {artifact : Artifact}
    (member : artifact ∈ spec.artifacts) : artifact.IsPlain := by
  rw [artifacts, List.cons_append, List.mem_cons, List.mem_append, List.mem_flatMap,
    List.mem_singleton] at member
  rcases member with rfl | ⟨sequence, -, member⟩ | rfl
  · exact Artifact.isPlain_config
  · exact RecordSequence.isPlain_of_mem_artifacts member
  · exact Artifact.isPlain_subsystem

variable (spec : Specification .resolved) (targetNamespace : String) {sequence : RecordSequence}
  {pairs : List HeaderPair} {pair config : HeaderPair}

/-- The headers of a sequence. Only a random one has any. -/
def sequenceHeaders (sequence : RecordSequence) : Except CompileError (List HeaderPair) :=
  match sequence.kind with
  | .random => RecordContext.headers ⟨spec, sequence, targetNamespace⟩
  | .unsupported _ => .ok []

variable {spec targetNamespace}

theorem sequenceHeaders_of_random (random : sequence.kind = .random) :
    spec.sequenceHeaders targetNamespace sequence =
      RecordContext.headers ⟨spec, sequence, targetNamespace⟩ := by
  rw [sequenceHeaders, random]

theorem sequenceHeaders_of_unsupported {element : String}
    (unsupported : sequence.kind = .unsupported element) :
    spec.sequenceHeaders targetNamespace sequence = .ok [] := by
  rw [sequenceHeaders, unsupported]

/-- Only a random sequence has headers. -/
theorem random_of_mem_sequenceHeaders
    (rendered : spec.sequenceHeaders targetNamespace sequence = .ok pairs) (inside : pair ∈ pairs) :
    sequence.kind = .random ∧
      RecordContext.headers ⟨spec, sequence, targetNamespace⟩ = .ok pairs := by
  cases sort : sequence.kind with
  | random => exact ⟨rfl, (sequenceHeaders_of_random sort).symm.trans rendered⟩
  | unsupported element =>
      rw [sequenceHeaders_of_unsupported sort] at rendered
      obtain rfl := Except.ok.inj rendered
      cases inside

private theorem artifacts_of_sequenceHeaders
    (rendered : spec.sequenceHeaders targetNamespace sequence = .ok pairs) :
    pairs.map HeaderPair.artifact = sequence.artifacts := by
  cases sort : sequence.kind with
  | random =>
      rw [sequenceHeaders_of_random sort] at rendered
      have listed := RecordContext.artifacts_of_headers rendered
      rw [listed, RecordSequence.artifacts_of_random sort]
      rfl
  | unsupported element =>
      rw [sequenceHeaders_of_unsupported sort] at rendered
      obtain rfl := Except.ok.inj rendered
      rw [RecordSequence.artifacts, sort]
      rfl

/-- Headers are rendered in the order of the artifacts. -/
theorem artifacts_of_mapM {sequences : List RecordSequence} {all : List (List HeaderPair)}
    (rendered : sequences.mapM (spec.sequenceHeaders targetNamespace) = .ok all) :
    all.flatten.map HeaderPair.artifact = sequences.flatMap RecordSequence.artifacts := by
  induction mapM_eq_ok_iff.mp rendered with
  | nil => rfl
  | cons here later ih =>
      rw [List.flatten_cons, List.map_append, List.flatMap_cons, artifacts_of_sequenceHeaders here,
        ih (mapM_eq_ok_iff.mpr later)]

theorem artifact_of_configHeaders (rendered : spec.configHeaders targetNamespace = .ok config) :
    config.artifact = .config := by
  obtain ⟨_, -, rendered⟩ := bind_eq_ok_iff.mp rendered
  obtain ⟨_, -, same⟩ := bind_eq_ok_iff.mp rendered
  exact congrArg HeaderPair.artifact (pure_eq_ok_iff.mp same).symm

private theorem headers_of_steps (warnings : List Warning) (pairs : List HeaderPair) :
    (warnings.map PlanStep.warn ++ pairs.map PlanStep.write).filterMap PlanStep.headers? = pairs := by
  have quiet : (warnings.map PlanStep.warn).filterMap PlanStep.headers? = [] := by
    rw [List.filterMap_map]
    exact List.filterMap_eq_nil_iff.mpr fun _ _ => rfl
  have written : (pairs.map PlanStep.write).filterMap PlanStep.headers? = pairs := by
    rw [List.filterMap_map]
    exact List.filterMap_some
  rw [List.filterMap_append, quiet, written, List.nil_append]

variable (spec targetNamespace) in
/-- The steps for a sequence write its headers and fail as they do. -/
theorem sequenceHeaders_eq (sequence : RecordSequence) :
    spec.sequenceHeaders targetNamespace sequence =
      List.filterMap PlanStep.headers? <$> spec.sequenceSteps targetNamespace sequence := by
  rw [sequenceHeaders, sequenceSteps]
  cases sequence.kind with
  | unsupported element => rfl
  | random =>
      dsimp only
      cases RecordContext.headers ⟨spec, sequence, targetNamespace⟩ with
      | error fault => rfl
      | ok pairs => exact congrArg Except.ok (headers_of_steps _ pairs).symm

/-- The plan for sequences writes the headers of all of them, or of those before the first one whose
headers cannot be rendered. -/
theorem planSequences_cases (final : List PlanStep) (sequences : List RecordSequence) :
    (∃ all, sequences.mapM (spec.sequenceHeaders targetNamespace) = .ok all ∧
      (spec.planSequences targetNamespace final sequences).failure = none ∧
      (spec.planSequences targetNamespace final sequences).headers =
        all.flatten ++ final.filterMap PlanStep.headers?) ∨
    ∃ before sequence later all fault, sequences = before ++ sequence :: later ∧
      before.mapM (spec.sequenceHeaders targetNamespace) = .ok all ∧
      spec.sequenceHeaders targetNamespace sequence = .error fault ∧
      (spec.planSequences targetNamespace final sequences).failure = some fault ∧
      (spec.planSequences targetNamespace final sequences).headers = all.flatten := by
  -- What the rest of the plan does is kept, with the headers of the first sequence in front.
  induction sequences with
  | nil => exact .inl ⟨[], rfl, rfl, rfl⟩
  | cons sequence rest ih =>
      have here := sequenceHeaders_eq spec targetNamespace sequence
      rw [planSequences]
      cases planned : spec.sequenceSteps targetNamespace sequence with
      | error fault =>
          rw [planned] at here
          exact .inr ⟨[], sequence, rest, [], fault, rfl, rfl, here, rfl, rfl⟩
      | ok steps =>
          rw [planned] at here
          dsimp only
          rw [Plan.headers_precede]
          rcases ih with ⟨all, rendered, failure, headers⟩ |
            ⟨before, sequence, later, all, fault, rfl, rendered, failed, failure, headers⟩
          · refine .inl ⟨steps.filterMap PlanStep.headers? :: all, ?_, failure, ?_⟩
            · exact mapM_eq_ok_iff.mpr (.cons here (mapM_eq_ok_iff.mp rendered))
            · rw [headers, List.flatten_cons, List.append_assoc]
          · refine .inr ⟨_ :: before, sequence, later, steps.filterMap PlanStep.headers? :: all,
              fault, rfl, ?_, failed, failure, ?_⟩
            · exact mapM_eq_ok_iff.mpr (.cons here (mapM_eq_ok_iff.mp rendered))
            · rw [headers, List.flatten_cons]

/-- **Plans.** A plan writes the configuration, the headers of all sequences and the subsystem, or
it fails and writes the configuration and the headers of the sequences before the one that cannot be
rendered. -/
theorem plan_cases (rendered : spec.configHeaders targetNamespace = .ok config) :
    (∃ all, spec.sequences.toList.mapM (spec.sequenceHeaders targetNamespace) = .ok all ∧
      (spec.plan targetNamespace).failure = none ∧
      (spec.plan targetNamespace).headers = config :: all.flatten ++
        [subsystemHeaders spec.sequences.toList targetNamespace]) ∨
    ∃ before sequence later all fault, spec.sequences.toList = before ++ sequence :: later ∧
      before.mapM (spec.sequenceHeaders targetNamespace) = .ok all ∧
      spec.sequenceHeaders targetNamespace sequence = .error fault ∧
      (spec.plan targetNamespace).failure = some fault ∧
      (spec.plan targetNamespace).headers = config :: all.flatten := by
  have planned : spec.plan targetNamespace = (spec.planSequences targetNamespace
      [.write (subsystemHeaders spec.sequences.toList targetNamespace)]
      spec.sequences.toList).precede [.write config] := by
    rw [plan, rendered]
  rw [planned, Plan.headers_precede]
  rcases planSequences_cases [.write (subsystemHeaders spec.sequences.toList targetNamespace)]
      spec.sequences.toList with ⟨all, rest, failure, headers⟩ |
        ⟨before, sequence, later, all, fault, split, rest, failed, failure, headers⟩
  · exact .inl ⟨all, rest, failure, congrArg (List.cons config) headers⟩
  · exact .inr ⟨before, sequence, later, all, fault, split, rest, failed, failure,
      congrArg (List.cons config) headers⟩

/-- Every plan writes the configuration. -/
theorem config_mem_headers (rendered : spec.configHeaders targetNamespace = .ok config) :
    config ∈ (spec.plan targetNamespace).headers := by
  rcases plan_cases rendered with ⟨_, -, -, headers⟩ | ⟨_, _, _, _, _, -, -, -, -, headers⟩
  · rw [headers]
    exact List.mem_cons_self
  · rw [headers]
    exact List.mem_cons_self

/-- The headers that a plan writes are the configuration, those of sequences and the subsystem. -/
theorem mem_headers_cases_of_config (rendered : spec.configHeaders targetNamespace = .ok config)
    (listed : pair ∈ (spec.plan targetNamespace).headers) :
    spec.configHeaders targetNamespace = .ok pair ∨
      (∃ sequence ∈ spec.sequences.toList, sequence.kind = .random ∧ ∃ pairs,
        RecordContext.headers ⟨spec, sequence, targetNamespace⟩ = .ok pairs ∧ pair ∈ pairs) ∨
      pair = subsystemHeaders spec.sequences.toList targetNamespace := by
  have sequences : ∀ (some : List RecordSequence) (all : List (List HeaderPair)),
      some ⊆ spec.sequences.toList →
      some.mapM (spec.sequenceHeaders targetNamespace) = .ok all →
      pair ∈ config :: all.flatten →
      spec.configHeaders targetNamespace = .ok pair ∨
        ∃ sequence ∈ spec.sequences.toList, sequence.kind = .random ∧ ∃ pairs,
          RecordContext.headers ⟨spec, sequence, targetNamespace⟩ = .ok pairs ∧ pair ∈ pairs := by
    intro some all within rest inside
    rcases List.mem_cons.mp inside with rfl | inside
    · exact .inl rendered
    · obtain ⟨pairs, found, inside⟩ := List.mem_flatten.mp inside
      obtain ⟨sequence, member, here⟩ := exists_left_of_mem (mapM_eq_ok_iff.mp rest) found
      obtain ⟨random, here⟩ := random_of_mem_sequenceHeaders here inside
      exact .inr ⟨sequence, within member, random, pairs, here, inside⟩
  rcases plan_cases rendered with ⟨all, rest, -, headers⟩ |
    ⟨before, sequence, later, all, -, split, rest, -, -, headers⟩
  · rw [headers] at listed
    rcases List.mem_append.mp listed with inside | last
    · exact (sequences _ all (List.Subset.refl _) rest inside).imp_right .inl
    · exact .inr (.inr (List.mem_singleton.mp last))
  · rw [headers] at listed
    exact (sequences before all (split ▸ List.subset_append_left _ _) rest listed).imp_right .inl

/-- A planned header is the configuration's, a random sequence's or the subsystem's. -/
theorem mem_headers_cases (linked : spec.Linked)
    (listed : pair ∈ (spec.plan targetNamespace).headers) :
    spec.configHeaders targetNamespace = .ok pair ∨
      (∃ sequence ∈ spec.sequences.toList, sequence.kind = .random ∧ ∃ pairs,
        RecordContext.headers ⟨spec, sequence, targetNamespace⟩ = .ok pairs ∧ pair ∈ pairs) ∨
      pair = subsystemHeaders spec.sequences.toList targetNamespace := by
  obtain ⟨config, rendered⟩ := exists_configHeaders linked targetNamespace
  exact mem_headers_cases_of_config rendered listed

/-- A plan that does not fail writes the headers of every random sequence. -/
theorem exists_headers_of_plan (linked : spec.Linked)
    (complete : (spec.plan targetNamespace).failure = none)
    (member : sequence ∈ spec.sequences.toList) (random : sequence.kind = .random) :
    ∃ pairs, RecordContext.headers ⟨spec, sequence, targetNamespace⟩ = .ok pairs ∧
      pairs ⊆ (spec.plan targetNamespace).headers := by
  obtain ⟨config, rendered⟩ := exists_configHeaders linked targetNamespace
  rcases plan_cases rendered with ⟨all, rest, -, headers⟩ |
    ⟨_, _, _, _, fault, -, -, -, failure, -⟩
  · obtain ⟨pairs, inside, here⟩ := exists_right_of_mem (mapM_eq_ok_iff.mp rest) member
    rw [sequenceHeaders_of_random random] at here
    refine ⟨pairs, here, fun pair listed => ?_⟩
    rw [headers]
    exact List.mem_append_left _
      (List.mem_cons_of_mem _ (List.mem_flatten.mpr ⟨pairs, inside, listed⟩))
  · rw [complete] at failure
    cases failure

/-- A plan writes headers of the specification's classes, in their order, and of all of them unless it
fails. -/
theorem artifacts_plan (linked : spec.Linked) :
    (spec.plan targetNamespace).headers.map HeaderPair.artifact <+: spec.artifacts ∧
      ((spec.plan targetNamespace).failure = none →
        (spec.plan targetNamespace).headers.map HeaderPair.artifact = spec.artifacts) := by
  obtain ⟨config, rendered⟩ := exists_configHeaders linked targetNamespace
  rcases plan_cases rendered with ⟨all, rest, -, headers⟩ |
    ⟨before, sequence, later, all, fault, split, rest, -, failure, headers⟩
  · have listed : (spec.plan targetNamespace).headers.map HeaderPair.artifact = spec.artifacts := by
      rw [headers, List.map_append, List.map_cons, artifact_of_configHeaders rendered,
        artifacts_of_mapM rest]
      rfl
    exact ⟨listed ▸ List.prefix_rfl, fun _ => listed⟩
  · constructor
    · rw [headers, List.map_cons, artifact_of_configHeaders rendered, artifacts_of_mapM rest,
        artifacts, split, List.flatMap_append, List.cons_append, List.append_assoc]
      exact List.cons_prefix_cons.mpr ⟨rfl, List.prefix_append _ _⟩
    · intro complete
      rw [complete] at failure
      cases failure

end Specification

/-- What is read from a document is linked. -/
theorem linked_of_readDocument {spec : Specification .resolved}
    (read : readDocument text = .ok spec) : spec.Linked := by
  obtain ⟨raw, parsed, resolved⟩ := bind_eq_ok_iff.mp read
  obtain ⟨⟨_, summary⟩, ran, rfl⟩ := map_eq_ok_iff.mp resolved
  exact Linking.linked_of_run (Prototype.parse_assembled parsed) ran

namespace TotalSink

variable {σ : Type} (total : TotalSink σ) (state : σ) (targetNamespace : String) {text : String}

/-- A document that cannot be read leaves everything as it is. -/
theorem run_compileDocument_error {fault : CompileError}
    (unread : readDocument text = .error fault) :
    (compileDocument total.toSink targetNamespace text).run state = (.error fault, state) := by
  rw [compileDocument, unread]
  rfl

/-- A document that can be read is compiled by running its plan. -/
theorem run_compileDocument {spec : Specification .resolved} (read : readDocument text = .ok spec) :
    (compileDocument total.toSink targetNamespace text).run state =
      ((spec.plan targetNamespace).ending (total.run (spec.plan targetNamespace) state).1,
        (total.run (spec.plan targetNamespace) state).2) := by
  rw [← run_runPlan, compileDocument, read]
  rfl

end TotalSink

/-- A document that is compiled is read, and its plan is run to its end. -/
theorem exists_complete_of_compiled {store after : MemoryStore} {targetNamespace : String}
    {report : Report}
    (compiled : compileInMemory store targetNamespace text = (.ok report, after)) :
    ∃ spec, readDocument text = .ok spec ∧ (spec.plan targetNamespace).failure = none ∧
      memory.run (spec.plan targetNamespace) store = (report, after) := by
  rw [compileInMemory, ← memory_toSink] at compiled
  cases read : readDocument text with
  | error fault =>
      rw [TotalSink.run_compileDocument_error _ _ _ read] at compiled
      cases congrArg Prod.fst compiled
  | ok spec =>
      rw [TotalSink.run_compileDocument _ _ _ read] at compiled
      obtain ⟨ending, state⟩ := Prod.mk.inj compiled
      obtain ⟨complete, reported⟩ := Plan.ending_eq_ok_iff.mp ending
      exact ⟨spec, rfl, complete, Prod.ext reported state⟩

/-- A document that can be read and in which no sequence is blocked is compiled. -/
theorem exists_compiled_of_unblocked {root : Markup.Element} (parsed : Markup.parse text = .ok root)
    (found : (Prototype.readRoot root >>= Linking.resolve).toOption.any check = true)
    (free : ∀ spec, check spec = true → spec.WellFormed →
      ∀ sequence ∈ spec.sequences.toList, ¬spec.Blocked sequence)
    (store : MemoryStore) (targetNamespace : String) :
    ∃ spec report after, readDocument text = .ok spec ∧ check spec = true ∧
      (spec.plan targetNamespace).failure = none ∧
      compileInMemory store targetNamespace text = (.ok report, after) := by
  rw [← Prototype.parse_eq_readRoot parsed, Option.any_eq_true] at found
  obtain ⟨spec, some, checked⟩ := found
  have read : readDocument text = .ok spec := toOption_eq_some_iff.mp some
  have linked := linked_of_readDocument read
  have complete : (spec.plan targetNamespace).failure = none := by
    refine Option.eq_none_iff_forall_ne_some.mpr fun fault failure => ?_
    obtain ⟨sequence, member, -, blocked⟩ :=
      (Specification.plan_fails linked targetNamespace).1.mp ⟨fault, failure⟩
    exact free spec checked linked.wellFormed sequence member blocked
  refine ⟨spec, (memory.run (spec.plan targetNamespace) store).1,
    (memory.run (spec.plan targetNamespace) store).2, read, checked, complete, ?_⟩
  rw [compileInMemory, ← memory_toSink, TotalSink.run_compileDocument _ _ _ read,
    Plan.ending_eq_ok_iff.mpr ⟨complete, rfl⟩]

/-- A document that can be read and whose sequences can be rendered is compiled. -/
theorem exists_compiled_of_isRenderable {root : Markup.Element}
    (parsed : Markup.parse text = .ok root)
    (found : (Prototype.readRoot root >>= Linking.resolve).toOption.any (fun spec =>
      spec.sequences.toList.all spec.isRenderable && check spec) = true)
    (store : MemoryStore) (targetNamespace : String) :
    ∃ spec report after, readDocument text = .ok spec ∧ check spec = true ∧
      (spec.plan targetNamespace).failure = none ∧
      compileInMemory store targetNamespace text = (.ok report, after) := by
  obtain ⟨spec, report, after, read, checked, compiled⟩ := exists_compiled_of_unblocked parsed found
    (fun spec checked _ sequence member => Specification.not_blocked_of_isRenderable
      (List.all_eq_true.mp (Bool.and_eq_true_iff.mp checked).1 sequence member))
    store targetNamespace
  exact ⟨spec, report, after, read, (Bool.and_eq_true_iff.mp checked).2, compiled⟩

end Recordgen

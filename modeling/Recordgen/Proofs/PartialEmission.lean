import Recordgen.Proofs.PathClashes

/-! # What a failed run leaves behind

A document that cannot be read leaves the store as it is. One that can be read fails at a random
sequence whose headers cannot be rendered; the configuration always can be. Nothing of that sequence
is written then, and all headers of the sequences before it are there (`compile_fails_between`).
-/

namespace Recordgen

open Outcome

namespace Specification

variable {spec : Specification .resolved} {targetNamespace : String}

/-- Only a random sequence can fail. -/
theorem random_of_sequenceHeaders_error {sequence : RecordSequence} {fault : CompileError}
    (failed : spec.sequenceHeaders targetNamespace sequence = .error fault) :
    sequence.kind = .random := by
  cases sort : sequence.kind with
  | random => rfl
  | unsupported element =>
      rw [sequenceHeaders_of_unsupported sort] at failed
      cases failed

/-- The classes in front of a sequence stand elsewhere than the subsystem. -/
theorem avoids_subsystem {before : List RecordSequence} {artifact : Artifact}
    (member : artifact ∈ Artifact.config :: before.flatMap RecordSequence.artifacts) :
    artifact.Avoids Artifact.subsystem.basePath ∧ artifact.Avoids Artifact.subsystem.leafPath := by
  have apart := RecordSequence.not_sharesPaths_subsystem member
  have plain : artifact.IsPlain := by
    rcases List.mem_cons.mp member with rfl | member
    · exact Artifact.isPlain_config
    · obtain ⟨sequence, -, inside⟩ := List.mem_flatMap.mp member
      exact RecordSequence.isPlain_of_mem_artifacts inside
  exact ⟨Artifact.avoids_basePath plain Artifact.isPlain_subsystem apart,
    Artifact.avoids_leafPath plain Artifact.isPlain_subsystem apart⟩

end Specification

/-- **What a failed run leaves behind.** If a document cannot be read, the store is as before.
Otherwise the error is that of a random sequence. The store is as after creating the output
directories and writing the headers of the configuration and of the five classes of each random
sequence in front of that one. Elsewhere nothing has changed, in particular not where the headers of
the subsystem stand. -/
theorem compile_fails_between {store after : MemoryStore} {targetNamespace text : String}
    {fault : CompileError}
    (failed : compileInMemory store targetNamespace text = (.error fault, after)) :
    (readDocument text = .error fault ∧ after = store) ∨
    ∃ spec config before sequence later all,
      readDocument text = .ok spec ∧
      spec.configHeaders targetNamespace = .ok config ∧
      spec.sequences.toList = before ++ sequence :: later ∧
      sequence.kind = .random ∧
      spec.sequenceHeaders targetNamespace sequence = .error fault ∧
      before.mapM (spec.sequenceHeaders targetNamespace) = .ok all ∧
      (config :: all.flatten).map HeaderPair.artifact =
        .config :: before.flatMap RecordSequence.artifacts ∧
      after = memory.emitAll (memory.prepare store) (config :: all.flatten) ∧
      (∀ path, (∀ artifact ∈ Artifact.config :: before.flatMap RecordSequence.artifacts,
        artifact.Avoids path) → after.get? path = store.get? path) ∧
      after.get? Artifact.subsystem.basePath = store.get? Artifact.subsystem.basePath ∧
      after.get? Artifact.subsystem.leafPath = store.get? Artifact.subsystem.leafPath := by
  rw [compileInMemory, ← memory_toSink] at failed
  cases read : readDocument text with
  | error other =>
      rw [TotalSink.run_compileDocument_error _ _ _ read] at failed
      obtain ⟨same, unchanged⟩ := Prod.mk.inj failed
      exact .inl ⟨congrArg Except.error (Except.error.inj same), unchanged.symm⟩
  | ok spec =>
      rw [TotalSink.run_compileDocument _ _ _ read, TotalSink.run_state] at failed
      obtain ⟨ending, state⟩ := Prod.mk.inj failed
      have stopped := Plan.ending_eq_error_iff.mp ending
      obtain ⟨config, rendered⟩ :=
        Specification.exists_configHeaders (linked_of_readDocument read) targetNamespace
      rcases Specification.plan_cases rendered with ⟨all, -, complete, -⟩ |
        ⟨before, sequence, later, all, other, split, rest, blocked, failure, headers⟩
      · rw [complete] at stopped
        cases stopped
      · obtain rfl := Option.some.inj (failure.symm.trans stopped)
        have artifacts : (config :: all.flatten).map HeaderPair.artifact =
            .config :: before.flatMap RecordSequence.artifacts := by
          rw [List.map_cons, Specification.artifact_of_configHeaders rendered,
            Specification.artifacts_of_mapM rest]
        rw [headers] at state
        have frame : ∀ path, (∀ artifact ∈ Artifact.config ::
            before.flatMap RecordSequence.artifacts, artifact.Avoids path) →
            after.get? path = store.get? path := by
          intro path avoid
          rw [← state, TotalSink.get?_emitAll, TotalSink.get?_prepare]
          exact fun pair member => avoid _ (artifacts ▸ List.mem_map_of_mem member)
        exact .inr ⟨spec, config, before, sequence, later, all, rfl, rendered, split,
          Specification.random_of_sequenceHeaders_error blocked, blocked, rest, artifacts,
          state.symm, frame, frame _ fun _ member => (Specification.avoids_subsystem member).1,
          frame _ fun _ member => (Specification.avoids_subsystem member).2⟩

namespace Prototype.Sample

open Markup (Element)

/-- A random sequence with a range over a field that has no setter. -/
def unsetSequence : Element :=
  { name := "random_sequence"
    attributes := [("key", "b")]
    children := [
      { name := "record_type"
        children := [
          { name := "field", attributes := [("name", "x"), ("type", "I32")] },
          { name := "field", attributes := [("name", "y"), ("type", "I32")] }] },
      { name := "setter_chain"
        children := [keyed "setter" "s" "field_setter" [
          link "field" "x",
          nested "value" "clustered_value_provider[I32]" [
            link "probability" "f",
            nested "cardinality" "context_field_range_provider[I32]" [link "field" "y"]]]] },
      { name := "cardinality_estimator"
        attributes := [("type", "const_estimator")]
        children := [literal "cardinality" "I64u" "1"] }] }

/-- A document whose second sequence cannot be rendered. -/
def partialRoot : Element :=
  { name := rootName
    children := [
      { name := "functions"
        children := [keyed "function" "f" "normal_probability" [
          literal "mean" "Decimal" "0", literal "stddev" "Decimal" "1"]] },
      { name := "record_sequences", children := [bareSequence "a", unsetSequence] }] }

/-- The text of the document. -/
def partialText : String :=
  String.ofList partialRoot.print

private theorem parse_partialText : Markup.parse partialText = .ok partialRoot :=
  Markup.Element.parse_print (by decide +kernel)

/-- Whether a specification starts with a bare sequence and has an unset range further on. -/
def stopsLate (spec : Specification .resolved) : Bool :=
  spec.sequences.toList.head?.all RecordSequence.isBare && spec.hasUnsetRange

section

set_option maxRecDepth 100000

private theorem stopsLate_partialRoot :
    (readRoot partialRoot >>= Linking.resolve).toOption.any stopsLate = true := by
  cbv

end

end Prototype.Sample

section

open Prototype.Sample

/-- The sample stops in front of its second sequence, when the first one is written. -/
theorem partialText_fails_between :
    ∃ fault after, compileInMemory {} "Shop" partialText = (.error fault, after) ∧
      ∃ spec config before sequence later all, readDocument partialText = .ok spec ∧
        spec.sequences.toList = before ++ sequence :: later ∧ before ≠ [] ∧
        spec.sequenceHeaders "Shop" sequence = .error fault ∧
        before.mapM (spec.sequenceHeaders "Shop") = .ok all ∧
        after = memory.emitAll (memory.prepare {}) (config :: all.flatten) := by
  have found := stopsLate_partialRoot
  rw [← Prototype.parse_eq_readRoot parse_partialText, Option.any_eq_true] at found
  obtain ⟨spec, some, late⟩ := found
  have read : readDocument partialText = .ok spec := toOption_eq_some_iff.mp some
  obtain ⟨bare, unset⟩ := Bool.and_eq_true_iff.mp late
  have linked := linked_of_readDocument read
  obtain ⟨fault, failure⟩ := (Specification.plan_fails linked "Shop").1.mpr
    (Specification.exists_blocked unset)
  have failed : compileInMemory {} "Shop" partialText =
      (.error fault, (memory.run (spec.plan "Shop") {}).2) := by
    rw [compileInMemory, ← memory_toSink, TotalSink.run_compileDocument _ _ _ read,
      Plan.ending_eq_error_iff.mpr failure]
  refine ⟨fault, _, failed, ?_⟩
  rcases compile_fails_between failed with ⟨unread, -⟩ |
    ⟨other, config, before, sequence, later, all, again, -, split, random, blocked, rest, -, state, -⟩
  · rw [read] at unread
    cases unread
  · obtain rfl := Except.ok.inj (read.symm.trans again)
    refine ⟨spec, config, before, sequence, later, all, read, split, ?_, blocked, rest, state⟩
    rintro rfl
    rw [split] at bare
    have member : sequence ∈ spec.sequences.toList := split ▸ List.mem_cons_self
    rw [Specification.sequenceHeaders_of_random random] at blocked
    exact RecordSequence.not_blocked_of_isBare bare
      ((RecordContext.headers_fails linked member random).fails.mp ⟨fault, blocked⟩)

end

end Recordgen

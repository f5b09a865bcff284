import Recordgen.Proofs.EmittedFiles
import Recordgen.Proofs.PlannedHeaders

/-! # When two classes share their paths

The keys of sequences differ, but their classes may not: `order_item` and `OrderItem` give rise to the
same names, and the record of `order_meta` is named like the meta class of `order`. Two random
sequences are apart when neither happens (`RecordSequence.Apart`). Exactly then no two classes of a
document share their paths, and every header is found where it was written
(`compile_paths_nodup_iff`).
-/

namespace Recordgen

open Outcome

/-- Texts with ends of one length are cut in the same place. -/
theorem append_inj_of_length {first second start finish : String}
    (length : start.toList.length = finish.toList.length)
    (same : first ++ start = second ++ finish) : first = second ∧ start = finish := by
  have chars := congrArg String.toList same
  rw [String.toList_append, String.toList_append] at chars
  obtain ⟨outer, inner⟩ := List.append_inj' chars length
  exact ⟨String.toList_inj.mp outer, String.toList_inj.mp inner⟩

namespace Artifact

/-- The paths of the two headers of a class. -/
def paths (artifact : Artifact) : List (List String) :=
  [Path.parts artifact.basePath, Path.parts artifact.leafPath]

private theorem disjoint_paths_iff {artifact other : Artifact} (plain : artifact.IsPlain)
    (alsoPlain : other.IsPlain) :
    artifact.paths.Disjoint other.paths ↔ ¬artifact.SharesPaths other := by
  constructor
  · intro disjoint shares
    exact disjoint List.mem_cons_self
      (congrArg Path.parts shares.basePath_eq ▸ List.mem_cons_self)
  · intro apart path member alsoMember
    obtain ⟨base, leaf⟩ := avoids_basePath plain alsoPlain apart
    obtain ⟨alsoBase, alsoLeaf⟩ := avoids_leafPath plain alsoPlain apart
    simp only [paths, List.mem_cons, List.not_mem_nil, or_false] at member alsoMember
    rcases member with rfl | rfl <;> rcases alsoMember with same | same
    · exact base same.symm
    · exact alsoBase same.symm
    · exact leaf same.symm
    · exact alsoLeaf same.symm

variable {artifacts : List Artifact}

/-- The paths of all headers differ exactly when no two classes share their paths. -/
theorem nodup_paths_iff (plain : ∀ artifact ∈ artifacts, artifact.IsPlain) :
    (artifacts.flatMap paths).Nodup ↔
      artifacts.Pairwise fun artifact other => ¬artifact.SharesPaths other := by
  have each : ∀ artifact ∈ artifacts, artifact.paths.Nodup := by
    intro artifact member
    have apart := base_ne_leaf (plain artifact member) (plain artifact member)
    simpa [paths] using apart
  rw [List.nodup_flatMap, and_iff_right each]
  refine List.Pairwise.iff_of_mem fun {artifact other} member alsoMember => ?_
  exact disjoint_paths_iff (plain artifact member) (plain other alsoMember)

/-- Already the paths of the base headers differ only then. -/
theorem nodup_basePath_iff (plain : ∀ artifact ∈ artifacts, artifact.IsPlain) :
    (artifacts.map basePath).Nodup ↔
      artifacts.Pairwise fun artifact other => ¬artifact.SharesPaths other := by
  rw [List.Nodup, List.pairwise_map]
  refine List.Pairwise.iff_of_mem fun {artifact other} member alsoMember => not_congr ?_
  constructor
  · intro same
    exact (parts_basePath_eq_iff (plain artifact member) (plain other alsoMember)).mp
      (congrArg Path.parts same)
  · exact SharesPaths.basePath_eq

end Artifact

namespace ArtifactKind

theorem suffix_of_directory : ∀ kind ∈ ofSequence, ∀ other ∈ ofSequence,
    kind.directory = other.directory →
      kind.suffix.toList.length = other.suffix.toList.length ∨
        kind.suffix = "" ∧ other.suffix ∈ ["", "Meta", "Util"] ∨
        other.suffix = "" ∧ kind.suffix ∈ ["", "Meta", "Util"] := by
  decide

private theorem pairwise_ofSequence : ofSequence.Pairwise fun kind other =>
    kind.directory = other.directory → kind.suffix ≠ other.suffix := by
  decide

end ArtifactKind

namespace RecordSequence

/-- Keys whose records are neither named alike nor like each other's meta class or traits. -/
def KeysApart (key other : String) : Prop :=
  ∀ suffix ∈ ["", "Meta", "Util"],
    Naming.upperCamel key ≠ Naming.upperCamel other ++ suffix ∧
      Naming.upperCamel other ≠ Naming.upperCamel key ++ suffix

instance (key other : String) : Decidable (KeysApart key other) :=
  inferInstanceAs (Decidable (∀ suffix ∈ _, _))

/-- Random sequences have keys that are apart. -/
def Apart (sequence other : RecordSequence) : Prop :=
  sequence.kind = .random → other.kind = .random → KeysApart sequence.key other.key

variable {sequence other : RecordSequence} {artifact : Artifact}

private theorem pairwise_artifacts (sequence : RecordSequence) :
    sequence.artifacts.Pairwise fun artifact other => ¬artifact.SharesPaths other := by
  cases sort : sequence.kind with
  | unsupported element =>
      rw [artifacts, sort]
      exact List.Pairwise.nil
  | random =>
      rw [artifacts_of_random sort, List.pairwise_map]
      refine ArtifactKind.pairwise_ofSequence.imp fun {kind other} distinct shares => ?_
      exact distinct shares.1 (String.append_right_inj _ |>.mp shares.2)

/-- **Two sequences** are apart exactly when no class of one shares its paths with a class of the
other. -/
theorem apart_iff : sequence.Apart other ↔
    ∀ artifact ∈ sequence.artifacts, ∀ another ∈ other.artifacts,
      ¬artifact.SharesPaths another := by
  constructor
  · intro apart artifact member another alsoMember shares
    obtain ⟨random, kind, listed, rfl⟩ := mem_artifacts.mp member
    obtain ⟨alsoRandom, otherKind, alsoListed, rfl⟩ := mem_artifacts.mp alsoMember
    have names := apart random alsoRandom
    obtain ⟨directory, name⟩ := shares
    dsimp only [Artifact.ofRecord] at directory name
    rcases ArtifactKind.suffix_of_directory kind listed otherKind alsoListed directory with
      length | ⟨empty, suffix⟩ | ⟨empty, suffix⟩
    · have same := (append_inj_of_length length name).1
      exact (names "" List.mem_cons_self).1 (by rw [same, String.append_empty])
    · rw [empty, String.append_empty] at name
      exact (names _ suffix).1 name
    · rw [empty, String.append_empty] at name
      exact (names _ suffix).2 name.symm
  · intro distinct random alsoRandom suffix listed
    have some : ∀ suffix ∈ ["", "Meta", "Util"], ∃ kind ∈ ArtifactKind.ofSequence,
        kind.directory = ArtifactKind.record.directory ∧ kind.suffix = suffix := by
      decide
    obtain ⟨kind, member, directory, rfl⟩ := some suffix listed
    have record : ArtifactKind.record ∈ ArtifactKind.ofSequence := by decide
    constructor
    · intro same
      refine distinct _ (mem_artifacts.mpr ⟨random, .record, record, rfl⟩)
        _ (mem_artifacts.mpr ⟨alsoRandom, kind, member, rfl⟩) ⟨directory.symm, ?_⟩
      exact (String.append_empty).trans same
    · intro same
      refine distinct _ (mem_artifacts.mpr ⟨random, kind, member, rfl⟩)
        _ (mem_artifacts.mpr ⟨alsoRandom, .record, record, rfl⟩) ⟨directory, ?_⟩
      exact same.symm.trans (String.append_empty).symm

private theorem config_not_sharesPaths (member : artifact ∈ sequence.artifacts) :
    ¬Artifact.config.SharesPaths artifact := by
  obtain ⟨-, kind, listed, rfl⟩ := mem_artifacts.mp member
  have elsewhere : ∀ kind ∈ ArtifactKind.ofSequence,
      ArtifactKind.config.directory ≠ kind.directory := by
    decide
  exact fun shares => elsewhere kind listed shares.1

/-- The subsystem header shares its path with no other artifact. -/
theorem not_sharesPaths_subsystem {sequences : List RecordSequence}
    (member : artifact ∈ Artifact.config :: sequences.flatMap artifacts) :
    ¬artifact.SharesPaths .subsystem := by
  rcases List.mem_cons.mp member with rfl | member
  · exact fun shares => absurd shares.1 (by decide)
  obtain ⟨sequence, -, inside⟩ := List.mem_flatMap.mp member
  obtain ⟨-, kind, listed, rfl⟩ := mem_artifacts.mp inside
  have sole : ∀ kind ∈ ArtifactKind.ofSequence,
      kind.directory = ArtifactKind.subsystem.directory → kind.suffix = "Generator" := by
    decide
  rintro ⟨directory, name⟩
  -- Both names end in nine letters behind what could be a record's name, but not in the same ones.
  have ends : Naming.upperCamel sequence.key ++ kind.suffix = "Generator" ++ "Subsystem" := name
  rw [sole kind listed directory] at ends
  exact absurd (append_inj_of_length (by decide) ends).2 (by decide)

end RecordSequence

namespace Specification

/-- **Specifications.** No two classes share their paths exactly when the sequences are apart. -/
theorem pairwise_artifacts_iff {phase : Phase} (spec : Specification phase) :
    (spec.artifacts.Pairwise fun artifact other => ¬artifact.SharesPaths other) ↔
      spec.sequences.toList.Pairwise RecordSequence.Apart := by
  have inner : (spec.sequences.toList.flatMap RecordSequence.artifacts).Pairwise
      (fun artifact other => ¬artifact.SharesPaths other) ↔
        spec.sequences.toList.Pairwise RecordSequence.Apart := by
    rw [List.pairwise_flatMap,
      and_iff_right fun sequence _ => RecordSequence.pairwise_artifacts sequence]
    exact List.Pairwise.iff fun _ _ => RecordSequence.apart_iff.symm
  rw [artifacts, List.pairwise_append, List.pairwise_cons, inner]
  constructor
  · exact fun apart => apart.1.2
  · intro apart
    refine ⟨⟨?_, apart⟩, List.pairwise_singleton _ _, ?_⟩
    · intro artifact member
      obtain ⟨sequence, -, listed⟩ := List.mem_flatMap.mp member
      exact RecordSequence.config_not_sharesPaths listed
    · intro artifact member other last
      obtain rfl := List.mem_singleton.mp last
      exact RecordSequence.not_sharesPaths_subsystem member

end Specification

/-- What a document that was compiled has led to. -/
theorem exists_plan_of_compiled {store after : MemoryStore} {targetNamespace text : String}
    {report : Report} (compiled : compileInMemory store targetNamespace text = (.ok report, after)) :
    ∃ spec, readDocument text = .ok spec ∧
      (spec.plan targetNamespace).headers.map HeaderPair.artifact = spec.artifacts ∧
      report.baseWritten = spec.artifacts.map Artifact.basePath ∧
      after = memory.emitAll (memory.prepare store) (spec.plan targetNamespace).headers := by
  obtain ⟨spec, read, complete, ran⟩ := exists_complete_of_compiled compiled
  have headers := (Specification.artifacts_plan (linked_of_readDocument read)).2 complete
  have reported : (memory.run (spec.plan targetNamespace) store).1 = report :=
    congrArg Prod.fst ran
  have state : (memory.run (spec.plan targetNamespace) store).2 = after := congrArg Prod.snd ran
  refine ⟨spec, read, headers, ?_, state.symm.trans (memory.run_state _ store)⟩
  rw [← reported, TotalSink.run_baseWritten, ← headers, List.map_map]
  rfl

/-- **When headers are lost.** A document that is compiled has the headers of its classes at different
paths, and its base headers reported at different paths, exactly when its random sequences are apart.
Then the store holds every base header as it was rendered, and every leaf header that had a free path
before. -/
theorem compile_paths_nodup_iff {store after : MemoryStore} {targetNamespace text : String}
    {report : Report} (compiled : compileInMemory store targetNamespace text = (.ok report, after)) :
    ∃ spec, readDocument text = .ok spec ∧
      (spec.plan targetNamespace).headers.map HeaderPair.artifact = spec.artifacts ∧
      report.baseWritten = spec.artifacts.map Artifact.basePath ∧
      ((spec.artifacts.flatMap Artifact.paths).Nodup ↔
        spec.sequences.toList.Pairwise RecordSequence.Apart) ∧
      (report.baseWritten.Nodup ↔ spec.sequences.toList.Pairwise RecordSequence.Apart) ∧
      (spec.sequences.toList.Pairwise RecordSequence.Apart →
        ∀ pair ∈ (spec.plan targetNamespace).headers, pair.Stands store after) := by
  obtain ⟨spec, read, headers, written, rfl⟩ := exists_plan_of_compiled compiled
  have plain : ∀ artifact ∈ spec.artifacts, artifact.IsPlain :=
    fun _ => Specification.isPlain_of_mem_artifacts
  have apart := spec.pairwise_artifacts_iff
  refine ⟨spec, read, headers, written, (Artifact.nodup_paths_iff plain).trans apart, ?_, ?_⟩
  · rw [written]
    exact (Artifact.nodup_basePath_iff plain).trans apart
  · intro distinct pair member
    have plainPairs : ∀ pair ∈ (spec.plan targetNamespace).headers, pair.artifact.IsPlain :=
      fun pair member => plain _ (headers ▸ List.mem_map_of_mem member)
    have apartPairs := apart.mpr distinct
    rw [← headers, List.pairwise_map] at apartPairs
    exact TotalSink.stands_prepare store (plainPairs pair member)
      (TotalSink.stands_emitAll _ plainPairs apartPairs pair member)

namespace RecordSequence

variable {sequence : RecordSequence}

/-- Whether a sequence is random, without an output format and without setters. -/
def isBare (sequence : RecordSequence) : Bool :=
  sequence.kind == .random && sequence.outputFormat.isNone && sequence.setters.isEmpty

theorem random_of_isBare (bare : sequence.isBare = true) : sequence.kind = .random := by
  rw [isBare, Bool.and_eq_true_iff, Bool.and_eq_true_iff] at bare
  exact beq_iff_eq.mp bare.1.1

/-- Nothing in a bare sequence can keep its headers from being rendered. -/
theorem not_blocked_of_isBare {spec : Specification .resolved} (bare : sequence.isBare = true) :
    ¬spec.Blocked sequence := by
  rw [isBare, Bool.and_eq_true_iff, Bool.and_eq_true_iff, Option.isNone_iff_eq_none,
    List.isEmpty_iff] at bare
  obtain ⟨⟨-, format⟩, setters⟩ := bare
  have chain : spec.chain sequence = [] := by
    rw [Specification.chain, setters]
    rfl
  intro blocked
  cases blocked with
  | format id listed bad =>
      rw [format] at listed
      cases listed
  | callback id inside bad =>
      rw [chain] at inside
      cases inside
  | conflict conflict =>
      obtain ⟨first, inside, -⟩ := conflict
      rw [chain] at inside
      cases inside
  | range id inside bad =>
      rw [chain] at inside
      cases inside

end RecordSequence

namespace Prototype.Sample

open Markup (Element)

variable {spec : Specification .resolved} {keys : List String}

/-- A random sequence without fields. -/
def bareSequence (key : String) : Element :=
  { name := "random_sequence"
    attributes := [("key", key)]
    children := [
      { name := "record_type" },
      { name := "cardinality_estimator"
        attributes := [("type", "const_estimator")]
        children := [literal "cardinality" "I64u" "1"] }] }

/-- A document with such sequences. -/
def bareRoot (keys : List String) : Element :=
  { name := rootName
    children := [{ name := "record_sequences", children := keys.map bareSequence }] }

/-- The text of the document. -/
def bareText (keys : List String) : String :=
  String.ofList (bareRoot keys).print

/-- The keys of a specification, if all its sequences are bare. -/
def bareKeys (spec : Specification .resolved) : Option (List String) :=
  if spec.sequences.toList.all RecordSequence.isBare then
    some (spec.sequences.toList.map RecordSequence.key)
  else none

/-- The keys are listed exactly if every sequence is bare. -/
theorem bareKeys_eq_some_iff :
    bareKeys spec = some keys ↔ (∀ sequence ∈ spec.sequences.toList, sequence.isBare = true) ∧
      spec.sequences.toList.map RecordSequence.key = keys := by
  rw [bareKeys, Option.ite_none_right_eq_some, Option.some.injEq, List.all_eq_true]

/-- A document with bare sequences is compiled, whatever their keys. -/
theorem exists_bareKeys_compiled (parsed : Markup.parse (bareText keys) = .ok (bareRoot keys))
    (found : (readRoot (bareRoot keys) >>= Linking.resolve).toOption.bind bareKeys = some keys)
    (store : MemoryStore) (targetNamespace : String) :
    ∃ spec report after, readDocument (bareText keys) = .ok spec ∧ bareKeys spec = some keys ∧
      compileInMemory store targetNamespace (bareText keys) = (.ok report, after) := by
  obtain ⟨found, some, listed⟩ := Option.bind_eq_some_iff.mp found
  have checked : (readRoot (bareRoot keys) >>= Linking.resolve).toOption.any
      (fun spec => bareKeys spec == .some keys) = true := by
    rw [some, Option.any_some, listed, beq_self_eq_true]
  obtain ⟨spec, report, after, read, listed, -, compiled⟩ := exists_compiled_of_unblocked parsed
    checked (fun spec listed _ sequence member => RecordSequence.not_blocked_of_isBare
      ((bareKeys_eq_some_iff.mp (beq_iff_eq.mp listed)).1 sequence member)) store targetNamespace
  exact ⟨spec, report, after, read, beq_iff_eq.mp listed, compiled⟩

private theorem apart_iff_of_bareKeys (found : bareKeys spec = some keys) :
    spec.sequences.toList.Pairwise RecordSequence.Apart ↔
      keys.Pairwise RecordSequence.KeysApart := by
  obtain ⟨bare, rfl⟩ := bareKeys_eq_some_iff.mp found
  rw [List.pairwise_map]
  refine List.Pairwise.iff_of_mem fun {sequence other} member alsoMember => ?_
  rw [RecordSequence.Apart, imp_iff_right (RecordSequence.random_of_isBare (bare _ member)),
    imp_iff_right (RecordSequence.random_of_isBare (bare _ alsoMember))]

private theorem exists_compiled (parsed : Markup.parse (bareText keys) = .ok (bareRoot keys))
    (found : (readRoot (bareRoot keys) >>= Linking.resolve).toOption.bind bareKeys = some keys)
    (store : MemoryStore) (targetNamespace : String) :
    ∃ spec report after, readDocument (bareText keys) = .ok spec ∧
      (spec.sequences.toList.Pairwise RecordSequence.Apart ↔
        keys.Pairwise RecordSequence.KeysApart) ∧
      compileInMemory store targetNamespace (bareText keys) = (.ok report, after) := by
  obtain ⟨spec, report, after, read, bare, compiled⟩ :=
    exists_bareKeys_compiled parsed found store targetNamespace
  exact ⟨spec, report, after, read, apart_iff_of_bareKeys bare, compiled⟩

section

set_option maxRecDepth 100000

theorem exists_compiled_clashing :
    ∃ spec report after, readDocument (bareText ["a", "A"]) = .ok spec ∧
      (spec.sequences.toList.Pairwise RecordSequence.Apart ↔
        ["a", "A"].Pairwise RecordSequence.KeysApart) ∧
      compileInMemory {} "Shop" (bareText ["a", "A"]) = (.ok report, after) := by
  refine exists_compiled ?_ ?_ {} "Shop"
  · rw [Markup.parse, Markup.scan, bareText, String.toList_ofList]
    rfl
  · cbv

theorem exists_orders_and_items :
    ∃ spec report after, readDocument (bareText ["order", "item"]) = .ok spec ∧
      bareKeys spec = some ["order", "item"] ∧
      compileInMemory {} "Shop" (bareText ["order", "item"]) = (.ok report, after) := by
  refine exists_bareKeys_compiled ?_ ?_ {} "Shop"
  · rw [Markup.parse, Markup.scan, bareText, String.toList_ofList]
    rfl
  · cbv

private theorem exists_compiled_apart :
    ∃ spec report after, readDocument (bareText ["order", "item"]) = .ok spec ∧
      (spec.sequences.toList.Pairwise RecordSequence.Apart ↔
        ["order", "item"].Pairwise RecordSequence.KeysApart) ∧
      compileInMemory {} "Shop" (bareText ["order", "item"]) = (.ok report, after) := by
  obtain ⟨spec, report, after, read, found, compiled⟩ := exists_orders_and_items
  exact ⟨spec, report, after, read, apart_iff_of_bareKeys found, compiled⟩

end

end Prototype.Sample

section

open Prototype.Sample

/-- Sequences for orders and items lose nothing. -/
theorem orders_and_items_stand :
    ∃ spec report after, readDocument (bareText ["order", "item"]) = .ok spec ∧
      compileInMemory {} "Shop" (bareText ["order", "item"]) = (.ok report, after) ∧
      report.baseWritten.Nodup ∧ ∀ pair ∈ (spec.plan "Shop").headers, pair.Stands {} after := by
  obtain ⟨spec, report, after, read, apart, compiled⟩ := exists_compiled_apart
  obtain ⟨other, again, -, -, -, reported, stands⟩ := compile_paths_nodup_iff compiled
  obtain rfl := Except.ok.inj (read.symm.trans again)
  have distinct := apart.mpr (by decide)
  exact ⟨spec, report, after, read, compiled, reported.mpr distinct, stands distinct⟩

/-- The keys `a` and `A` differ, but their classes share all their paths. -/
theorem clashing_keys_repeat_paths :
    ∃ spec report after, readDocument (bareText ["a", "A"]) = .ok spec ∧
      compileInMemory {} "Shop" (bareText ["a", "A"]) = (.ok report, after) ∧
      ¬(spec.artifacts.flatMap Artifact.paths).Nodup ∧ ¬report.baseWritten.Nodup := by
  obtain ⟨spec, report, after, read, apart, compiled⟩ := exists_compiled_clashing
  obtain ⟨other, again, -, written, -⟩ := exists_plan_of_compiled compiled
  obtain rfl := Except.ok.inj (read.symm.trans again)
  have plain : ∀ artifact ∈ spec.artifacts, artifact.IsPlain :=
    fun _ => Specification.isPlain_of_mem_artifacts
  have clash : ¬spec.artifacts.Pairwise fun artifact other => ¬artifact.SharesPaths other := by
    rw [spec.pairwise_artifacts_iff, apart]
    decide
  refine ⟨spec, report, after, read, compiled, ?_, ?_⟩
  · rwa [Artifact.nodup_paths_iff plain]
  · rwa [written, Artifact.nodup_basePath_iff plain]

end

end Recordgen

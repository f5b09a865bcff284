import Recordgen.Proofs.LinkTargets
import Recordgen.Proofs.PathClashes

/-! # The generated headers that base headers include

A base header includes leaf headers of the document's own classes. There is one exception: a setter
chain also includes the traits and the generator of every record that it refers to, and a sequence of
an unsupported kind can be referred to although it has no classes
(`Specification.RefersBeyond`). An included leaf header of a class is there after a run unless a
directory stood in its place, and any other included path is there only if it was there before
(`compile_localIncludes`).
-/

namespace Recordgen

open Outcome

variable {spec : Specification .resolved}

namespace TotalSink

variable {store : MemoryStore} {artifact : Artifact} {pair : HeaderPair} {pairs : List HeaderPair}

private theorem plain_leafPath_mem_emit (plain : pair.artifact.IsPlain)
    (alsoPlain : artifact.IsPlain) :
    Path.plain artifact.leafPath ∈ (memory.emit store pair).directories ↔
      Path.plain artifact.leafPath ∈ store.directories := by
  have outside : ∀ store : MemoryStore, ∀ contents,
      (Path.plain artifact.leafPath ∈ (store.write pair.artifact.basePath contents).directories ↔
        Path.plain artifact.leafPath ∈ store.directories) ∧
      (Path.plain artifact.leafPath ∈ (store.write pair.artifact.leafPath contents).directories ↔
        Path.plain artifact.leafPath ∈ store.directories) := by
    intro store contents
    rw [MemoryStore.mem_directories_write, MemoryStore.mem_directories_write,
      Artifact.parent?_basePath plain, Artifact.parent?_leafPath plain]
    constructor
    · apply or_iff_left
      rintro ⟨parent, ⟨⟩, above⟩
      refine Artifact.plain_leafPath_notMem alsoPlain ?_ above
      cases pair.artifact.kind <;> decide
    · apply or_iff_left
      rintro ⟨parent, ⟨⟩, above⟩
      refine Artifact.plain_leafPath_notMem alsoPlain ?_ above
      cases pair.artifact.kind <;> decide
  rw [emit]
  split
  · exact (outside store _).1
  · exact ((outside _ _).2).trans (outside store _).1

/-- One class adds a file at the leaf path of another only if the two share their paths and the path
is no directory. -/
theorem isSome_get?_emit (plain : pair.artifact.IsPlain) (alsoPlain : artifact.IsPlain) :
    ((memory.emit store pair).get? artifact.leafPath).isSome ↔
      (store.get? artifact.leafPath).isSome ∨
        pair.artifact.leafPath = artifact.leafPath ∧
          Path.plain artifact.leafPath ∉ store.directories := by
  by_cases shares : pair.artifact.SharesPaths artifact
  · have same := shares.leafPath_eq
    have leaf := (stands_emit store plain).leaf
    rw [same] at leaf
    rw [leaf, and_iff_right same]
    cases present : store.contains artifact.leafPath with
    | true =>
        rw [MemoryStore.contains, Bool.or_eq_true, List.contains_iff_mem] at present
        simp only [if_true]
        constructor
        · exact Or.inl
        · rintro (file | free)
          · exact file
          · exact present.resolve_right free
    | false =>
        rw [MemoryStore.contains, Bool.or_eq_false_iff] at present
        refine iff_of_true rfl (.inr ?_)
        rw [← List.contains_iff_mem, present.2]
        exact Bool.false_ne_true
  · have different : pair.artifact.leafPath ≠ artifact.leafPath := fun same =>
      shares ((Artifact.parts_leafPath_eq_iff plain alsoPlain).mp (congrArg Path.parts same))
    rw [get?_emit store (Artifact.avoids_leafPath plain alsoPlain shares)]
    simp [different]

/-- **Leaf headers.** After a run there is a file at the leaf path of a class if there was one before,
or if the class was emitted and its path is no directory. -/
theorem isSome_get?_emitAll (plain : ∀ pair ∈ pairs, pair.artifact.IsPlain)
    (alsoPlain : artifact.IsPlain) :
    ((memory.emitAll store pairs).get? artifact.leafPath).isSome ↔
      (store.get? artifact.leafPath).isSome ∨
        (∃ pair ∈ pairs, pair.artifact.leafPath = artifact.leafPath) ∧
          Path.plain artifact.leafPath ∉ store.directories := by
  rw [emitAll]
  induction pairs generalizing store with
  | nil => simp
  | cons pair pairs ih =>
      obtain ⟨here, later⟩ := List.forall_mem_cons.mp plain
      rw [List.foldl_cons, ih later, isSome_get?_emit here alsoPlain,
        plain_leafPath_mem_emit here alsoPlain, List.exists_mem_cons_iff, or_assoc, or_and_right]

private theorem plain_leafPath_mem_prepare (plain : artifact.IsPlain) :
    Path.plain artifact.leafPath ∈ (memory.prepare store).directories ↔
      Path.plain artifact.leafPath ∈ store.directories := by
  have outside := leafPath_outside plain
  rw [prepare]
  generalize outputDirectories = directories at outside ⊢
  induction directories generalizing store with
  | nil => rfl
  | cons directory directories ih =>
      obtain ⟨here, later⟩ := List.forall_mem_cons.mp outside
      have next : memory.ensureDirectory store directory = store.ensureDirectory directory := rfl
      rw [List.foldl_cons]
      refine (ih later).trans ?_
      rw [next, MemoryStore.mem_directories_ensureDirectory, or_iff_left here]

end TotalSink

namespace Specification

/-- The path is that of the traits or the generator of a sequence of an unsupported kind, and a member
of the setter chain that the artifact stands for refers to records of that sequence. -/
def RefersBeyond (spec : Specification .resolved) (artifact : Artifact) (path : String) : Prop :=
  ∃ sequence ∈ spec.sequences.toList, sequence.kind = .random ∧
    artifact = .ofRecord .setterChain sequence.key ∧
    ∃ id ∈ spec.chain sequence, ∃ link : ReferenceLink,
      (spec.component id).argument? "reference" = some (@Argument.referenceRef .resolved link) ∧
      ∃ target ∈ spec.sequences.toList, target.id = (spec.reference link.reference).target ∧
        target.kind ≠ .random ∧ ∃ kind ∈ [ArtifactKind.util, .generator],
          path = (Artifact.ofRecord kind target.key).leafPath

end Specification

namespace RecordContext

variable {context : RecordContext} {pair : HeaderPair}

private theorem mem_memberIncludes {id : ComponentId} {path : String} :
    path ∈ context.memberIncludes id ↔ ∃ link : ReferenceLink,
      (context.spec.component id).argument? "reference" =
          some (@Argument.referenceRef .resolved link) ∧
        ∃ kind ∈ [ArtifactKind.util, .generator], path = (Artifact.ofRecord kind
          (context.spec.sequence (context.spec.reference link.reference).target).key).leafPath := by
  unfold memberIncludes
  cases (context.spec.component id).argument? "reference" with
  | none => simp
  | some argument => cases argument <;> simp [Argument.referenceRef?]

private theorem localIncludes_of_chainHeaders {names : ChainNames}
    (rendered : context.chainHeaders names = .ok pair) :
    pair.base.localIncludes = [Artifact.config.leafPath, (context.artifact .util).leafPath] ++
      names.postOrder.flatMap context.memberIncludes := by
  obtain ⟨_, -, rendered⟩ := bind_eq_ok_iff.mp rendered
  obtain ⟨_, -, rendered⟩ := bind_eq_ok_iff.mp rendered
  obtain ⟨_, -, rfl⟩ := bind_pure_eq_ok_iff.mp rendered
  rfl

/-- What the base headers of a sequence include: the configuration, classes of the same sequence and
what the members of the chain ask for. -/
theorem localIncludes_of_headers {pairs : List HeaderPair}
    (rendered : context.headers = .ok pairs) :
    ∀ pair ∈ pairs, ∀ path ∈ pair.base.localIncludes,
      path = Artifact.config.leafPath ∨
        (∃ kind ∈ ArtifactKind.ofSequence, path = (context.artifact kind).leafPath) ∨
        pair.artifact = context.artifact .setterChain ∧
          ∃ id ∈ (ChainNames.assign context.spec context.sequence).postOrder,
            path ∈ context.memberIncludes id := by
  obtain ⟨metaPair, record, chain, generator, metaRendered, recordRendered, chainRendered,
    generatorRendered, rfl⟩ := parts_of_headers rendered
  have own : ∀ kind ∈ ArtifactKind.ofSequence, ∀ path, path = (context.artifact kind).leafPath →
      ∃ kind ∈ ArtifactKind.ofSequence, path = (context.artifact kind).leafPath :=
    fun kind listed _ same => ⟨kind, listed, same⟩
  intro pair member path included
  simp only [List.mem_cons, List.not_mem_nil, or_false] at member
  rcases member with rfl | rfl | rfl | rfl | rfl
  · obtain ⟨_, -, rfl⟩ := bind_pure_eq_ok_iff.mp metaRendered
    cases included
  · obtain ⟨_, -, rfl⟩ := bind_pure_eq_ok_iff.mp recordRendered
    exact .inr (.inl (own .recordMeta (by decide) path (List.mem_singleton.mp included)))
  · exact .inr (.inl (own .record (by decide) path (List.mem_singleton.mp included)))
  · rw [localIncludes_of_chainHeaders chainRendered, List.mem_append, List.mem_flatMap] at included
    rcases included with common | asked
    · rcases List.mem_cons.mp common with config | util
      · exact .inl config
      · exact .inr (.inl (own .util (by decide) path (List.mem_singleton.mp util)))
    · exact .inr (.inr ⟨artifact_of_chainHeaders chainRendered, asked⟩)
  · obtain ⟨_, -, generatorRendered⟩ := bind_eq_ok_iff.mp generatorRendered
    obtain ⟨_, -, generatorRendered⟩ := bind_eq_ok_iff.mp generatorRendered
    obtain ⟨_, -, rfl⟩ := bind_pure_eq_ok_iff.mp generatorRendered
    simp only [List.mem_cons, List.not_mem_nil, or_false] at included
    rcases included with config | util | chain
    · exact .inl config
    · exact .inr (.inl (own .util (by decide) path util))
    · exact .inr (.inl (own .setterChain (by decide) path chain))

end RecordContext

namespace Specification

variable {spec : Specification .resolved} {targetNamespace : String} {sequence : RecordSequence}

private theorem mem_artifacts_of_random (member : sequence ∈ spec.sequences.toList)
    (random : sequence.kind = .random) {kind : ArtifactKind}
    (listed : kind ∈ ArtifactKind.ofSequence) :
    Artifact.ofRecord kind sequence.key ∈ spec.artifacts := by
  have own := RecordSequence.mem_artifacts.mpr ⟨random, kind, listed, rfl⟩
  rw [artifacts, List.cons_append]
  exact List.mem_cons_of_mem _ (List.mem_append_left _ (List.mem_flatMap.mpr ⟨_, member, own⟩))

private theorem config_mem_artifacts : Artifact.config ∈ spec.artifacts :=
  List.mem_cons_self

private theorem configHeaders_localIncludes {config : HeaderPair}
    (rendered : spec.configHeaders targetNamespace = .ok config) :
    config.base.localIncludes = [] := by
  obtain ⟨_, -, rendered⟩ := bind_eq_ok_iff.mp rendered
  obtain ⟨_, -, rfl⟩ := bind_pure_eq_ok_iff.mp rendered
  rfl

/-- The reference links of the components lead to sequences of the specification. -/
def TargetsKnown (spec : Specification .resolved) : Prop :=
  ∀ component ∈ spec.components.toList, ∀ (key : String) (link : ReferenceLink),
    component.argument? key = some (@Argument.referenceRef .resolved link) →
      ∃ target ∈ spec.sequences.toList, target.id = (spec.reference link.reference).target

/-- What a base header of a sequence includes is the leaf header of a class, or belongs to a record
without classes. -/
theorem localIncludes_of_sequence (linked : spec.Linked) (known : spec.TargetsKnown)
    (member : sequence ∈ spec.sequences.toList) (sort : sequence.kind = .random)
    {pairs : List HeaderPair}
    (rendered : RecordContext.headers ⟨spec, sequence, targetNamespace⟩ = .ok pairs) :
    ∀ pair ∈ pairs, ∀ path ∈ pair.base.localIncludes,
      path ∈ spec.artifacts.map Artifact.leafPath ∨ spec.RefersBeyond pair.artifact path := by
  intro pair inside path included
  rcases RecordContext.localIncludes_of_headers rendered pair inside path included with
    rfl | ⟨kind, listed, rfl⟩ | ⟨named, id, left, asked⟩
  · exact .inl (List.mem_map_of_mem config_mem_artifacts)
  · exact .inl (List.mem_map_of_mem (mem_artifacts_of_random member sort listed))
  · have chained := (ChainNames.postOrder_perm linked.wellFormed member).mem_iff.mp left
    obtain ⟨link, held, kind, listed, rfl⟩ := RecordContext.mem_memberIncludes.mp asked
    obtain ⟨present, -⟩ := linked.wellFormed.chain_member member chained
    obtain ⟨target, there, led⟩ := known _ present _ link held
    have found : spec.sequence (spec.reference link.reference).target = target := by
      rw [← led, linked.wellFormed.sequence_id there]
    rw [found]
    -- Only a random target has the two classes.
    by_cases random : target.kind = .random
    · left
      apply List.mem_map_of_mem
      apply mem_artifacts_of_random there random
      have both : [ArtifactKind.util, .generator] ⊆ ArtifactKind.ofSequence := by decide
      exact both listed
    · exact .inr ⟨sequence, member, sort, named, id, chained, link, held, target, there, led,
        random, kind, listed, rfl⟩

private theorem localIncludes_of_subsystem {path : String}
    (included : path ∈
      (subsystemHeaders spec.sequences.toList targetNamespace).base.localIncludes) :
    path ∈ spec.artifacts.map Artifact.leafPath := by
  rcases List.mem_cons.mp included with rfl | registered
  · exact List.mem_map_of_mem config_mem_artifacts
  · obtain ⟨sequence, listed, rfl⟩ := List.mem_map.mp registered
    obtain ⟨member, random⟩ := List.mem_filter.mp listed
    apply List.mem_map_of_mem
    exact mem_artifacts_of_random member (beq_iff_eq.mp random) (by decide)

/-- **What a plan includes.** Every generated header that a base header includes is the leaf header of
a class, or belongs to a record without classes. -/
theorem localIncludes_of_plan (linked : spec.Linked) (known : spec.TargetsKnown) :
    ∀ pair ∈ (spec.plan targetNamespace).headers, ∀ path ∈ pair.base.localIncludes,
      path ∈ spec.artifacts.map Artifact.leafPath ∨ spec.RefersBeyond pair.artifact path := by
  intro pair listed path included
  rcases mem_headers_cases linked listed with
    rendered | ⟨sequence, member, random, pairs, here, inside⟩ | rfl
  · rw [configHeaders_localIncludes rendered] at included
    cases included
  · exact localIncludes_of_sequence linked known member random here pair inside path included
  · exact .inl (localIncludes_of_subsystem included)

end Specification

private theorem targetsKnown_of_readDocument {text : String} (read : readDocument text = .ok spec) :
    spec.TargetsKnown := by
  obtain ⟨raw, parsed, resolved⟩ := bind_eq_ok_iff.mp read
  obtain ⟨⟨_, summary⟩, ran, rfl⟩ := map_eq_ok_iff.mp resolved
  have assembled := Prototype.parse_assembled parsed
  obtain ⟨resolved, -⟩ := Linking.resolved_of_run assembled ran
  intro component member key link held
  exact resolved.exists_target assembled.wellFormed member held

private theorem Specification.RefersBeyond.exists_artifact {artifact : Artifact} {path : String}
    (beyond : spec.RefersBeyond artifact path) :
    ∃ other : Artifact, other.IsPlain ∧ path = other.leafPath := by
  obtain ⟨_, _, _, _, _, _, _, _, target, _, _, _, kind, _, same⟩ := beyond
  exact ⟨.ofRecord kind target.key, Artifact.isPlain_ofRecord kind target.key, same⟩

/-- After a complete run there is a file at a leaf path exactly if there was one before, or if it is the
leaf path of a class and was no directory. -/
theorem isSome_get?_of_headers {targetNamespace : String}
    (headers : (spec.plan targetNamespace).headers.map HeaderPair.artifact = spec.artifacts)
    {artifact : Artifact} (plainPath : artifact.IsPlain) (store : MemoryStore) :
    ((memory.emitAll (memory.prepare store) (spec.plan targetNamespace).headers).get?
        artifact.leafPath).isSome ↔
      (store.get? artifact.leafPath).isSome ∨
        artifact.leafPath ∈ spec.artifacts.map Artifact.leafPath ∧
          Path.plain artifact.leafPath ∉ store.directories := by
  have plain : ∀ pair ∈ (spec.plan targetNamespace).headers, pair.artifact.IsPlain :=
    fun pair member => Specification.isPlain_of_mem_artifacts
      (headers ▸ List.mem_map_of_mem member)
  rw [TotalSink.isSome_get?_emitAll plain plainPath, TotalSink.get?_prepare,
    TotalSink.plain_leafPath_mem_prepare plainPath, ← headers, List.map_map]
  simp

/-- **Includes of a compiled document.** A generated header that a written base header includes is the
leaf header of one of the document's classes, or it belongs to a record of an unsupported kind that
the setter chain refers to. After the run there is a file at its path exactly if there was one before,
or if it is the leaf header of a class and the path was no directory. -/
theorem compile_localIncludes {store after : MemoryStore} {targetNamespace text : String}
    {report : Report} (compiled : compileInMemory store targetNamespace text = (.ok report, after)) :
    ∃ spec, readDocument text = .ok spec ∧
      (spec.plan targetNamespace).headers.map HeaderPair.artifact = spec.artifacts ∧
      report.baseWritten = spec.artifacts.map Artifact.basePath ∧
      ∀ pair ∈ (spec.plan targetNamespace).headers, ∀ path ∈ pair.base.localIncludes,
        (path ∈ spec.artifacts.map Artifact.leafPath ∨ spec.RefersBeyond pair.artifact path) ∧
        ((after.get? path).isSome ↔ (store.get? path).isSome ∨
          path ∈ spec.artifacts.map Artifact.leafPath ∧
            Path.plain path ∉ store.directories) := by
  obtain ⟨spec, read, headers, written, rfl⟩ := exists_plan_of_compiled compiled
  refine ⟨spec, read, headers, written, fun pair inside path included => ?_⟩
  have origin := Specification.localIncludes_of_plan (linked_of_readDocument read)
    (targetsKnown_of_readDocument read) pair inside path included
  refine ⟨origin, ?_⟩
  -- Whatever its origin, the path is one at which a leaf header of some class could stand.
  obtain ⟨artifact, plain, rfl⟩ : ∃ artifact : Artifact, artifact.IsPlain ∧
      path = artifact.leafPath := by
    rcases origin with listed | beyond
    · obtain ⟨artifact, member, rfl⟩ := List.mem_map.mp listed
      exact ⟨artifact, Specification.isPlain_of_mem_artifacts member, rfl⟩
    · exact beyond.exists_artifact
  exact isSome_get?_of_headers headers plain store

namespace Specification

variable {spec : Specification .resolved} {targetNamespace : String}

/-- A complete plan writes the setter chain of every random sequence. -/
theorem exists_chain_pair (linked : spec.Linked)
    (complete : (spec.plan targetNamespace).failure = none)
    {sequence : RecordSequence} (member : sequence ∈ spec.sequences.toList)
    (random : sequence.kind = .random) :
    ∃ pair ∈ (spec.plan targetNamespace).headers,
      ∀ id ∈ spec.chain sequence,
        ∀ path ∈ RecordContext.memberIncludes ⟨spec, sequence, targetNamespace⟩ id,
          path ∈ pair.base.localIncludes := by
  obtain ⟨pairs, rendered, written⟩ := exists_headers_of_plan linked complete member random
  obtain ⟨chain, listed, chained⟩ := RecordContext.exists_chainHeaders rendered
  refine ⟨chain, written listed, fun id below path asked => ?_⟩
  rw [RecordContext.localIncludes_of_chainHeaders chained]
  have left := (ChainNames.postOrder_perm linked.wellFormed member).mem_iff.mpr below
  exact List.mem_append_right _ (List.mem_flatMap.mpr ⟨id, left, asked⟩)

end Specification

namespace Prototype.Sample

open Markup (Element)

/-- A document with a random sequence that refers to records of an unsupported one. -/
def referringRoot : Element :=
  { name := rootName
    children := [
      { name := "record_sequences"
        children := [
          { name := "random_sequence"
            attributes := [("key", "a")]
            children := [
              { name := "record_type"
                children := [{ name := "reference", attributes := [("name", "p"), ("type", "b")] }] },
              { name := "setter_chain", children := [referenceSetter] },
              { name := "cardinality_estimator"
                attributes := [("type", "const_estimator")]
                children := [literal "cardinality" "I64u" "1"] }] },
          { name := "hydrated_sequence"
            attributes := [("key", "b")]
            children := [{ name := "record_type" }] }] }] }

/-- The text of the document. -/
def referringText : String :=
  String.ofList referringRoot.print

theorem parse_referringText : Markup.parse referringText = .ok referringRoot :=
  Markup.Element.parse_print (by decide +kernel)

/-- The traits of the record `b`. -/
def referredTraits : Artifact :=
  .ofRecord .util "b"

/-- Whether the traits of the record `b` are asked for by a setter chain, but are not generated. -/
def missesTraits (spec : Specification .resolved) : Bool :=
  !(spec.artifacts.map Artifact.leafPath).contains referredTraits.leafPath &&
    spec.sequences.toList.any fun sequence => sequence.kind == .random &&
      (spec.chain sequence).any fun id =>
        (RecordContext.memberIncludes ⟨spec, sequence, "Shop"⟩ id).contains referredTraits.leafPath

theorem exists_compiled_referring :
    ∃ spec report after, readDocument referringText = .ok spec ∧ missesTraits spec = true ∧
      (spec.plan "Shop").failure = none ∧
      compileInMemory {} "Shop" referringText = (.ok report, after) := by
  refine exists_compiled_of_isRenderable parse_referringText ?_ {} "Shop"
  decide +kernel

end Prototype.Sample

section

open Prototype.Sample

/-- In an empty store, exactly the included headers that belong to a class of the sample are there
after the run. -/
theorem referring_localIncludes :
    ∃ spec report after, readDocument referringText = .ok spec ∧
      compileInMemory {} "Shop" referringText = (.ok report, after) ∧
      ∀ pair ∈ (spec.plan "Shop").headers, ∀ path ∈ pair.base.localIncludes,
        (path ∈ spec.artifacts.map Artifact.leafPath ∨ spec.RefersBeyond pair.artifact path) ∧
        ((after.get? path).isSome ↔ path ∈ spec.artifacts.map Artifact.leafPath) := by
  obtain ⟨spec, report, after, read, -, -, compiled⟩ := exists_compiled_referring
  obtain ⟨other, again, -, -, includes⟩ := compile_localIncludes compiled
  obtain rfl := Except.ok.inj (read.symm.trans again)
  refine ⟨spec, report, after, read, compiled, fun pair inside path included => ?_⟩
  obtain ⟨origin, present⟩ := includes pair inside path included
  refine ⟨origin, present.trans ?_⟩
  simp [MemoryStore.get?]

/-- The setter chain of the sample includes the traits of a record for which nothing is generated, and
they are not there after the run. -/
theorem referred_traits_missing :
    ∃ spec report after, readDocument referringText = .ok spec ∧
      compileInMemory {} "Shop" referringText = (.ok report, after) ∧
      ∃ pair ∈ (spec.plan "Shop").headers, ∃ path ∈ pair.base.localIncludes,
        (after.get? path).isSome = false := by
  obtain ⟨spec, report, after, read, misses, complete, compiled⟩ := exists_compiled_referring
  obtain ⟨other, again, headers, -, rfl⟩ := exists_plan_of_compiled compiled
  obtain rfl := Except.ok.inj (read.symm.trans again)
  rw [missesTraits, Bool.and_eq_true_iff, Bool.not_eq_true', List.any_eq_true] at misses
  obtain ⟨absent, sequence, member, misses⟩ := misses
  obtain ⟨random, misses⟩ := Bool.and_eq_true_iff.mp misses
  obtain ⟨id, inside, asked⟩ := List.any_eq_true.mp misses
  obtain ⟨pair, written, includes⟩ := Specification.exists_chain_pair (linked_of_readDocument read)
    complete member (beq_iff_eq.mp random)
  refine ⟨spec, report, _, read, compiled, pair, written, referredTraits.leafPath,
    includes id inside _ (List.contains_iff_mem.mp asked), ?_⟩
  have plain : referredTraits.IsPlain := Artifact.isPlain_ofRecord .util "b"
  rw [Bool.eq_false_iff, Ne, isSome_get?_of_headers headers plain, ← List.contains_iff_mem, absent]
  simp [MemoryStore.get?]

end

end Recordgen

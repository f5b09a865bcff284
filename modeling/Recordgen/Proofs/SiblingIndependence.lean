import Recordgen.Proofs.EmbeddedHeaders
import Recordgen.Proofs.EmbeddedLinking
import Recordgen.Proofs.EmbeddedReading

/-! # Sequences do not depend on their siblings

A document whose sequences all occur in another one, beside the same parameters, functions and
enumerations, is embedded in it: reading keeps the parts of each sequence together, resolution finds
by name what it found before, and nothing that is rendered shows a handle. So the configuration and
the headers of its sequences are the same in both (`compile_siblings`), wherever the sequences stand
and whatever stands beside them.
-/

namespace Recordgen

open Outcome
open Markup (Element)
open Prototype (SameSections sectionChildren)

/-- A document is embedded in every document that has its sequences and the same other sections, also
once the names in both are resolved. -/
theorem exists_within_of_readDocument {text other : String} {root later : Element}
    (parsed : Markup.parse text = .ok root) (parsedAgain : Markup.parse other = .ok later)
    (sections : SameSections root later)
    (occur : sectionChildren root "record_sequences" Element.children ⊆
      sectionChildren later "record_sequences" Element.children)
    {small large : Specification .resolved} (read : readDocument text = .ok small)
    (again : readDocument other = .ok large) : ∃ new, small.Within new large := by
  obtain ⟨raw, prototype, resolved⟩ := bind_eq_ok_iff.mp read
  obtain ⟨wideRaw, widePrototype, wideResolved⟩ := bind_eq_ok_iff.mp again
  have assembled := Prototype.parse_assembled prototype
  have wide := Prototype.parse_assembled widePrototype
  rw [Prototype.parse_eq_readRoot parsed] at prototype
  rw [Prototype.parse_eq_readRoot parsedAgain] at widePrototype
  obtain ⟨⟨_, summary⟩, ran, rfl⟩ := map_eq_ok_iff.mp resolved
  obtain ⟨⟨_, wideSummary⟩, wideRan, rfl⟩ := map_eq_ok_iff.mp wideResolved
  obtain ⟨new, embeds⟩ :=
    Prototype.exists_embeds_of_readRoot prototype widePrototype sections occur
  refine ⟨new, ⟨Linking.embeds_of_run embeds assembled wide ran wideRan,
    Linking.linked_of_run assembled ran, ?_, (Linking.linked_of_run wide wideRan).wellFormed⟩⟩
  exact (Linking.resolved_of_run assembled ran).1.linksLead assembled.wellFormed

/-- **Siblings.** Two documents are compiled that have the same parameters, functions and
enumerations, and every sequence of the first one occurs in the second one. Then both write the same
headers of the configuration, and for each random sequence of the first one the same five pairs of
headers. -/
theorem compile_siblings {text other : String} {root later : Element}
    (parsed : Markup.parse text = .ok root) (parsedAgain : Markup.parse other = .ok later)
    (sections : SameSections root later)
    (occur : sectionChildren root "record_sequences" Element.children ⊆
      sectionChildren later "record_sequences" Element.children)
    {targetNamespace : String} {store after start final : MemoryStore} {report found : Report}
    (compiled : compileInMemory store targetNamespace text = (.ok report, after))
    (again : compileInMemory start targetNamespace other = (.ok found, final)) :
    ∃ small large, readDocument text = .ok small ∧ readDocument other = .ok large ∧
      (∃ config, small.configHeaders targetNamespace = .ok config ∧
        large.configHeaders targetNamespace = .ok config ∧
        config ∈ (small.plan targetNamespace).headers ∧
        config ∈ (large.plan targetNamespace).headers) ∧
      ∀ sequence ∈ small.sequences.toList, sequence.kind = .random →
        ∃ sibling ∈ large.sequences.toList, sibling.key = sequence.key ∧ sibling.kind = .random ∧
          ∃ pairs, pairs.map HeaderPair.artifact = sequence.artifacts ∧
            RecordContext.headers ⟨small, sequence, targetNamespace⟩ = .ok pairs ∧
            RecordContext.headers ⟨large, sibling, targetNamespace⟩ = .ok pairs ∧
            pairs ⊆ (small.plan targetNamespace).headers ∧
            pairs ⊆ (large.plan targetNamespace).headers := by
  obtain ⟨small, read, complete, -⟩ := exists_complete_of_compiled compiled
  obtain ⟨large, readAgain, completeAgain, -⟩ := exists_complete_of_compiled again
  have linked := linked_of_readDocument read
  have wide := linked_of_readDocument readAgain
  obtain ⟨new, within⟩ :=
    exists_within_of_readDocument parsed parsedAgain sections occur read readAgain
  refine ⟨small, large, read, readAgain, ?_, fun sequence member random => ?_⟩
  · obtain ⟨config, rendered⟩ := Specification.exists_configHeaders linked targetNamespace
    have same := within.configHeaders_rename targetNamespace config rendered
    exact ⟨config, rendered, same, Specification.config_mem_headers rendered,
      Specification.config_mem_headers same⟩
  · obtain ⟨pairs, rendered, written⟩ :=
      Specification.exists_headers_of_plan linked complete member random
    have there := within.embeds.rename_mem_sequences member
    have same := RecordContext.headers_rename within member pairs rendered
    obtain ⟨others, renderedAgain, writtenAgain⟩ :=
      Specification.exists_headers_of_plan wide completeAgain there random
    obtain rfl : pairs = others := Except.ok.inj (same.symm.trans renderedAgain)
    refine ⟨sequence.rename new, there, rfl, random, pairs, ?_, rendered, same, written,
      writtenAgain⟩
    rw [RecordContext.artifacts_of_headers rendered, RecordSequence.artifacts_of_random random]
    rfl

namespace Prototype.Sample

/-- A document with a function and the given sequences. -/
def siblingRoot (sequences : List Element) : Element :=
  { name := rootName
    children := [
      { name := "functions"
        children := [keyed "function" "f" "normal_probability" [
          literal "mean" "Decimal" "0", literal "stddev" "Decimal" "1"]] },
      { name := "record_sequences", children := sequences }] }

/-- A random sequence with a field, and with a setter for it that uses the function. -/
def drawnSequence (key : String) (references : List Element) (setters : List Element) : Element :=
  { name := "random_sequence"
    attributes := [("key", key)]
    children := [
      { name := "record_type"
        children := { name := "field", attributes := [("name", "x"), ("type", "I32")] } ::
          references },
      { name := "setter_chain"
        children := keyed "setter" "s" "field_setter" [
          link "field" "x",
          nested "value" "random_value_provider[I32]" [link "probability" "f"]] :: setters },
      { name := "cardinality_estimator"
        attributes := [("type", "const_estimator")]
        children := [literal "cardinality" "I64u" "1"] }] }

/-- A random sequence that refers to the records of another one. -/
def referringSequence : Element :=
  drawnSequence "a" [{ name := "reference", attributes := [("name", "p"), ("type", "b")] }]
    [referenceSetter]

/-- A sequence to refer to. -/
def referredSequence : Element :=
  { name := "hydrated_sequence"
    attributes := [("key", "b")]
    children := [{ name := "record_type" }] }

/-- Two sequences on their own. -/
def pairRoot : Element :=
  siblingRoot [referringSequence, referredSequence]

/-- The same sequences, in another order and behind a third one. -/
def crowdRoot : Element :=
  siblingRoot [drawnSequence "c" [] [], referredSequence, referringSequence]

def pairText : String :=
  String.ofList pairRoot.print

def crowdText : String :=
  String.ofList crowdRoot.print

private theorem parse_pairText : Markup.parse pairText = .ok pairRoot :=
  Markup.Element.parse_print (by decide +kernel)

private theorem parse_crowdText : Markup.parse crowdText = .ok crowdRoot :=
  Markup.Element.parse_print (by decide +kernel)

private theorem sameSections_crowd : SameSections pairRoot crowdRoot :=
  ⟨rfl, rfl, rfl⟩

private theorem sequences_subset_crowd :
    sectionChildren pairRoot "record_sequences" Element.children ⊆
    sectionChildren crowdRoot "record_sequences" Element.children := by
  change [referringSequence, referredSequence] ⊆
    [drawnSequence "c" [] [], referredSequence, referringSequence]
  simp

/-- Whether there is a random sequence `a`, and it alone has that key and the given handle. -/
def standsAt (id : SequenceId) (spec : Specification .resolved) : Bool :=
  (spec.sequences.toList.any fun sequence => sequence.key == "a" && sequence.kind == .random) &&
    spec.sequences.toList.all fun sequence => sequence.key != "a" || sequence.id == id

private theorem id_of_standsAt {id : SequenceId} {spec : Specification .resolved}
    (stands : standsAt id spec = true) {sequence : RecordSequence}
    (member : sequence ∈ spec.sequences.toList) (keyed : sequence.key = "a") : sequence.id = id := by
  have each := List.all_eq_true.mp (Bool.and_eq_true_iff.mp stands).2 sequence member
  rw [keyed, bne_self_eq_false, Bool.false_or] at each
  exact beq_iff_eq.mp each

set_option maxRecDepth 100000 in
private theorem exists_compiled_pair :
    ∃ spec report after, readDocument pairText = .ok spec ∧
      standsAt ⟨0⟩ spec = true ∧ (spec.plan "Shop").failure = none ∧
      compileInMemory {} "Shop" pairText = (.ok report, after) := by
  refine exists_compiled_of_isRenderable parse_pairText ?_ {} "Shop"
  cbv

set_option maxRecDepth 100000 in
private theorem exists_compiled_crowd :
    ∃ spec report after, readDocument crowdText = .ok spec ∧
      standsAt ⟨2⟩ spec = true ∧ (spec.plan "Shop").failure = none ∧
      compileInMemory {} "Shop" crowdText = (.ok report, after) := by
  refine exists_compiled_of_isRenderable parse_crowdText ?_ {} "Shop"
  cbv

end Prototype.Sample

open Prototype.Sample in
/-- The random sequence of the sample has different handles in the two documents, and the same headers
in both. -/
theorem crowd_headers :
    SameSections pairRoot crowdRoot ∧
    sectionChildren pairRoot "record_sequences" Element.children ⊆
      sectionChildren crowdRoot "record_sequences" Element.children ∧
    ∃ small large report after found final,
      compileInMemory {} "Shop" pairText = (.ok report, after) ∧
      compileInMemory {} "Shop" crowdText = (.ok found, final) ∧
      readDocument pairText = .ok small ∧ readDocument crowdText = .ok large ∧
      (∃ config, small.configHeaders "Shop" = .ok config ∧ large.configHeaders "Shop" = .ok config) ∧
      ∃ sequence ∈ small.sequences.toList, ∃ sibling ∈ large.sequences.toList,
        sequence.key = "a" ∧ sibling.key = "a" ∧ sequence.id ≠ sibling.id ∧
        ∃ pairs, pairs.length = 5 ∧ RecordContext.headers ⟨small, sequence, "Shop"⟩ = .ok pairs ∧
          RecordContext.headers ⟨large, sibling, "Shop"⟩ = .ok pairs := by
  obtain ⟨small, report, after, read, stands, -, compiled⟩ := exists_compiled_pair
  obtain ⟨large, found, final, readAgain, standsAgain, -, again⟩ := exists_compiled_crowd
  refine ⟨sameSections_crowd, sequences_subset_crowd, small, large, report, after, found, final,
    compiled, again, read, readAgain, ?_⟩
  obtain ⟨first, second, one, two, ⟨config, here, there, -⟩, siblings⟩ := compile_siblings
    parse_pairText parse_crowdText sameSections_crowd sequences_subset_crowd compiled again
  obtain rfl := Except.ok.inj (read.symm.trans one)
  obtain rfl := Except.ok.inj (readAgain.symm.trans two)
  refine ⟨⟨config, here, there⟩, ?_⟩
  obtain ⟨sequence, member, named⟩ :=
    List.any_eq_true.mp (Bool.and_eq_true_iff.mp stands).1
  obtain ⟨keyed, random⟩ := Bool.and_eq_true_iff.mp named
  obtain ⟨sibling, listed, sameKey, -, pairs, artifacts, rendered, renderedAgain, -⟩ :=
    siblings sequence member (beq_iff_eq.mp random)
  have key : sequence.key = "a" := beq_iff_eq.mp keyed
  refine ⟨sequence, member, sibling, listed, key, sameKey.trans key, ?_, pairs, ?_, rendered,
    renderedAgain⟩
  · rw [id_of_standsAt stands member key, id_of_standsAt standsAgain listed (sameKey.trans key)]
    decide
  · have counted := congrArg List.length artifacts
    rw [RecordSequence.artifacts_of_random (beq_iff_eq.mp random), List.length_map,
      List.length_map] at counted
    exact counted

end Recordgen

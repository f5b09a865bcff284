import Recordgen.Proofs.MarkupText
import Recordgen.Proofs.RecordReading
import Recordgen.Proofs.SequenceReading
import Recordgen.Prototype.Document

/-! # What reading a document gives

Every section of a document adds to the specification and moves nothing that is already there
(`Specification.Extends`), so what a reader finds out about its own part stays true. A document that
is accepted gives a well-formed specification in which no field has a setter yet
(`parse_assembled`).
-/

namespace Recordgen

variable {phase : Phase}

/-- What the handles of one specification lead to, they lead to in the other. -/
structure Specification.Extends (before after : Specification phase) : Prop where
  fields : ∀ (index : Nat) (field : Field), before.fields[index]? = some field →
    after.fields[index]? = some field
  references : ∀ (index : Nat) (reference : Reference phase),
    before.references[index]? = some reference → after.references[index]? = some reference
  components : ∀ (index : Nat) (component : Component phase),
    before.components[index]? = some component → after.components[index]? = some component
  enumSets : ∀ key, before.enumSets.contains key = true → after.enumSets.contains key = true

namespace Specification

variable {before after : Specification phase}

theorem HasRoot.extend {category : Category} {owner : Option SequenceId} {id : ComponentId}
    (rooted : before.HasRoot category owner id) (extended : before.Extends after) :
    after.HasRoot category owner id := by
  obtain ⟨component, present, sort, owned⟩ := rooted
  exact ⟨component, extended.components _ _ present, sort, owned⟩

end Specification

theorem RecordFields.extend {enumSets wider : KeyMap ComponentId} {owner : SequenceId}
    {fields : List Field} (record : RecordFields enumSets owner fields)
    (wide : ∀ key, enumSets.contains key = true → wider.contains key = true) :
    RecordFields wider owner fields where
  identifier := record.identifier
  orders := record.orders
  owners := record.owners
  enumSets := by
    intro field member
    obtain ⟨enumerated, known⟩ := record.enumSets field member
    exact ⟨enumerated, fun key found => wide key (known key found)⟩

/-- A sequence stays well formed when the specification grows. -/
theorem RecordSequence.WellFormed.extend {before after : Specification phase}
    {sequence : RecordSequence} (wellFormed : sequence.WellFormed before)
    (extended : before.Extends after) : sequence.WellFormed after where
  record := by
    obtain ⟨fields, references, leadFields, leadReferences, record, linked, distinct⟩ :=
      wellFormed.record
    exact ⟨fields, references, leadFields.imp fun _ _ => extended.fields _ _,
      leadReferences.imp fun _ _ => extended.references _ _,
      record.extend extended.enumSets, linked, distinct⟩
  setters := by
    obtain ⟨setters, lead, chain⟩ := wellFormed.setters
    exact ⟨setters, lead.imp fun _ _ => extended.components _ _, chain⟩
  outputFormat := fun id member => (wellFormed.outputFormat id member).extend extended
  estimator := fun id member => (wellFormed.estimator id member).extend extended
  sequenceIterator := fun id member => (wellFormed.sequenceIterator id member).extend extended
  estimated := wellFormed.estimated
  unsupported := wellFormed.unsupported

namespace Prototype

open Markup (Element)
open Outcome

/-- A specification under construction: well formed, and without bound setters. -/
structure Assembled (spec : Specification .raw) : Prop where
  wellFormed : spec.WellFormed
  unset : ∀ field ∈ spec.fields.toList, field.setter = none

variable {spec : Specification .raw} {owner : Option SequenceId} {roots : List ComponentId}
  {components : List (Component .raw)} {next result : Specification .raw} {category : Category}
  {id : ComponentId}

/-- What is appended stands right behind what was there. -/
theorem located_appended (spec : Specification .raw) (components : List (Component .raw)) :
    Located (spec.components ++ components).toList spec.components.size components := by
  rw [Array.toList_appendList]
  exact Located.behind spec.components.toList components

private theorem forest_appended (wellFormed : spec.WellFormed)
    (grown : Grown none owner spec.components.size roots components) :
    ∃ all, Forest none 0 all (spec.components ++ components).toList ∧
      all.Perm (spec.roots ++ roots) := by
  obtain ⟨known, forest, same⟩ := wellFormed.forest
  rw [Array.toList_appendList]
  refine ⟨known ++ roots, forest.append ?_, same.append_right roots⟩
  rw [Nat.zero_add, Array.length_toList]
  exact grown.forest

private theorem conform_appended (wellFormed : spec.WellFormed)
    (grown : Grown none owner spec.components.size roots components) :
    ∀ component ∈ (spec.components ++ components).toList,
      component.Conforms (spec.components ++ components).toList := by
  intro component member
  rw [Array.toList_appendList, List.mem_append] at member
  rcases member with member | member
  · refine (wellFormed.conform component member).mono fun index other present => ?_
    rw [Array.getElem?_toList] at present ⊢
    exact getElem?_append_list present
  · exact grown.conform _ (located_appended spec components) component member

theorem Assembled.empty : Assembled {} where
  wellFormed :=
    { sequenceIds := by simp
      sequenceKeys := List.nodup_nil
      fieldIds := rfl
      referenceIds := rfl
      fieldsListed := rfl
      referencesListed := rfl
      forest := ⟨[], .nil _ _, List.Perm.nil⟩
      conform := by simp
      functions := by simp [KeyMap.values]
      enumSets := by simp [KeyMap.values]
      sequences := by simp }
  unset := by simp

private theorem readParameter_assembled {element : Element} (assembled : Assembled spec)
    (read : readParameter spec element = .ok next) : Assembled next := by
  obtain ⟨key, -, read⟩ := bind_eq_ok_iff.mp read
  split at read
  · split at read
    · cases read
    · obtain rfl := pure_eq_ok_iff.mp read
      obtain ⟨wellFormed, unset⟩ := assembled
      -- Parameters are not part of what makes a specification well formed.
      exact ⟨{ wellFormed with
        sequences := fun sequence member => (wellFormed.sequences sequence member).extend
          ⟨fun _ _ => id, fun _ _ => id, fun _ _ => id, fun _ => id⟩ }, unset⟩
  · cases read

/-- A component tree without an owner is added under a new key. The caller says where the key is
kept. -/
theorem Assembled.addTree {typeText key : String} {element : Element} (assembled : Assembled spec)
    (read : componentReader element category typeText key {} spec.components.size = .ok components)
    (sequences : next.sequences = spec.sequences) (fields : next.fields = spec.fields)
    (references : next.references = spec.references)
    (extended : next.components = spec.components ++ components)
    (listed : (spec.roots ++ [ComponentId.mk spec.components.size]).Perm next.roots)
    (known : ∀ name, spec.enumSets.contains name = true → next.enumSets.contains name = true)
    (functions : ∀ id ∈ next.functions.values,
      id ∈ spec.functions.values ∨ category = .function ∧ id = ⟨spec.components.size⟩)
   
    (enumSets : ∀ id ∈ next.enumSets.values,
      id ∈ spec.enumSets.values ∨ category = .enumSet ∧ id = ⟨spec.components.size⟩) :
    Assembled next := by
  obtain ⟨wellFormed, unset⟩ := assembled
  obtain ⟨grown, rooted⟩ := (componentReader_grows element).read read
  have wider : spec.Extends next := by
    refine ⟨fun _ _ => fields ▸ id, fun _ _ => references ▸ id, fun _ _ present => ?_, known⟩
    rw [extended]
    exact getElem?_append_list present
  have added : next.HasRoot category none ⟨spec.components.size⟩ := by
    obtain ⟨root, present, -, sort, -, owned⟩ := rooted _ (located_appended spec components)
    rw [← extended, Array.getElem?_toList] at present
    exact ⟨root, present, sort, owned⟩
  obtain ⟨all, forest, same⟩ := forest_appended wellFormed grown
  refine ⟨⟨?_, ?_, ?_, ?_, ?_, ?_, ⟨all, extended ▸ forest, same.trans listed⟩, ?_, ?_, ?_, ?_⟩,
    fields ▸ unset⟩
  · rw [sequences]
    exact wellFormed.sequenceIds
  · rw [sequences]
    exact wellFormed.sequenceKeys
  · rw [fields]
    exact wellFormed.fieldIds
  · rw [references]
    exact wellFormed.referenceIds
  · rw [sequences, fields]
    exact wellFormed.fieldsListed
  · rw [sequences, references]
    exact wellFormed.referencesListed
  · rw [extended]
    exact conform_appended wellFormed grown
  · intro id member
    rcases functions id member with member | ⟨rfl, rfl⟩
    · exact (wellFormed.functions id member).extend wider
    · exact added
  · intro id member
    rcases enumSets id member with member | ⟨rfl, rfl⟩
    · exact (wellFormed.enumSets id member).extend wider
    · exact added
  · rw [sequences]
    exact fun sequence member => (wellFormed.sequences sequence member).extend wider

/-- The values of a map behind a new key. -/
theorem mem_values_insert {map : KeyMap ComponentId} {key : String} {value : ComponentId}
    (absent : ¬map.contains key = true) (member : id ∈ (map.insert key value).values) :
    id ∈ map.values ∨ id = value := by
  have listed := (map.values_insert key value (Bool.eq_false_iff.mpr absent)).mem_iff.mp member
  exact (List.mem_cons.mp listed).symm

private theorem readFunction_assembled {element : Element} (assembled : Assembled spec)
    (read : readFunction spec element = .ok next) : Assembled next := by
  obtain ⟨key, -, read⟩ := bind_eq_ok_iff.mp read
  split at read
  · cases read
  rename_i fresh
  obtain ⟨typeText, -, read⟩ := bind_eq_ok_iff.mp read
  obtain ⟨components, found, rfl⟩ := bind_pure_eq_ok_iff.mp read
  refine assembled.addTree found rfl rfl rfl rfl ?_ (fun _ => id) ?_ (fun _ => Or.inl)
  · have values := spec.functions.values_insert key ⟨spec.components.size⟩
      (Bool.eq_false_iff.mpr fresh)
    refine List.perm_append_comm.trans ?_
    exact ((values.append_right _).append_right _).symm
  · intro id member
    exact (mem_values_insert fresh member).imp_right fun same => ⟨rfl, same⟩

private theorem readEnumeration_assembled {element : Element} (assembled : Assembled spec)
    (read : readEnumeration spec element = .ok next) : Assembled next := by
  obtain ⟨key, -, read⟩ := bind_eq_ok_iff.mp read
  split at read
  · cases read
  rename_i fresh
  obtain ⟨components, found, rfl⟩ := bind_pure_eq_ok_iff.mp read
  refine assembled.addTree found rfl rfl rfl rfl ?_ (fun _ => KeyMap.contains_insert)
    (fun _ => Or.inl) ?_
  · have values := spec.enumSets.values_insert key ⟨spec.components.size⟩
      (Bool.eq_false_iff.mpr fresh)
    refine List.perm_append_comm.trans ?_
    refine List.Perm.trans ?_ (((values.append_left _).append_right _).symm)
    rw [Specification.roots]
    exact (List.perm_middle.symm.append_right _)
  · intro id member
    exact (mem_values_insert fresh member).imp_right fun same => ⟨rfl, same⟩

/-- A sequence is added behind what is there. -/
theorem extends_addSequence (spec : Specification .raw) (sequence : RecordSequence)
    (fields : List Field) (references : List (Reference .raw))
    (components : List (Component .raw)) :
    spec.Extends (addSequence spec sequence fields references components) :=
  ⟨fun _ _ => getElem?_append_list, fun _ _ => getElem?_append_list,
    fun _ _ => getElem?_append_list, fun _ => id⟩

private theorem hasRoot_of_leadsTo {sequence : SequenceId}
    (leads : LeadsTo spec.components.toList category sequence id) :
    spec.HasRoot category (some sequence) id := by
  obtain ⟨component, present, sort, owned⟩ := leads
  exact ⟨component, Array.getElem?_toList.symm.trans present, sort, owned⟩

section AddSequence

variable {sequence : RecordSequence} {fields : List Field} {references : List (Reference .raw)}

/-- A sequence is well formed in the specification that it was added to. -/
theorem wellFormed_added
    (fieldsRead : FieldsRead spec.enumSets sequence.id spec.fields.size fields)
    (referencesRead : ReferencesRead sequence.id (fields.map Field.name) spec.references.size
      references)
    (parts : PartsLead (spec.components ++ components).toList sequence)
    (estimated : sequence.kind = .random → sequence.estimator.isSome = true)
    (unsupported : sequence.kind ≠ .random → sequence.roots = []) :
    RecordSequence.WellFormed (addSequence spec sequence fields references components)
      { sequence with
        fields := fields.map Field.id
        references := references.map Reference.id } where
  record := by
    refine ⟨fields, references, ?_, ?_, fieldsRead.record, referencesRead.record,
      referencesRead.names⟩
    · exact List.forall₂_map_left_iff.mpr (List.forall₂_same.mpr fieldsRead.found)
    · exact List.forall₂_map_left_iff.mpr (List.forall₂_same.mpr referencesRead.found)
  setters := by
    obtain ⟨_, setters, lead, chain, -⟩ := parts.setters
    exact ⟨setters, lead.imp fun _ _ => Array.getElem?_toList.symm.trans, chain⟩
  outputFormat := fun id member => hasRoot_of_leadsTo (parts.outputFormat id member)
  estimator := fun id member => hasRoot_of_leadsTo (parts.estimator id member)
  sequenceIterator := fun id member => hasRoot_of_leadsTo (parts.sequenceIterator id member)
  estimated := estimated
  unsupported := unsupported

/-- Adding a sequence with all that was read for it keeps the specification assembled. -/
theorem Assembled.addSequence (assembled : Assembled spec)
    (numbered : sequence.id = ⟨spec.sequences.size⟩)
    (fresh : ¬(spec.sequenceByKey? sequence.key).isSome = true)
    (fieldsRead : FieldsRead spec.enumSets sequence.id spec.fields.size fields)
    (referencesRead : ReferencesRead sequence.id (fields.map Field.name) spec.references.size
      references)
    (grown : Grown none owner spec.components.size sequence.roots components)
    (parts : PartsLead (spec.components ++ components).toList sequence)
    (estimated : sequence.kind = .random → sequence.estimator.isSome = true)
    (unsupported : sequence.kind ≠ .random → sequence.roots = []) :
    Assembled (addSequence spec sequence fields references components) := by
  obtain ⟨wellFormed, unset⟩ := assembled
  have wider := extends_addSequence spec sequence fields references components
  obtain ⟨all, forest, same⟩ := forest_appended wellFormed grown
  refine ⟨⟨?_, ?_, numbered_append wellFormed.fieldIds fieldsRead.ids,
    numbered_append wellFormed.referenceIds referencesRead.ids, ?_, ?_, ⟨all, forest, ?_⟩,
    conform_appended wellFormed grown,
    fun id member => (wellFormed.functions id member).extend wider,
    fun id member => (wellFormed.enumSets id member).extend wider, ?_⟩, ?_⟩
  · intro index found present
    simp only [Prototype.addSequence, Array.getElem?_push] at present
    split at present
    · rename_i last
      obtain rfl := Option.some.inj present
      rw [last]
      exact numbered
    · exact wellFormed.sequenceIds index found present
  · simp only [Prototype.addSequence, Array.toList_push, List.map_append, List.map_singleton]
    refine List.nodup_append.mpr ⟨wellFormed.sequenceKeys, List.nodup_singleton _, ?_⟩
    intro used member other alone matching
    obtain ⟨known, present, rfl⟩ := List.mem_map.mp member
    refine fresh (Array.find?_isSome.mpr ⟨known, Array.mem_toList_iff.mp present, ?_⟩)
    rw [matching, List.mem_singleton.mp alone]
    exact beq_self_eq_true _
  · simp only [Prototype.addSequence, Array.toList_push, Array.toList_appendList,
      List.flatMap_append, List.flatMap_singleton, List.map_append, wellFormed.fieldsListed]
  · simp only [Prototype.addSequence, Array.toList_push, Array.toList_appendList,
      List.flatMap_append, List.flatMap_singleton, List.map_append, wellFormed.referencesListed]
  · refine same.trans (List.Perm.of_eq ?_)
    simp only [Specification.roots, Prototype.addSequence, Array.toList_push,
      List.flatMap_append, List.flatMap_singleton, List.append_assoc]
    rfl
  · intro other member
    simp only [Prototype.addSequence, Array.toList_push, List.mem_append,
      List.mem_singleton] at member
    rcases member with member | rfl
    · exact (wellFormed.sequences other member).extend wider
    · exact wellFormed_added fieldsRead referencesRead parts estimated unsupported
  · intro field member
    simp only [Prototype.addSequence, Array.toList_appendList, List.mem_append] at member
    rcases member with member | member
    · exact unset field member
    · exact fieldsRead.unset field member

end AddSequence

/-- Reading one more sequence keeps the specification assembled. -/
theorem readSequence_assembled {element : Element} (assembled : Assembled spec)
    (read : readSequence spec element = .ok next) : Assembled next := by
  obtain ⟨key, fields, references, sequence, components, -, fresh, record, parts, rfl⟩ :=
    readSequence_adds read
  obtain ⟨fieldsRead, referencesRead⟩ := readRecordType_read record
  cases parts with
  | random _ _ parts =>
      obtain ⟨numbered, named, sort, estimated, grown, lead⟩ := readRandomParts_read parts
      have placed : sequence.id = ⟨spec.sequences.size⟩ := numbered
      rw [← placed] at fieldsRead referencesRead
      refine assembled.addSequence placed (named ▸ fresh) fieldsRead referencesRead grown
        (lead _ (located_appended spec components)) (fun _ => estimated) ?_
      intro other
      exact absurd sort other
  | unsupported =>
      have bare : Grown none none spec.components.size [] [] := Grown.nil
      exact assembled.addSequence rfl fresh fieldsRead referencesRead bare
        ⟨by simp, ⟨[], [], .nil, ⟨rfl, List.nodup_nil, by simp, by simp⟩, rfl⟩, by simp, by simp⟩
        (by simp) (fun _ => rfl)

/-- What stands in front of the sequences. -/
theorem exists_start {root : Element} (read : readRoot root = .ok spec) :
    ∃ start, Assembled start ∧
      (do
        let parameters ← (sectionChildren root "parameters" (·.childrenNamed "parameter")).foldlM
          readParameter {}
        let functions ← (sectionChildren root "functions" (·.childrenNamed "function")).foldlM
          readFunction parameters
        (sectionChildren root "enum_sets" (·.childrenNamed "enum_set")).foldlM readEnumeration
          functions) = Except.ok start ∧
      (sectionChildren root "record_sequences" Element.children).foldlM readSequence start =
        .ok spec := by
  unfold readRoot at read
  split at read
  · cases read
  obtain ⟨parameters, parametersRead, read⟩ := bind_eq_ok_iff.mp read
  obtain ⟨functions, functionsRead, read⟩ := bind_eq_ok_iff.mp read
  obtain ⟨start, startRead, sequencesRead⟩ := bind_eq_ok_iff.mp read
  have first := foldlM_invariant Assembled Assembled.empty
    (fun _ _ _ _ before step => readParameter_assembled before step) parametersRead
  have second := foldlM_invariant Assembled first
    (fun _ _ _ _ before step => readFunction_assembled before step) functionsRead
  have third := foldlM_invariant Assembled second
    (fun _ _ _ _ before step => readEnumeration_assembled before step) startRead
  refine ⟨start, third, bind_eq_ok_iff.mpr ⟨parameters, parametersRead, ?_⟩, sequencesRead⟩
  exact bind_eq_ok_iff.mpr ⟨functions, functionsRead, startRead⟩

/-- What is read from a root is assembled. -/
theorem readRoot_assembled {root : Element} (read : readRoot root = .ok result) :
    Assembled result := by
  obtain ⟨start, assembled, -, sequencesRead⟩ := exists_start read
  exact foldlM_invariant Assembled assembled
    (fun _ _ _ _ before step => readSequence_assembled before step) sequencesRead

/-- Once its text is scanned, a document is read from its root alone. -/
theorem parse_eq_readRoot {text : String} {root : Element}
    (scanned : Markup.parse text = .ok root) :
    parse text = readRoot root := by
  rw [parse, scanned]
  rfl

/-- **An accepted document gives a well-formed specification.** -/
theorem parse_assembled {text : String} (parsed : parse text = .ok result) : Assembled result := by
  obtain ⟨root, -, read⟩ := bind_eq_ok_iff.mp parsed
  exact readRoot_assembled read

/-- **The parsed tree conforms with the catalogue.** Every component of an accepted document has the
arguments of its kind's schema, each once and in order, each holding what the schema says, and its
type and size parameters are in agreement with them. -/
theorem parse_conforms {text : String} {result : Specification .raw}
    (parsed : parse text = .ok result) :
    ∀ component ∈ result.components.toList, component.Conforms result.components.toList ∧
      (component.arguments.map Prod.fst).Nodup := by
  intro component member
  have conforms := (parse_assembled parsed).wellFormed.conform component member
  exact ⟨conforms, conforms.keys_nodup⟩

namespace Sample

/-- An argument that refers to something by name. -/
def link (key target : String) : Element :=
  { name := "argument", attributes := [("key", key), ("ref", target)] }

/-- An argument with a literal value. -/
def literal (key type value : String) : Element :=
  { name := "argument", attributes := [("key", key), ("type", type), ("value", value)] }

/-- An argument that holds a component. -/
def nested (key type : String) (arguments : List Element) : Element :=
  { name := "argument", attributes := [("key", key), ("type", type)], children := arguments }

/-- A part with a key of its own. -/
def keyed (name key type : String) (arguments : List Element) : Element :=
  { name := name, attributes := [("key", key), ("type", type)], children := arguments }

/-- A field setter whose provider takes a collection, a default, a function and a field. -/
def fieldSetter : Element :=
  keyed "setter" "s" "field_setter" [
    link "field" "a",
    nested "value" "element_wise_value_provider[I32;2]" [
      nested "element_value_provider" "callback_value_provider[I32]" [
        literal "name" "String" "g"],
      nested "element_value_provider" "clustered_value_provider[I32]" [
        link "probability" "f",
        nested "cardinality" "context_field_range_provider[I32]" [link "field" "b"]]]]

/-- A reference setter. -/
def referenceSetter : Element :=
  keyed "setter" "t" "reference_setter" [
    link "reference" "p",
    nested "value" "clustered_reference_provider" [
      nested "children_count" "const_range_provider[I64u]" [
        literal "min" "I64u" "1", literal "max" "I64u" "2"],
      literal "children_count_max" "I64u" "2"]]

/-- A document with one sequence, in which every sort of link occurs. -/
def root : Element :=
  { name := rootName
    children := [
      { name := "functions"
        children := [keyed "function" "f" "normal_probability" [
          literal "mean" "Decimal" "0", literal "stddev" "Decimal" "1"]] },
      { name := "record_sequences"
        children := [
          { name := "random_sequence"
            attributes := [("key", "r")]
            children := [
              { name := "record_type"
                children := [
                  { name := "field", attributes := [("name", "a"), ("type", "I32")] },
                  { name := "field", attributes := [("name", "b"), ("type", "I32")] },
                  { name := "reference", attributes := [("name", "p"), ("type", "r")] }] },
              { name := "output_format", attributes := [("type", "csv")] },
              { name := "setter_chain", children := [fieldSetter, referenceSetter] },
              { name := "cardinality_estimator"
                attributes := [("type", "const_estimator")]
                children := [literal "cardinality" "I64u" "1"] }] }] }] }

/-- The text of the document. -/
def text : String :=
  String.ofList root.print

/-- The kinds of the components that a reading gives. -/
def kinds : Except CompileError (Specification .raw) → List Kind
  | .ok spec => spec.components.toList.map Component.kind
  | .error _ => []

theorem parse_text : Markup.parse text = .ok root :=
  Markup.Element.parse_print (by decide +kernel)

theorem exists_parsed :
    ∃ spec, parse text = .ok spec ∧
      spec.components.toList.map Component.kind =
        [.normalProbability, .csvOutputFormat, .fieldSetter, .elementWiseValueProvider,
          .callbackValueProvider, .clusteredValueProvider, .contextFieldRangeProvider,
          .referenceSetter, .clusteredReferenceProvider, .constRangeProvider, .constEstimator] := by
  have read : kinds (readRoot root) =
      [.normalProbability, .csvOutputFormat, .fieldSetter, .elementWiseValueProvider,
        .callbackValueProvider, .clusteredValueProvider, .contextFieldRangeProvider,
        .referenceSetter, .clusteredReferenceProvider, .constRangeProvider, .constEstimator] := by
    decide +kernel
  rw [parse_eq_readRoot parse_text]
  cases found : readRoot root with
  | ok spec =>
      rw [found] at read
      exact ⟨spec, rfl, read⟩
  | error fault =>
      rw [found] at read
      cases read

end Sample

/-- The sized provider of the sample conforms with the catalogue. -/
theorem sample_conforms :
    ∃ spec, parse Sample.text = .ok spec ∧ ∃ component ∈ spec.components.toList,
      component.kind = .elementWiseValueProvider ∧
        component.Conforms spec.components.toList ∧
        (component.arguments.map Prod.fst).Nodup := by
  obtain ⟨spec, parsed, kinds⟩ := Sample.exists_parsed
  have listed : Kind.elementWiseValueProvider ∈ spec.components.toList.map Component.kind := by
    rw [kinds]
    decide
  obtain ⟨component, member, sort⟩ := List.mem_map.mp listed
  exact ⟨spec, parsed, component, member, sort, parse_conforms parsed component member⟩

end Prototype

end Recordgen

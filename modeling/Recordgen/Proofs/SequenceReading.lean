import Recordgen.Proofs.ComponentReading
import Recordgen.Proofs.WellFormed
import Recordgen.Prototype.Sequence

/-! # What reading the parts of a sequence gives

The output format, the setter chain, the cardinality estimator and the iterator of a random sequence
are read one behind the other. Together they are a forest whose roots are the handles that the
sequence keeps (`readRandomParts_read`). What the sequence adds is `readSequence_adds`.
-/

namespace Recordgen.Prototype

open Markup (Element)
open Outcome

variable {category : Category} {base : Nat} {components : List (Component .raw)}
  {sequence : SequenceId} {place : String} {element : Element} {spec : Specification .raw}

/-- A handle leads to a component of the given category that the sequence owns. -/
def LeadsTo (arena : List (Component .raw)) (category : Category) (sequence : SequenceId)
    (id : ComponentId) : Prop :=
  ∃ component, arena[id.index]? = some component ∧
    component.kind.entry.category = category ∧ component.owner = some sequence

/-- The handles lead to the setters of a chain. -/
def LeadToChain (arena : List (Component .raw)) (sequence : SequenceId) (keys : List String)
    (ids : List ComponentId) : Prop :=
  ∃ setters, List.Forall₂ (fun id setter => arena[id.index]? = some setter) ids setters ∧
    ChainSetters sequence setters ∧ setters.map Component.key = keys

/-- What a reader of components gives, seen from an arena that holds it. -/
theorem Grows.read {read : ComponentReader} (grows : Grows read) {typeText key : String}
    {placement : Placement}
    (succeeded : read category typeText key placement base = .ok components) :
    Grown placement.parent placement.owner base [⟨base⟩] components ∧
      ∀ arena, Located arena base components → ∃ root, arena[base]? = some root ∧
        root.key = key ∧ root.kind.entry.category = category ∧ root.order = placement.order ∧
        root.owner = placement.owner := by
  obtain ⟨grown, root, first, named, sort, placed⟩ := grows _ _ _ _ _ _ succeeded
  refine ⟨grown, fun arena located => ⟨root, ?_, named, sort, placed, ?_⟩⟩
  · rw [List.head?_eq_getElem?] at first
    exact located 0 root first
  · exact grown.owned root (List.mem_of_head? first)

private theorem readOwned_read
    (read : readOwned sequence place category base element = .ok components) :
    Grown none (some sequence) base [⟨base⟩] components ∧
      ∀ arena, Located arena base components → LeadsTo arena category sequence ⟨base⟩ := by
  obtain ⟨typeText, -, read⟩ := bind_eq_ok_iff.mp read
  obtain ⟨grown, rooted⟩ := (componentReader_grows element).read read
  refine ⟨grown, fun arena located => ?_⟩
  obtain ⟨root, present, -, sort, -, owned⟩ := rooted arena located
  exact ⟨root, present, sort, owned⟩

private theorem readOptional_read {id? : Option ComponentId}
    (read : readOptional sequence place category base element = .ok (id?, components)) :
    Grown none (some sequence) base id?.toList components ∧
      ∀ arena, Located arena base components →
        ∀ id ∈ id?, LeadsTo arena category sequence id := by
  unfold readOptional at read
  split at read
  · obtain ⟨rfl, rfl⟩ := Prod.mk.inj (Except.ok.inj read)
    exact ⟨Grown.nil, by simp⟩
  · obtain ⟨nested, found, same⟩ := bind_pure_eq_ok_iff.mp read
    obtain ⟨rfl, rfl⟩ := Prod.mk.inj same
    obtain ⟨grown, leads⟩ := readOwned_read found
    refine ⟨grown, fun arena located id member => ?_⟩
    obtain rfl := Option.some.inj member
    exact leads arena located

/-- A chain under construction, whose components are numbered from `base` on. -/
structure ChainGrown (sequence : SequenceId) (base : Nat) (chain : ChainRead) : Prop where
  grown : Grown none (some sequence) base chain.setters chain.components
  setters : ∀ arena, Located arena base chain.components →
    LeadToChain arena sequence chain.keys chain.setters

private theorem readSetter_grown {chain next : ChainRead}
    (chainGrown : ChainGrown sequence base chain)
    (read : readSetter sequence place base chain element = .ok next) :
    ChainGrown sequence base next := by
  obtain ⟨key, -, read⟩ := bind_eq_ok_iff.mp read
  split at read
  · cases read
  rename_i fresh
  obtain ⟨typeText, -, read⟩ := bind_eq_ok_iff.mp read
  obtain ⟨components, found, rfl⟩ := bind_pure_eq_ok_iff.mp read
  obtain ⟨grown, rooted⟩ := (componentReader_grows element).read found
  refine ⟨chainGrown.grown.append grown, fun arena located => ?_⟩
  obtain ⟨before, behind⟩ := Located.append_iff.mp located
  obtain ⟨setters, leads, shaped, keys⟩ := chainGrown.setters arena before
  obtain ⟨root, present, named, sort, placed, owned⟩ := rooted arena behind
  have long : chain.setters.length = setters.length := leads.length_eq
  refine ⟨setters ++ [root], ?_, ?_, ?_⟩
  · exact List.rel_append leads (.cons present .nil)
  · refine shaped.append ?_ (placed.trans long) owned sort
    rw [keys, named]
    exact fresh
  · rw [List.map_append, keys, List.map_singleton, named]

private theorem readChain_grown {chain : ChainRead}
    (read : readChain sequence place base element = .ok chain) :
    ChainGrown sequence base chain := by
  have empty : ChainGrown sequence base {} :=
    ⟨Grown.nil, fun arena _ => ⟨[], .nil, ⟨rfl, List.nodup_nil, by simp, by simp⟩, rfl⟩⟩
  unfold readChain at read
  split at read
  · obtain rfl := Except.ok.inj read
    exact empty
  · exact foldlM_invariant (ChainGrown sequence base) empty
      (fun _ _ _ _ before step => readSetter_grown before step) read

/-- The parts of a random sequence, seen from an arena that holds them. -/
structure PartsLead (arena : List (Component .raw)) (sequence : RecordSequence) : Prop where
  outputFormat : ∀ id ∈ sequence.outputFormat, LeadsTo arena .outputFormat sequence.id id
  setters : ∃ keys, LeadToChain arena sequence.id keys sequence.setters
  estimator : ∀ id ∈ sequence.estimator, LeadsTo arena .cardinalityEstimator sequence.id id
  sequenceIterator : ∀ id ∈ sequence.sequenceIterator,
    LeadsTo arena .sequenceIterator sequence.id id

/-- What the parts of a random sequence are read as. -/
theorem readRandomParts_read {sequence read : RecordSequence}
    (succeeded : readRandomParts spec sequence place element = .ok (read, components)) :
    read.id = sequence.id ∧ read.key = sequence.key ∧ read.kind = sequence.kind ∧
      read.estimator.isSome = true ∧
      Grown none (some sequence.id) spec.components.size read.roots components ∧
      ∀ arena, Located arena spec.components.size components → PartsLead arena read := by
  obtain ⟨⟨format, formatRead⟩, formatFound, succeeded⟩ := bind_eq_ok_iff.mp succeeded
  obtain ⟨chain, chainFound, succeeded⟩ := bind_eq_ok_iff.mp succeeded
  split at succeeded
  rotate_left
  · cases succeeded
  obtain ⟨estimatorRead, estimatorFound, succeeded⟩ := bind_eq_ok_iff.mp succeeded
  obtain ⟨⟨iterator, iteratorRead⟩, iteratorFound, same⟩ := bind_pure_eq_ok_iff.mp succeeded
  obtain ⟨rfl, rfl⟩ := Prod.mk.inj same
  obtain ⟨formatGrown, formatLeads⟩ := readOptional_read formatFound
  have chainGrown := readChain_grown chainFound
  obtain ⟨estimatorGrown, estimatorLeads⟩ := readOwned_read estimatorFound
  obtain ⟨iteratorGrown, iteratorLeads⟩ := readOptional_read iteratorFound
  refine ⟨rfl, rfl, rfl, rfl, ?_, fun arena located => ?_⟩
  · refine ((formatGrown.append chainGrown.grown).append ?_).append ?_
    · simpa [Nat.add_assoc] using estimatorGrown
    · simpa [Nat.add_assoc] using iteratorGrown
  · obtain ⟨located, iteratorAt⟩ := Located.append_iff.mp located
    obtain ⟨located, estimatorAt⟩ := Located.append_iff.mp located
    obtain ⟨formatAt, chainAt⟩ := Located.append_iff.mp located
    simp only [List.length_append, ← Nat.add_assoc] at estimatorAt iteratorAt
    refine ⟨formatLeads arena formatAt, ⟨_, chainGrown.setters arena chainAt⟩, ?_,
      iteratorLeads arena iteratorAt⟩
    intro id member
    obtain rfl := Option.some.inj member
    exact estimatorLeads arena estimatorAt

/-- A sequence with the given key is read from an element together with its components. -/
inductive PartsRead (spec : Specification .raw) (element : Element) (key : String) :
    RecordSequence → List (Component .raw) → Prop
  | random {sequence : RecordSequence} {components : List (Component .raw)}
      (sort : element.name = "random_sequence")
      (typed : (element.child? "record_type").isSome = true)
      (parts : readRandomParts spec { id := ⟨spec.sequences.size⟩, key := key, kind := .random }
        s!"record sequence '{key}'" element = .ok (sequence, components)) :
      PartsRead spec element key sequence components
  | unsupported (other : element.name ≠ "random_sequence") : PartsRead spec element key
      { id := ⟨spec.sequences.size⟩, key := key, kind := .unsupported element.name } []

/-- What a sequence element adds to a specification. -/
theorem readSequence_adds {next : Specification .raw}
    (read : readSequence spec element = .ok next) :
    ∃ key fields references sequence components,
      element.required "key" "record_sequences" = .ok key ∧
      ¬(spec.sequenceByKey? key).isSome = true ∧
      readRecordType spec.enumSets key ⟨spec.sequences.size⟩ spec.fields.size spec.references.size
        ((element.child? "record_type").getD {}) = .ok (fields, references) ∧
      PartsRead spec element key sequence components ∧
      next = addSequence spec sequence fields references components := by
  obtain ⟨key, keyed, read⟩ := bind_eq_ok_iff.mp read
  by_cases used : (spec.sequenceByKey? key).isSome = true
  · simp only [if_pos used] at read
    split at read <;> cases read
  simp only [if_neg used] at read
  by_cases sort : element.name = "random_sequence"
  · simp only [if_pos sort] at read
    split at read
    rotate_left
    · cases read
    rename_i typed
    obtain ⟨⟨fields, references⟩, record, read⟩ := bind_eq_ok_iff.mp read
    obtain ⟨⟨sequence, components⟩, parts, rfl⟩ := bind_pure_eq_ok_iff.mp read
    have given : (element.child? "record_type").isSome = true := by rw [typed]; rfl
    exact ⟨key, fields, references, sequence, components, keyed, used, by rw [typed]; exact record,
      .random sort given parts, rfl⟩
  · simp only [if_neg sort] at read
    obtain ⟨⟨fields, references⟩, record, rfl⟩ := bind_pure_eq_ok_iff.mp read
    exact ⟨key, fields, references, _, [], keyed, used, record, .unsupported sort, rfl⟩

end Recordgen.Prototype

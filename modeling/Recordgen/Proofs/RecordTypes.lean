import Recordgen.Proofs.LinkTargets

/-! # Record types of a parsed document

What every accepted document guarantees about its record sequences, those of an unsupported kind
included: keys and names are not used twice, the identifier leads the fields, order keys are
positions, enumeration fields name an enumeration of the document, and only random sequences own
components (`RecordSequence.Regular`, `Specification.Regular`). The reading of a document keeps more
than this (`Specification.WellFormed`), from which it is derived here (`Prototype.parse_regular`).
-/

namespace Recordgen

variable {phase : Phase}

/-- The record type of a sequence and its setter chain are in order. -/
structure RecordSequence.Regular (spec : Specification phase) (sequence : RecordSequence) :
    Prop where
  fieldsPresent : ∀ id ∈ sequence.fields, spec.fields[id.index]? = some (spec.field id)
  referencesPresent : ∀ id ∈ sequence.references,
    spec.references[id.index]? = some (spec.reference id)
  settersPresent : ∀ id ∈ sequence.setters, spec.components[id.index]? = some (spec.component id)
  /-- Fields and references share one set of names. -/
  names : (sequence.fields.map (fun id => (spec.field id).name) ++
    sequence.references.map (fun id => (spec.reference id).name)).Nodup
  identifier : ∃ first rest, sequence.fields = first :: rest ∧
    (spec.field first).name = "gen_id" ∧ (spec.field first).type = .scalar .i64u ∧
    (spec.field first).implicit = true ∧ (spec.field first).derived = false ∧
    (spec.field first).order = 0 ∧ ∀ id ∈ rest, (spec.field id).implicit = false
  fieldOrders : ∀ (position : Nat) (id : FieldId), sequence.fields[position]? = some id →
    (spec.field id).order = position
  referenceOrders : ∀ (position : Nat) (id : ReferenceId),
    sequence.references[position]? = some id → (spec.reference id).order = position
  setterOrders : ∀ (position : Nat) (id : ComponentId), sequence.setters[position]? = some id →
    (spec.component id).order = position
  setterKeys : (sequence.setters.map fun id => (spec.component id).key).Nodup
  /-- Exactly the fields with a single enumeration value have an enumeration. -/
  enumerated : ∀ id ∈ sequence.fields,
    (spec.field id).type = .scalar .enum ↔ ∃ key, (spec.field id).enumSet = some key
  enumerations : ∀ id ∈ sequence.fields, ∀ key, (spec.field id).enumSet = some key →
    ∃ component, spec.enumSets.get? key = some component
  estimated : sequence.kind = .random → ∃ id, sequence.estimator = some id ∧
    spec.HasRoot .cardinalityEstimator (some sequence.id) id
  /-- A sequence of an unsupported kind owns no component, be it a root or nested. -/
  unsupported : sequence.kind ≠ .random → sequence.roots = [] ∧
    ∀ component ∈ spec.components.toList, component.owner ≠ some sequence.id

/-- All sequences of a specification are in order, and they list all fields, references and
setters. -/
structure Specification.Regular (spec : Specification phase) : Prop where
  keys : (spec.sequences.toList.map RecordSequence.key).Nodup
  fieldsListed : spec.sequences.toList.flatMap RecordSequence.fields =
    spec.fields.toList.map Field.id
  referencesListed : spec.sequences.toList.flatMap RecordSequence.references =
    spec.references.toList.map Reference.id
  settersListed : ∀ component ∈ spec.components.toList,
    component.kind.entry.category = .setter →
      ∃ sequence ∈ spec.sequences.toList, component.id ∈ sequence.setters
  sequences : ∀ sequence ∈ spec.sequences.toList, sequence.Regular spec

/-- Values whose order keys count up from zero have their positions as order keys. -/
theorem order_of_position {α ι : Type} {value : ι → α} {order : α → Nat} {ids : List ι}
    (orders : (ids.map value).map order = List.range (ids.map value).length) (position : Nat)
    (id : ι) (present : ids[position]? = some id) : order (value id) = position := by
  obtain ⟨inside, rfl⟩ := List.getElem?_eq_some_iff.mp present
  have here := congrArg (fun keys => keys[position]?) orders
  simpa [inside] using here

namespace Specification.WellFormed

variable {spec : Specification phase} {sequence : RecordSequence}

section

variable (wellFormed : spec.WellFormed) (member : sequence ∈ spec.sequences.toList)

include wellFormed member

/-- The names of a record are distinct, looked up through its handles. -/
theorem names_nodup :
    (sequence.fields.map (fun id => (spec.field id).name) ++
      sequence.references.map (fun id => (spec.reference id).name)).Nodup := by
  obtain ⟨fields, references, leadFields, leadReferences, -, -, distinct⟩ :=
    (wellFormed.sequences sequence member).record
  rw [← map_eq_of_forall₂ (leadFields.imp fun _ _ => field_eq),
    ← map_eq_of_forall₂ (leadReferences.imp fun _ _ => reference_eq), List.map_map,
    List.map_map] at distinct
  exact distinct

/-- The identifier leads the fields of a record. -/
theorem identifier :
    ∃ first rest, sequence.fields = first :: rest ∧
      (spec.field first).name = implicitFieldName ∧ (spec.field first).type = .scalar .i64u ∧
      (spec.field first).implicit = true ∧ (spec.field first).derived = false ∧
      ∀ id ∈ rest, (spec.field id).implicit = false := by
  obtain ⟨lead, others, listed, implicit, named, typed, stored, explicit⟩ :=
    (wellFormed.record member).1.identifier
  obtain ⟨first, rest, split, rfl, rfl⟩ := List.map_eq_cons_iff.mp listed
  exact ⟨first, rest, split, named, typed, implicit, stored,
    fun id inside => explicit _ (List.mem_map_of_mem inside)⟩

/-- A sequence of an unsupported kind owns no component. -/
theorem owner_ne_of_unsupported (other : sequence.kind ≠ .random)
    {component : Component phase} (present : component ∈ spec.components.toList) :
    component.owner ≠ some sequence.id := by
  intro owned
  obtain ⟨holder, listed, same, root, top, -⟩ := wellFormed.exists_root_of_owner present owned
  obtain rfl := wellFormed.eq_of_id listed member same
  rw [(wellFormed.sequences holder listed).unsupported other] at top
  cases top

private theorem regular_sequence : sequence.Regular spec where
  fieldsPresent id listed := by
    rw [← wellFormed.sequence_id member] at listed
    exact (wellFormed.field_of_listed listed).1
  referencesPresent id listed := by
    rw [← wellFormed.sequence_id member] at listed
    exact (wellFormed.reference_of_listed listed).1
  settersPresent id listed := (wellFormed.component_of_setter member listed).1
  names := wellFormed.names_nodup member
  identifier := by
    obtain ⟨first, rest, split, named, typed, implicit, stored, explicit⟩ :=
      wellFormed.identifier member
    have leads : sequence.fields[0]? = some first := by rw [split]; rfl
    exact ⟨first, rest, split, named, typed, implicit, stored,
      order_of_position (wellFormed.record member).1.orders 0 first leads, explicit⟩
  fieldOrders := order_of_position (wellFormed.record member).1.orders
  referenceOrders := order_of_position (wellFormed.record member).2.orders
  setterOrders := order_of_position (wellFormed.chain member).orders
  setterKeys := by
    have distinct := (wellFormed.chain member).keys
    rwa [List.map_map] at distinct
  enumerated id listed := by
    have agree := ((wellFormed.record member).1.enumSets _ (List.mem_map_of_mem listed)).1
    rw [← Option.isSome_iff_exists, agree, FieldType.isEnum, beq_iff_eq]
  enumerations id listed key named := by
    have known := ((wellFormed.record member).1.enumSets _ (List.mem_map_of_mem listed)).2 key named
    exact Option.isSome_iff_exists.mp known
  estimated kind := by
    have shaped := wellFormed.sequences sequence member
    obtain ⟨id, found⟩ := Option.isSome_iff_exists.mp (shaped.estimated kind)
    exact ⟨id, found, shaped.estimator id found⟩
  unsupported other := ⟨(wellFormed.sequences sequence member).unsupported other,
    fun _ present => wellFormed.owner_ne_of_unsupported member other present⟩

end

end Specification.WellFormed

namespace Prototype

open Markup (Element)

/-- **The record types of an accepted document are in order.** -/
theorem parse_regular {text : String} {spec : Specification .raw} (parsed : parse text = .ok spec) :
    spec.Regular := by
  have wellFormed := (parse_assembled parsed).wellFormed
  exact ⟨wellFormed.sequenceKeys, wellFormed.fieldsListed, wellFormed.referencesListed,
    fun _ present sort => wellFormed.exists_sequence_of_setter present sort,
    fun _ member => wellFormed.regular_sequence member⟩

namespace Sample

/-- A document with an enumeration, two setters and a sequence of an unsupported kind. -/
def enumeratedRoot : Element :=
  { name := rootName
    children := [
      { name := "enum_sets"
        children := [{ name := "enum_set"
                       attributes := [("key", "e")]
                       children := [literal "path" "String" "e.csv"] }] },
      { name := "record_sequences"
        children := [
          { name := "hydrated_sequence"
            attributes := [("key", "h")]
            children := [
              { name := "record_type"
                children := [
                  { name := "field"
                    attributes := [("name", "c"), ("type", "Enum"), ("enumref", "e")] }] },
              { name := "setter_chain", children := [referenceSetter] }] },
          { name := "random_sequence"
            attributes := [("key", "r")]
            children := [
              { name := "record_type"
                children := [
                  { name := "field", attributes := [("name", "c"), ("type", "Enum[2]")] },
                  { name := "field", attributes := [("name", "a"), ("type", "I32")] },
                  { name := "reference", attributes := [("name", "p"), ("type", "h")] }] },
              { name := "setter_chain"
                children := [
                  referenceSetter,
                  keyed "setter" "s" "field_setter" [
                    link "field" "a",
                    nested "value" "const_value_provider[I32]" [literal "value" "I32" "0"]]] },
              { name := "cardinality_estimator"
                attributes := [("type", "const_estimator")]
                children := [literal "cardinality" "I64u" "1"] }] }] }] }

/-- The text of the document. -/
def enumeratedText : String :=
  String.ofList enumeratedRoot.print

/-- The fields and references of the sequences that a reading gives, with the enumerations of the
fields and the number of setters. -/
def recordTypes : Except CompileError (Specification .raw) →
    List (String × List (String × Option String) × List String × Nat)
  | .ok spec => spec.sequences.toList.map fun sequence =>
      (sequence.key, sequence.fields.map (fun id => ((spec.field id).name, (spec.field id).enumSet)),
        sequence.references.map (fun id => (spec.reference id).name), sequence.setters.length)
  | .error _ => []

private theorem parse_enumeratedText : Markup.parse enumeratedText = .ok enumeratedRoot :=
  Markup.Element.parse_print (by decide +kernel)

end Sample

/-- An unsupported sequence with an enumeration field, whose setter chain is not read, in front of
a random sequence. -/
theorem enumerated_regular :
    ∃ spec, parse Sample.enumeratedText = .ok spec ∧ spec.Regular ∧
      Sample.recordTypes (.ok spec) =
        [("h", [("gen_id", none), ("c", some "e")], [], 0),
          ("r", [("gen_id", none), ("c", none), ("a", none)], ["p"], 2)] := by
  have read : Sample.recordTypes (readRoot Sample.enumeratedRoot) =
      [("h", [("gen_id", none), ("c", some "e")], [], 0),
        ("r", [("gen_id", none), ("c", none), ("a", none)], ["p"], 2)] := by
    decide +kernel
  have same := parse_eq_readRoot Sample.parse_enumeratedText
  cases found : readRoot Sample.enumeratedRoot with
  | ok spec =>
      rw [found] at read
      have parsed := same.trans found
      exact ⟨spec, parsed, parse_regular parsed, read⟩
  | error fault =>
      rw [found] at read
      cases read

end Prototype

end Recordgen

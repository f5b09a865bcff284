import Recordgen.Proofs.Renaming

/-! # Reading the same element somewhere else

Where an element stands in a document decides which handles its parts get, and nothing else. If it is
read at one place, it is read at another one too, with the same result up to its handles
(`componentReader_shifts`, `readRecordType_shifts`, `readSequence_shifts`).
-/

namespace Recordgen.Prototype

open Markup (Element)
open Outcome

variable {new : Renaming} {base other : Nat} {around : Surroundings} {item : ItemKind}
  {nested : List (Component .raw)} {supplied : List Candidate} {spec : Specification .raw}
  {element : Element}

/-- The handles from one position on become those from another one on. -/
def Moves {ι : Type} (rename : ι → ι) (make : Nat → ι) (base other : Nat) : Prop :=
  ∀ offset, rename (make (base + offset)) = make (other + offset)

theorem Moves.first {ι : Type} {rename : ι → ι} {make : Nat → ι}
    (moves : Moves rename make base other) : rename (make base) = make other :=
  moves 0

/-- A shift goes on behind any number of parts. -/
theorem Moves.skip {ι : Type} {rename : ι → ι} {make : Nat → ι}
    (moves : Moves rename make base other) (length : Nat) :
    Moves rename make (base + length) (other + length) := by
  intro offset
  rw [Nat.add_assoc, Nat.add_assoc]
  exact moves _

section Parts

variable (new : Renaming)

def Placement.rename (placement : Placement) : Placement :=
  { placement with
    parent := placement.parent.map new.component
    owner := placement.owner.map new.sequence }

def Surroundings.rename (around : Surroundings) : Surroundings :=
  { around with
    component := new.component around.component
    owner := around.owner.map new.sequence }

def ArgumentRead.rename (read : ArgumentRead) : ArgumentRead :=
  ⟨read.argument.rename new, read.nested.map (Component.rename new)⟩

private theorem ArgumentRead.length_rename (read : ArgumentRead) :
    (read.rename new).nested.length = read.nested.length :=
  List.length_map _

def ChainRead.rename (chain : ChainRead) : ChainRead :=
  { chain with
    setters := chain.setters.map new.component
    components := chain.components.map (Component.rename new) }

end Parts

/-- What a reader of components gives depends on the place up to handles. -/
def Shifts (read : ComponentReader) : Prop :=
  ∀ (new : Renaming) category typeText key placement base other components,
    Moves new.component ComponentId.mk base other → read category typeText key placement base = .ok components →
      read category typeText key (placement.rename new) other =
        .ok (components.map (Component.rename new))

private theorem readItem_shifts {key : String} {candidate : Candidate} {read : ArgumentRead}
    (shifts : Shifts candidate.read) (moves : Moves new.component ComponentId.mk base other)
    (succeeded : readItem around key item base candidate = .ok read) :
    readItem (around.rename new) key item other candidate = .ok (read.rename new) := by
  cases item with
  | literal | fieldRef | referenceRef | functionRef =>
      obtain ⟨value, found, rfl⟩ := bind_pure_eq_ok_iff.mp succeeded
      exact bind_eq_ok_iff.mpr ⟨value, found, rfl⟩
  | nested category =>
      obtain ⟨typeText, typed, succeeded⟩ := bind_eq_ok_iff.mp succeeded
      obtain ⟨nested, found, rfl⟩ := bind_pure_eq_ok_iff.mp succeeded
      have again := shifts new _ _ _ _ _ other _ moves found
      refine bind_eq_ok_iff.mpr ⟨typeText, typed, bind_eq_ok_iff.mpr ⟨_, again, ?_⟩⟩
      rw [← moves.first]
      rfl

private theorem readItems_shifts {key : String} {given : List Candidate}
    {items : List (Argument .raw)} (shifts : ∀ candidate ∈ given, Shifts candidate.read)
    (moves : Moves new.component ComponentId.mk base other)
    (succeeded : readItems around key item base given = .ok (items, nested)) :
    readItems (around.rename new) key item other given =
      .ok (items.map (Argument.rename new), nested.map (Component.rename new)) := by
  induction given generalizing base other items nested with
  | nil =>
      obtain ⟨rfl, rfl⟩ := Prod.mk.inj (pure_eq_ok_iff.mp succeeded)
      rfl
  | cons candidate given ih =>
      obtain ⟨first, here, succeeded⟩ := bind_eq_ok_iff.mp succeeded
      obtain ⟨⟨others, inside⟩, later, same⟩ := bind_pure_eq_ok_iff.mp succeeded
      obtain ⟨rfl, rfl⟩ := Prod.mk.inj same
      have head := readItem_shifts (shifts candidate List.mem_cons_self) moves here
      have rest := ih (fun candidate member => shifts candidate (List.mem_cons_of_mem _ member))
        (moves.skip first.nested.length) later
      rw [← first.length_rename new] at rest
      refine bind_eq_ok_iff.mpr ⟨_, head, bind_eq_ok_iff.mpr ⟨_, rest, ?_⟩⟩
      rw [List.map_append]
      rfl

private theorem readEntry_shifts {entry : SchemaEntry} {result : Option ArgumentRead}
    (shifts : ∀ candidate ∈ supplied, Shifts candidate.read)
    (moves : Moves new.component ComponentId.mk base other)
    (succeeded : readEntry around supplied base entry = .ok result) :
    readEntry (around.rename new) supplied other entry =
      .ok (result.map (ArgumentRead.rename new)) := by
  have chosen : ∀ candidate ∈ supplied.filter fun candidate => candidate.hasKey entry.key,
      Shifts candidate.read :=
    fun candidate member => shifts candidate (List.mem_filter.mp member).1
  simp only [readEntry] at succeeded ⊢
  split at succeeded
  · split at succeeded
    · rename_i default
      obtain ⟨literal, found, rfl⟩ := bind_pure_eq_ok_iff.mp succeeded
      exact bind_eq_ok_iff.mpr ⟨literal, found, rfl⟩
    · split at succeeded
      · rename_i leftOut
        obtain rfl := pure_eq_ok_iff.mp succeeded
        rw [if_pos leftOut]
        rfl
      · cases succeeded
  · rename_i item candidate kind given
    obtain ⟨read, found, same⟩ := map_eq_ok_iff.mp succeeded
    obtain rfl := same
    have again := readItem_shifts (chosen candidate (given ▸ List.mem_singleton.mpr rfl)) moves found
    exact map_eq_ok_iff.mpr ⟨_, again, rfl⟩
  · cases succeeded
  · split at succeeded
    · rename_i leftOut
      obtain rfl := pure_eq_ok_iff.mp succeeded
      rw [if_pos leftOut]
      rfl
    · cases succeeded
  · obtain ⟨⟨items, nested⟩, found, rfl⟩ := bind_pure_eq_ok_iff.mp succeeded
    have again := readItems_shifts chosen moves found
    refine bind_eq_ok_iff.mpr ⟨_, again, ?_⟩
    rw [← Argument.renameAll_eq_map]
    rfl

private theorem readEntries_shifts {schema : List SchemaEntry}
    {arguments : List (String × Argument .raw)}
    (shifts : ∀ candidate ∈ supplied, Shifts candidate.read)
    (moves : Moves new.component ComponentId.mk base other)
    (succeeded : readEntries around supplied base schema = .ok (arguments, nested)) :
    readEntries (around.rename new) supplied other schema =
      .ok (arguments.map fun entry => (entry.1, entry.2.rename new),
        nested.map (Component.rename new)) := by
  induction schema generalizing base other arguments nested with
  | nil =>
      obtain ⟨rfl, rfl⟩ := Prod.mk.inj (pure_eq_ok_iff.mp succeeded)
      rfl
  | cons entry schema ih =>
      obtain ⟨result, here, succeeded⟩ := bind_eq_ok_iff.mp succeeded
      have head := readEntry_shifts shifts moves here
      cases result with
      | none => exact bind_eq_ok_iff.mpr ⟨none, head, ih moves succeeded⟩
      | some first =>
          obtain ⟨⟨others, inside⟩, later, same⟩ := bind_pure_eq_ok_iff.mp succeeded
          obtain ⟨rfl, rfl⟩ := Prod.mk.inj same
          have rest := ih (moves.skip first.nested.length) later
          rw [← first.length_rename new] at rest
          refine bind_eq_ok_iff.mpr ⟨some (first.rename new), head,
            bind_eq_ok_iff.mpr ⟨_, rest, ?_⟩⟩
          rw [List.map_append]
          rfl

/-- Sizes are checked against collections, whose lengths do not change. -/
theorem checkSizes_rename {component : Component .raw} (checked : checkSizes component = .ok ()) :
    checkSizes (component.rename new) = .ok () := by
  refine forM_eq_ok_iff.mpr fun parameter listed => ?_
  have passed := forM_eq_ok_iff.mp checked parameter listed
  cases parameter with
  | literal name => rfl
  | size name =>
      have same : (component.rename new).sizeParameter? name = component.sizeParameter? name := rfl
      simp only [same] at passed ⊢
      split at passed
      · refine forM_eq_ok_iff.mpr fun entry present => ?_
        obtain ⟨⟨key, argument⟩, inside, rfl⟩ := List.mem_map.mp present
        have fitting := forM_eq_ok_iff.mp passed _ inside
        cases argument with
        | collection items =>
            simp only [Argument.rename, Argument.renameAll_eq_map, checkCollectionSize,
              List.length_map] at fitting ⊢
            split at fitting
            · rename_i long
              rw [if_pos long]
            · cases fitting
        | literal | fieldRef | referenceRef | functionRef | component => rfl
      · rfl

private theorem readComponent_shifts {children : List Candidate}
    (shifts : ∀ candidate ∈ children, Shifts candidate.read) : Shifts (readComponent children) := by
  intro new category typeText key placement base other components moves succeeded
  obtain ⟨found, dispatched, succeeded⟩ := bind_eq_ok_iff.mp succeeded
  obtain ⟨_, keyed, succeeded⟩ := bind_eq_ok_iff.mp succeeded
  obtain ⟨⟨arguments, nested⟩, read, succeeded⟩ := bind_eq_ok_iff.mp succeeded
  obtain ⟨_, sized, rfl⟩ := bind_pure_eq_ok_iff.mp succeeded
  have again := readEntries_shifts
    (fun candidate member => shifts candidate (List.mem_filter.mp member).1) (moves.skip 1) read
  have checked : checkSizes (Component.rename new _) = .ok () := checkSizes_rename sized
  simp only [Component.rename, moves.first] at checked
  rw [Surroundings.rename, moves.first] at again
  refine bind_eq_ok_iff.mpr ⟨found, dispatched, bind_eq_ok_iff.mpr ⟨_, keyed,
    bind_eq_ok_iff.mpr ⟨_, again, bind_eq_ok_iff.mpr ⟨_, checked, ?_⟩⟩⟩⟩
  rw [List.map_cons, Component.rename, moves.first]
  rfl

mutual

/-- **A component is read at every place in the same way.** -/
theorem componentReader_shifts : (element : Element) → Shifts (componentReader element)
  | ⟨_, _, children⟩ => readComponent_shifts (candidates_shift children)

private theorem candidates_shift : (elements : List Element) →
    ∀ candidate ∈ candidates elements, Shifts candidate.read
  | [], _, member => by cases member
  | element :: rest, candidate, member => by
      rw [candidates] at member
      rcases List.mem_cons.mp member with rfl | member
      · exact componentReader_shifts element
      · exact candidates_shift rest candidate member

end

section Record

variable {enumSets : KeyMap ComponentId} {place : String} {owner : SequenceId} {base other : Nat}
  {names : List String} {element : Element} {elements : List Element} {fields : List Field}
  {references : List (Reference .raw)}

private theorem readField_shifts {id : FieldId} {order : Nat} {field : Field}
    (read : readField enumSets place owner names id order element = .ok field) :
    readField enumSets place (new.sequence owner) names (new.field id) order element =
      .ok (field.rename new) := by
  obtain ⟨name, named, read⟩ := bind_eq_ok_iff.mp read
  refine bind_eq_ok_iff.mpr ⟨name, named, ?_⟩
  split at read
  · cases read
  rename_i fresh
  obtain ⟨typeText, written, read⟩ := bind_eq_ok_iff.mp read
  obtain ⟨type, typed, read⟩ := bind_eq_ok_iff.mp read
  obtain ⟨derived, flagged, read⟩ := bind_eq_ok_iff.mp read
  obtain ⟨enumSet, enumerated, rfl⟩ := bind_pure_eq_ok_iff.mp read
  rw [if_neg fresh]
  exact bind_eq_ok_iff.mpr ⟨typeText, written, bind_eq_ok_iff.mpr ⟨type, typed,
    bind_eq_ok_iff.mpr ⟨derived, flagged, bind_eq_ok_iff.mpr ⟨enumSet, enumerated, rfl⟩⟩⟩⟩

private theorem readFields_shifts {before : List Field}
    (moves : Moves new.field FieldId.mk base other)
    (read : readFields enumSets place owner base before elements = .ok fields) :
    readFields enumSets place (new.sequence owner) other (before.map (Field.rename new)) elements =
      .ok (fields.map (Field.rename new)) := by
  induction elements generalizing before with
  | nil =>
      obtain rfl := Except.ok.inj read
      rfl
  | cons element elements ih =>
      obtain ⟨field, here, later⟩ := bind_eq_ok_iff.mp read
      have head : readField enumSets place (new.sequence owner) _ _ _ element = _ :=
        readField_shifts here
      have rest := ih later
      rw [moves] at head
      rw [List.map_append, List.map_singleton] at rest
      have names : (before.map (Field.rename new)).map Field.name = before.map Field.name := by
        rw [List.map_map]
        rfl
      refine bind_eq_ok_iff.mpr ⟨_, ?_, rest⟩
      rw [names, List.length_map]
      exact head

private theorem readReference_shifts {id : ReferenceId} {order : Nat} {reference : Reference .raw}
    (read : readReference place owner names id order element = .ok reference) :
    readReference place (new.sequence owner) names (new.reference id) order element =
      .ok (reference.rename new) := by
  obtain ⟨name, named, read⟩ := bind_eq_ok_iff.mp read
  refine bind_eq_ok_iff.mpr ⟨name, named, ?_⟩
  split at read
  · cases read
  rename_i fresh
  obtain ⟨target, written, rfl⟩ := bind_pure_eq_ok_iff.mp read
  rw [if_neg fresh]
  exact bind_eq_ok_iff.mpr ⟨target, written, rfl⟩

private theorem readReferences_shifts {fieldNames : List String} {before : List (Reference .raw)}
    (moves : Moves new.reference ReferenceId.mk base other)
    (read : readReferences place owner fieldNames base before elements = .ok references) :
    readReferences place (new.sequence owner) fieldNames other (before.map (Reference.rename new))
      elements = .ok (references.map (Reference.rename new)) := by
  induction elements generalizing before with
  | nil =>
      obtain rfl := Except.ok.inj read
      rfl
  | cons element elements ih =>
      obtain ⟨reference, here, later⟩ := bind_eq_ok_iff.mp read
      have head : readReference place (new.sequence owner) _ _ _ element = _ :=
        readReference_shifts here
      have rest := ih later
      rw [moves] at head
      rw [List.map_append, List.map_singleton] at rest
      have names : (before.map (Reference.rename new)).map Reference.name =
          before.map Reference.name := by
        rw [List.map_map]
        rfl
      refine bind_eq_ok_iff.mpr ⟨_, ?_, rest⟩
      rw [names, List.length_map]
      exact head

/-- A record type is read alike at other positions. -/
theorem readRecordType_shifts {key : String}
    {fieldBase referenceBase otherField otherReference : Nat}
    (fieldsMove : Moves new.field FieldId.mk fieldBase otherField)
    (referencesMove : Moves new.reference ReferenceId.mk referenceBase otherReference)
    (read : readRecordType enumSets key owner fieldBase referenceBase element =
      .ok (fields, references)) :
    readRecordType enumSets key (new.sequence owner) otherField otherReference element =
      .ok (fields.map (Field.rename new), references.map (Reference.rename new)) := by
  obtain ⟨fields, fieldsRead, read⟩ := bind_eq_ok_iff.mp read
  obtain ⟨references, referencesRead, same⟩ := bind_pure_eq_ok_iff.mp read
  obtain ⟨rfl, rfl⟩ := Prod.mk.inj same
  have first := readFields_shifts fieldsMove fieldsRead
  have second := readReferences_shifts referencesMove referencesRead
  have implicit : (implicitField ⟨fieldBase⟩ owner).rename new =
      implicitField ⟨otherField⟩ (new.sequence owner) := by
    rw [Field.rename, implicitField, implicitField, fieldsMove.first]
    rfl
  have names : (fields.map (Field.rename new)).map Field.name = fields.map Field.name := by
    rw [List.map_map]
    rfl
  rw [List.map_singleton, implicit] at first
  rw [← names] at second
  exact bind_eq_ok_iff.mpr ⟨_, first, bind_eq_ok_iff.mpr ⟨_, second, rfl⟩⟩

end Record

section Sequence

variable {sequence : SequenceId} {place : String} {base other : Nat} {element : Element}
  (moves : Moves new.component ComponentId.mk base other) {category : Category}
  {components : List (Component .raw)} {chain : ChainRead}

include moves

private theorem readOwned_shifts
    (read : readOwned sequence place category base element = .ok components) :
    readOwned (new.sequence sequence) place category other element =
      .ok (components.map (Component.rename new)) := by
  obtain ⟨typeText, typed, read⟩ := bind_eq_ok_iff.mp read
  exact bind_eq_ok_iff.mpr ⟨typeText, typed,
    componentReader_shifts element new _ _ _ _ _ other _ moves read⟩

private theorem readOptional_shifts {id? : Option ComponentId}
    (read : readOptional sequence place category base element = .ok (id?, components)) :
    readOptional (new.sequence sequence) place category other element =
      .ok (id?.map new.component, components.map (Component.rename new)) := by
  unfold readOptional at read ⊢
  split at read
  · obtain ⟨rfl, rfl⟩ := Prod.mk.inj (Except.ok.inj read)
    rfl
  · obtain ⟨nested, found, same⟩ := bind_pure_eq_ok_iff.mp read
    obtain ⟨rfl, rfl⟩ := Prod.mk.inj same
    refine bind_eq_ok_iff.mpr ⟨_, readOwned_shifts moves found, ?_⟩
    rw [Option.map_some, moves.first]
    rfl

private theorem readSetter_shifts {next : ChainRead}
    (read : readSetter sequence place base chain element = .ok next) :
    readSetter (new.sequence sequence) place other (chain.rename new) element =
      .ok (next.rename new) := by
  obtain ⟨key, keyed, read⟩ := bind_eq_ok_iff.mp read
  refine bind_eq_ok_iff.mpr ⟨key, keyed, ?_⟩
  split at read
  · cases read
  rename_i fresh
  obtain ⟨typeText, typed, read⟩ := bind_eq_ok_iff.mp read
  obtain ⟨components, found, rfl⟩ := bind_pure_eq_ok_iff.mp read
  have behind := moves.skip chain.components.length
  have again := componentReader_shifts element new _ _ _ _ _ _ _ behind found
  have kept : (chain.rename new).keys = chain.keys := rfl
  rw [kept, if_neg fresh]
  simp only [ChainRead.rename, List.length_map]
  refine bind_eq_ok_iff.mpr ⟨typeText, typed, bind_eq_ok_iff.mpr ⟨_, again, ?_⟩⟩
  rw [List.map_append, List.map_append, List.map_singleton, behind.first]
  rfl

private theorem readChain_shifts (read : readChain sequence place base element = .ok chain) :
    readChain (new.sequence sequence) place other element = .ok (chain.rename new) := by
  unfold readChain at read ⊢
  split at read
  · obtain rfl := Except.ok.inj read
    rfl
  · rename_i child _
    have start : ({} : ChainRead) = ChainRead.rename new {} := rfl
    rw [start]
    generalize ({} : ChainRead) = before at read
    generalize child.childrenNamed "setter" = setters at read
    induction setters generalizing before with
    | nil =>
        obtain rfl := pure_eq_ok_iff.mp read
        rfl
    | cons setter setters ih =>
        rw [List.foldlM_cons] at read ⊢
        obtain ⟨next, here, later⟩ := bind_eq_ok_iff.mp read
        exact bind_eq_ok_iff.mpr ⟨_, readSetter_shifts moves here, ih next later⟩

end Sequence

/-- The handles behind one specification become those behind another one. -/
structure Aligned (new : Renaming) (spec other : Specification .raw) : Prop where
  enumSets : other.enumSets = spec.enumSets
  sequence : new.sequence ⟨spec.sequences.size⟩ = ⟨other.sequences.size⟩
  fields : Moves new.field FieldId.mk spec.fields.size other.fields.size
  references : Moves new.reference ReferenceId.mk spec.references.size other.references.size
  components : Moves new.component ComponentId.mk spec.components.size other.components.size

private theorem readRandomParts_shifts {other : Specification .raw}
    (aligned : Aligned new spec other) {sequence read : RecordSequence} {place : String}
    {components : List (Component .raw)}
    (succeeded : readRandomParts spec sequence place element = .ok (read, components)) :
    readRandomParts other (sequence.rename new) place element =
      .ok (read.rename new, components.map (Component.rename new)) := by
  obtain ⟨⟨format, formatRead⟩, formatFound, succeeded⟩ := bind_eq_ok_iff.mp succeeded
  obtain ⟨chain, chainFound, succeeded⟩ := bind_eq_ok_iff.mp succeeded
  split at succeeded
  rotate_left
  · cases succeeded
  rename_i estimated
  obtain ⟨estimatorRead, estimatorFound, succeeded⟩ := bind_eq_ok_iff.mp succeeded
  obtain ⟨⟨iterator, iteratorRead⟩, iteratorFound, same⟩ := bind_pure_eq_ok_iff.mp succeeded
  obtain ⟨rfl, rfl⟩ := Prod.mk.inj same
  -- Each part is read right behind the one before, here and there.
  have toChain := aligned.components.skip formatRead.length
  have toEstimator := toChain.skip chain.components.length
  have toIterator := toEstimator.skip estimatorRead.length
  have first := readOptional_shifts aligned.components formatFound
  have second := readChain_shifts toChain chainFound
  have third := readOwned_shifts toEstimator estimatorFound
  have fourth := readOptional_shifts toIterator iteratorFound
  refine bind_eq_ok_iff.mpr ⟨_, first, ?_⟩
  dsimp only
  rw [List.length_map]
  refine bind_eq_ok_iff.mpr ⟨_, second, ?_⟩
  simp only [ChainRead.rename, List.length_map, estimated]
  refine bind_eq_ok_iff.mpr ⟨_, third, ?_⟩
  rw [List.length_map]
  refine bind_eq_ok_iff.mpr ⟨_, fourth, ?_⟩
  rw [← toEstimator.first, List.map_append, List.map_append, List.map_append]
  rfl

/-- **A sequence is read in the same way behind any other sequences.** -/
theorem readSequence_shifts {other next after : Specification .raw}
    (aligned : Aligned new spec other) (read : readSequence spec element = .ok next)
    (again : readSequence other element = .ok after) :
    ∃ sequence fields references components,
      next = addSequence spec sequence fields references components ∧
      after = addSequence other (sequence.rename new) (fields.map (Field.rename new))
        (references.map (Reference.rename new)) (components.map (Component.rename new)) ∧
      (∀ field ∈ fields, field.owner = ⟨spec.sequences.size⟩) ∧
      ∀ component ∈ components, component.owner = some ⟨spec.sequences.size⟩ := by
  obtain ⟨key, fields, references, sequence, components, keyed, -, record, parts, rfl⟩ :=
    readSequence_adds read
  obtain ⟨name, _, _, _, _, named, -, recordAgain, partsAgain, rfl⟩ := readSequence_adds again
  obtain rfl := Except.ok.inj (keyed.symm.trans named)
  have owned := (readRecordType_read record).1.record.owners
  have shifted := readRecordType_shifts aligned.fields aligned.references record
  rw [aligned.sequence, ← aligned.enumSets] at shifted
  cases shifted.symm.trans recordAgain
  cases parts with
  | random sort _ parts =>
      have shifted := readRandomParts_shifts aligned parts
      obtain ⟨-, -, -, -, grown, -⟩ := readRandomParts_read parts
      refine ⟨sequence, fields, references, components, rfl, ?_, owned, grown.owned⟩
      rw [RecordSequence.rename, aligned.sequence] at shifted
      cases partsAgain with
      | random _ _ again =>
          cases shifted.symm.trans again
          rfl
      | unsupported other => exact absurd sort other
  | unsupported other =>
      refine ⟨_, fields, references, [], rfl, ?_, owned, List.forall_mem_nil _⟩
      rw [RecordSequence.rename, aligned.sequence]
      cases partsAgain with
      | random sort => exact absurd sort other
      | unsupported => rfl

end Recordgen.Prototype

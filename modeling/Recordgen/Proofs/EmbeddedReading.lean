import Recordgen.Proofs.ShiftedReading

/-! # Documents with the same sequences

A document whose sequences all occur in another document, next to the same parameters, functions and
enumerations, gives a specification that is embedded in that of the other document
(`exists_embeds_of_readRoot`). The renaming is found sequence by sequence: the handles that a
sequence adds are those that the same element adds in the other document.
-/

namespace Recordgen

/-! ## Renamings that agree -/

/-- Two renamings agree on the handles of a specification. -/
structure Renaming.Agree (new other : Renaming) {phase : Phase} (spec : Specification phase) :
    Prop where
  sequence : ∀ id : SequenceId, id.index < spec.sequences.size → other.sequence id = new.sequence id
  field : ∀ id : FieldId, id.index < spec.fields.size → other.field id = new.field id
  reference : ∀ id : ReferenceId, id.index < spec.references.size →
    other.reference id = new.reference id
  component : ∀ id : ComponentId, id.index < spec.components.size →
    other.component id = new.component id

namespace Prototype

open Markup (Element)
open Outcome

variable {spec : Specification .raw} {new other : Renaming}
  {next start stage large small : Specification .raw} {element : Element} {elements : List Element}

section Agree

variable (assembled : Assembled spec) (agree : new.Agree other spec)

include assembled agree

private theorem rename_sequence_agree {sequence : RecordSequence}
    (member : sequence ∈ spec.sequences.toList) : sequence.rename other = sequence.rename new := by
  obtain ⟨fields, references, roots⟩ := assembled.inRange.sequences sequence member
  have root : ∀ id ∈ sequence.roots, other.component id = new.component id :=
    fun id listed => agree.component id (roots id listed)
  simp only [RecordSequence.roots, List.mem_append, Option.mem_toList] at root
  unfold RecordSequence.rename
  congr 1
  · exact agree.sequence _ (assembled.wellFormed.index_lt_of_mem member)
  · exact List.map_congr_left fun id listed => agree.field id (fields id listed)
  · exact List.map_congr_left fun id listed => agree.reference id (references id listed)
  · exact Option.map_congr fun id listed => root id (.inl (.inl (.inl listed)))
  · exact List.map_congr_left fun id listed => root id (.inl (.inl (.inr listed)))
  · exact Option.map_congr fun id listed => root id (.inl (.inr listed))
  · exact Option.map_congr fun id listed => root id (.inr listed)

private theorem rename_field_agree {id : FieldId} {field : Field}
    (present : spec.fields[id.index]? = some field) : field.rename other = field.rename new := by
  have member : field ∈ spec.fields.toList :=
    Array.mem_toList_iff.mpr (Array.mem_of_getElem? present)
  obtain ⟨owner, setter⟩ := assembled.inRange.fields field member
  have placed := Specification.id_of_numbered assembled.wellFormed.fieldIds present
  unfold Field.rename
  congr 1
  · rw [placed]
    exact agree.field _ (Array.getElem?_eq_some_iff.mp present).1
  · exact agree.sequence _ owner
  · exact Option.map_congr fun id listed => agree.component id (setter id listed)

private theorem rename_reference_agree {id : ReferenceId} {reference : Reference .raw}
    (present : spec.references[id.index]? = some reference) :
    reference.rename other = reference.rename new := by
  have member : reference ∈ spec.references.toList :=
    Array.mem_toList_iff.mpr (Array.mem_of_getElem? present)
  have placed := Specification.id_of_numbered assembled.wellFormed.referenceIds present
  unfold Reference.rename
  congr 1
  · rw [placed]
    exact agree.reference _ (Array.getElem?_eq_some_iff.mp present).1
  · exact agree.sequence _ (assembled.inRange.references reference member)

private theorem rename_component_agree {id : ComponentId} {component : Component .raw}
    (present : spec.components[id.index]? = some component) :
    component.rename other = component.rename new := by
  have member := Specification.mem_components present
  obtain ⟨parent, owner, mentions⟩ := assembled.inRange.components component member
  unfold Component.rename
  congr 1
  · rw [assembled.wellFormed.id_of_getElem? present]
    exact agree.component _ (Array.getElem?_eq_some_iff.mp present).1
  · refine List.map_congr_left fun entry listed => Prod.ext rfl ?_
    exact Argument.rename_congr entry.2 fun id mentioned =>
      agree.component id (mentions entry listed id mentioned)
  · exact Option.map_congr fun id listed => agree.component id (parent id listed)
  · exact Option.map_congr fun id listed => agree.sequence id (owner id listed)

/-- Whether a specification is embedded does not depend on what becomes of other handles. -/
theorem embeds_agree {large : Specification .raw} (embeds : spec.Embeds new large) :
    spec.Embeds other large where
  parameters := embeds.parameters
  functions := embeds.functions
  enumSets := embeds.enumSets
  fixed := by
    intro id listed
    have inside : id.index < spec.components.size := by
      rcases List.mem_append.mp listed with function | enumSet
      · exact assembled.inRange.functions id function
      · exact assembled.inRange.enumSets id enumSet
    rw [agree.component id inside]
    exact embeds.fixed id listed
  sequences := by
    intro id sequence present
    rw [agree.sequence id (Array.getElem?_eq_some_iff.mp present).1,
      rename_sequence_agree assembled agree (Specification.mem_sequences present)]
    exact embeds.sequences id sequence present
  fields := by
    intro id field present
    rw [agree.field id (Array.getElem?_eq_some_iff.mp present).1,
      rename_field_agree assembled agree present]
    exact embeds.fields id field present
  references := by
    intro id reference present
    rw [agree.reference id (Array.getElem?_eq_some_iff.mp present).1,
      rename_reference_agree assembled agree present]
    exact embeds.references id reference present
  components := by
    intro id component present
    rw [agree.component id (Array.getElem?_eq_some_iff.mp present).1,
      rename_component_agree assembled agree present]
    exact embeds.components id component present
  fieldsApart := by
    intro id another first second left right owned same
    rw [agree.field id (Array.getElem?_eq_some_iff.mp left).1,
      agree.field another (Array.getElem?_eq_some_iff.mp right).1] at same
    exact embeds.fieldsApart id another first second left right owned same
  componentsApart := by
    intro id another first second left right owned same
    rw [agree.component id (Array.getElem?_eq_some_iff.mp left).1,
      agree.component another (Array.getElem?_eq_some_iff.mp right).1] at same
    exact embeds.componentsApart id another first second left right owned same

end Agree

/-! ## One more sequence -/

/-- A specification to which only sequences were added. -/
structure Continues (before after : Specification .raw) : Prop where
  parameters : after.parameters = before.parameters
  functions : after.functions = before.functions
  enumSets : after.enumSets = before.enumSets
  sequences : ∀ (index : Nat) (sequence : RecordSequence),
    before.sequences[index]? = some sequence → after.sequences[index]? = some sequence
  parts : before.Extends after

theorem Continues.refl (spec : Specification .raw) : Continues spec spec :=
  ⟨rfl, rfl, rfl, fun _ _ => id, fun _ _ => id, fun _ _ => id, fun _ _ => id, fun _ => id⟩

theorem Continues.trans {first second third : Specification .raw} (before : Continues first second)
    (after : Continues second third) : Continues first third where
  parameters := after.parameters.trans before.parameters
  functions := after.functions.trans before.functions
  enumSets := after.enumSets.trans before.enumSets
  sequences := fun _ _ present => after.sequences _ _ (before.sequences _ _ present)
  parts :=
    ⟨fun _ _ present => after.parts.fields _ _ (before.parts.fields _ _ present),
      fun _ _ present => after.parts.references _ _ (before.parts.references _ _ present),
      fun _ _ present => after.parts.components _ _ (before.parts.components _ _ present),
      fun _ known => after.parts.enumSets _ (before.parts.enumSets _ known)⟩

private theorem continues_addSequence (spec : Specification .raw) (sequence : RecordSequence)
    (fields : List Field) (references : List (Reference .raw))
    (components : List (Component .raw)) :
    Continues spec (addSequence spec sequence fields references components) := by
  refine ⟨rfl, rfl, rfl, fun index known present => ?_, extends_addSequence ..⟩
  have inside := (Array.getElem?_eq_some_iff.mp present).1
  simp only [addSequence, Array.getElem?_push, if_neg (Nat.ne_of_lt inside)]
  exact present

private theorem aligned_same (spec : Specification .raw) : Aligned .same spec spec :=
  ⟨rfl, rfl, fun _ => rfl, fun _ => rfl, fun _ => rfl⟩

private theorem readSequence_continues (read : readSequence spec element = .ok next) :
    Continues spec next := by
  obtain ⟨sequence, fields, references, components, rfl, -⟩ :=
    readSequence_shifts (aligned_same spec) read read
  exact continues_addSequence ..

/-- Every element of a run is read at some stage of it. -/
theorem exists_stage {result : Specification .raw}
    (read : elements.foldlM readSequence start = .ok result) :
    Continues start result ∧ ∀ element ∈ elements, ∃ before after,
      Continues start before ∧ readSequence before element = .ok after ∧
        Continues after result := by
  induction elements generalizing start with
  | nil =>
      obtain rfl := pure_eq_ok_iff.mp read
      exact ⟨.refl start, List.forall_mem_nil _⟩
  | cons first rest ih =>
      rw [List.foldlM_cons] at read
      obtain ⟨next, here, later⟩ := bind_eq_ok_iff.mp read
      have step := readSequence_continues here
      obtain ⟨onward, stages⟩ := ih later
      refine ⟨step.trans onward, fun element member => ?_⟩
      rcases List.mem_cons.mp member with rfl | member
      · exact ⟨start, next, .refl start, here, onward⟩
      · obtain ⟨before, after, reached, read, continued⟩ := stages element member
        exact ⟨before, after, step.trans reached, read, continued⟩

/-- The handles below a size stay as they are renamed, and those behind it move to another size. -/
def renameBehind {ι : Type} (index : ι → Nat) (make : Nat → ι) (rename : ι → ι) (size other : Nat)
    (id : ι) : ι :=
  if index id < size then rename id else make (other + (index id - size))

section RenameBehind

variable {ι : Type} {index : ι → Nat} {make : Nat → ι} {rename : ι → ι} {size other : Nat}

private theorem renameBehind_of_lt {id : ι} (inside : index id < size) :
    renameBehind index make rename size other id = rename id :=
  if_pos inside

private theorem moves_renameBehind (positions : ∀ position, index (make position) = position) :
    Moves (renameBehind index make rename size other) make size other := by
  intro offset
  rw [renameBehind, positions, if_neg (by omega), Nat.add_sub_cancel_left]

end RenameBehind

section Appended

variable {α ι γ : Type} {index : ι → Nat} {make : Nat → ι} {rename : ι → ι} {values others : Array α}
  {more : List α}

private theorem getElem?_appended (values : Array α) (more : List α) (position : Nat) :
    (values ++ more)[position]? =
      if position < values.size then values[position]? else more[position - values.size]? := by
  rw [← Array.getElem?_toList, Array.toList_appendList, List.getElem?_append]
  simp

/-- What is appended in two places stands, renamed, where it was moved to. -/
theorem found_appended {change : α → α} {result : Array α} (made : ∀ id, make (index id) = id)
    (positions : ∀ position, index (make position) = position)
    (moves : Moves rename make values.size others.size)
    (continued : ∀ (position : Nat) (value : α), (others ++ more.map change)[position]? = some value →
      result[position]? = some value)
    (before : ∀ id value, values[index id]? = some value →
      result[index (rename id)]? = some (change value)) :
    ∀ id value, (values ++ more)[index id]? = some value →
      result[index (rename id)]? = some (change value) := by
  intro id value present
  rw [getElem?_appended] at present
  split at present
  · exact before id value present
  · have place : id = make (values.size + (index id - values.size)) := by
      rw [Nat.add_sub_cancel' (by omega), made]
    rw [place, moves, positions]
    apply continued
    rw [getElem?_appended, if_neg (by omega), Nat.add_sub_cancel_left, List.getElem?_map, present,
      Option.map_some]

/-- What is appended is told apart from what was there before by its owner. -/
theorem apart_appended {owner : α → γ} {fresh : γ} (made : ∀ id, make (index id) = id)
    (positions : ∀ position, index (make position) = position)
    (moves : Moves rename make values.size others.size)
    (known : ∀ value ∈ values.toList, owner value ≠ fresh)
    (owned : ∀ value ∈ more, owner value = fresh)
    (before : ∀ id another first second, values[index id]? = some first →
      values[index another]? = some second → owner first = owner second →
        rename id = rename another → id = another) :
    ∀ id another first second, (values ++ more)[index id]? = some first →
      (values ++ more)[index another]? = some second → owner first = owner second →
        rename id = rename another → id = another := by
  intro id another first second left right shared same
  have old : ∀ {position value}, values[position]? = some value → owner value ≠ fresh :=
    fun present => known _ (Array.mem_toList_iff.mpr (Array.mem_of_getElem? present))
  have late : ∀ {position value}, more[position]? = some value → owner value = fresh :=
    fun present => owned _ (List.mem_of_getElem? present)
  rw [getElem?_appended] at left right
  split at left <;> split at right
  · exact before id another first second left right shared same
  · exact absurd (shared.trans (late right)) (old left)
  · exact absurd (shared.symm.trans (late left)) (old right)
  · have place : ∀ id, ¬index id < values.size →
        rename id = make (others.size + (index id - values.size)) := by
      intro id behind
      rw [← moves, Nat.add_sub_cancel' (by omega), made]
    rw [place id (by assumption), place another (by assumption)] at same
    have equal := congrArg index same
    rw [positions, positions] at equal
    rw [← made id, ← made another]
    congr 1
    omega

end Appended

/-- The renaming of a specification to which a sequence is added that was read behind `stage`. -/
def behind (new : Renaming) (spec stage : Specification .raw) : Renaming where
  sequence := renameBehind SequenceId.index SequenceId.mk new.sequence spec.sequences.size
    stage.sequences.size
  field := renameBehind FieldId.index FieldId.mk new.field spec.fields.size stage.fields.size
  reference := renameBehind ReferenceId.index ReferenceId.mk new.reference spec.references.size
    stage.references.size
  component := renameBehind ComponentId.index ComponentId.mk new.component spec.components.size
    stage.components.size

private theorem agree_behind (new : Renaming) (spec stage : Specification .raw) :
    new.Agree (behind new spec stage) spec :=
  ⟨fun _ => renameBehind_of_lt, fun _ => renameBehind_of_lt, fun _ => renameBehind_of_lt,
    fun _ => renameBehind_of_lt⟩

private theorem aligned_behind (new : Renaming) (enumSets : stage.enumSets = spec.enumSets) :
    Aligned (behind new spec stage) spec stage where
  enumSets := enumSets
  sequence := (moves_renameBehind fun _ => rfl).first
  fields := moves_renameBehind fun _ => rfl
  references := moves_renameBehind fun _ => rfl
  components := moves_renameBehind fun _ => rfl

/-- One more sequence that also occurs in the other document. -/
theorem embeds_readSequence {after : Specification .raw} (assembled : Assembled spec)
    (embeds : spec.Embeds new large) (enumSets : stage.enumSets = spec.enumSets)
    (read : readSequence spec element = .ok next) (again : readSequence stage element = .ok after)
    (continued : Continues after large) : next.Embeds (behind new spec stage) large := by
  have aligned := aligned_behind new enumSets
  have kept := embeds_agree assembled (agree_behind new spec stage) embeds
  generalize behind new spec stage = wide at aligned kept
  obtain ⟨sequence, fields, references, components, rfl, rfl, fieldsOwned, componentsOwned⟩ :=
    readSequence_shifts aligned read again
  have ranged := assembled.inRange
  refine { kept with sequences := ?_, fields := ?_, references := ?_, components := ?_,
                     fieldsApart := ?_, componentsApart := ?_ }
  · -- The one new sequence is the first behind the old ones.
    intro id found present
    simp only [addSequence, Array.getElem?_push] at present
    split at present
    · rename_i last
      obtain rfl := Option.some.inj present
      have place : id = ⟨spec.sequences.size⟩ := by rw [← last]
      rw [place, aligned.sequence]
      apply continued.sequences
      simp only [addSequence, Array.getElem?_push, if_true, RecordSequence.rename, List.map_map]
      rfl
    · exact kept.sequences id found present
  · exact found_appended (fun _ => rfl) (fun _ => rfl) aligned.fields continued.parts.fields
      kept.fields
  · exact found_appended (fun _ => rfl) (fun _ => rfl) aligned.references
      continued.parts.references kept.references
  · exact found_appended (fun _ => rfl) (fun _ => rfl) aligned.components
      continued.parts.components kept.components
  · refine apart_appended (fun _ => rfl) (fun _ => rfl) aligned.fields ?_ fieldsOwned
      kept.fieldsApart
    intro field member same
    have inside := (ranged.fields field member).1
    rw [same] at inside
    exact Nat.lt_irrefl _ inside
  · refine apart_appended (fun _ => rfl) (fun _ => rfl) aligned.components ?_ componentsOwned
      kept.componentsApart
    intro component member same
    have inside := (ranged.components component member).2.1 _ (Option.mem_def.mpr same)
    exact Nat.lt_irrefl _ inside

/-! ## Whole documents -/

/-- What comes first in a run is embedded with its own handles. -/
theorem Continues.embeds (continued : Continues spec large) :
    spec.Embeds .same large where
  parameters := continued.parameters
  functions := continued.functions
  enumSets := continued.enumSets
  fixed := fun _ _ => rfl
  sequences := by
    intro id sequence present
    have same : sequence.rename .same = sequence := by
      simp [RecordSequence.rename, Renaming.same]
    rw [same]
    exact continued.sequences _ _ present
  fields := by
    intro id field present
    have same : field.rename .same = field := by simp [Field.rename, Renaming.same]
    rw [same]
    exact continued.parts.fields _ _ present
  references := by
    intro id reference present
    exact continued.parts.references _ _ present
  components := by
    intro id component present
    have same : component.rename .same = component := by
      simp only [Component.rename, Argument.rename_same]
      simp [Renaming.same]
    rw [same]
    exact continued.parts.components _ _ present
  fieldsApart := fun _ _ _ _ _ _ _ same => same
  componentsApart := fun _ _ _ _ _ _ _ same => same

/-- Sequences that all occur in another run behind the same start. -/
theorem exists_embeds_of_foldlM {others : List Element} (assembled : Assembled start)
    (read : elements.foldlM readSequence start = .ok small)
    (again : others.foldlM readSequence start = .ok large) (occur : elements ⊆ others) :
    ∃ new, small.Embeds new large := by
  obtain ⟨whole, stages⟩ := exists_stage again
  -- Invariant of the first run: what it has read so far is embedded in the result of the second.
  refine (foldlM_invariant (fun spec : Specification .raw => Assembled spec ∧
    spec.enumSets = start.enumSets ∧ ∃ new, spec.Embeds new large)
    ⟨assembled, rfl, _, whole.embeds⟩ ?_ read).2.2
  rintro spec element next member ⟨built, enumSets, new, embeds⟩ step
  obtain ⟨stage, after, reached, found, continued⟩ := stages element (occur member)
  have sets : stage.enumSets = spec.enumSets := reached.enumSets.trans enumSets.symm
  exact ⟨readSequence_assembled built step, (readSequence_continues step).enumSets.trans enumSets,
    _, embeds_readSequence built embeds sets step found continued⟩

/-- Two documents have the same parameters, functions and enumerations. -/
structure SameSections (root other : Element) : Prop where
  parameters : sectionChildren other "parameters" (·.childrenNamed "parameter") =
    sectionChildren root "parameters" (·.childrenNamed "parameter")
  functions : sectionChildren other "functions" (·.childrenNamed "function") =
    sectionChildren root "functions" (·.childrenNamed "function")
  enumSets : sectionChildren other "enum_sets" (·.childrenNamed "enum_set") =
    sectionChildren root "enum_sets" (·.childrenNamed "enum_set")

/-- **A document is embedded in every document that has its sequences** and the same parameters,
functions and enumerations. -/
theorem exists_embeds_of_readRoot {root other : Element} (read : readRoot root = .ok small)
    (again : readRoot other = .ok large) (sections : SameSections root other)
    (occur : sectionChildren root "record_sequences" Element.children ⊆
      sectionChildren other "record_sequences" Element.children) :
    ∃ new, small.Embeds new large := by
  obtain ⟨start, assembled, front, sequences⟩ := exists_start read
  obtain ⟨same, -, frontAgain, sequencesAgain⟩ := exists_start again
  rw [sections.parameters, sections.functions, sections.enumSets] at frontAgain
  obtain rfl := Except.ok.inj (front.symm.trans frontAgain)
  exact exists_embeds_of_foldlM assembled sequences sequencesAgain occur

end Prototype

end Recordgen

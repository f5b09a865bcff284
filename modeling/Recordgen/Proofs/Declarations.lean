import Recordgen.Proofs.DocumentReading

/-! # What becomes of the declarations of a document

A document declares its parts inside containers: parameters, functions, enumerations and sequences in
the sections of the root, fields and references in the record type of a sequence, setters in its
setter chain. Of several containers with one name only the first is read. Its entries all appear in
the specification, one by one, and nothing else does (`Specification.Lists`). So a declaration is
dropped exactly when a container behind the first one of its name holds an entry
(`Prototype.parse_lists`), and a document with such a container is accepted all the same.
-/

namespace Recordgen

open Markup (Element)

variable {α β : Type}

/-- Elements and entries belong together one by one, whatever the order of the entries. -/
def Matched (appears : α → β → Prop) (elements : List α) (entries : List β) : Prop :=
  ∃ order, order.Perm entries ∧ List.Forall₂ appears elements order

namespace Matched

variable {appears : α → β → Prop} {elements : List α} {entries : List β} {other : α → β → Prop}

theorem length_eq (matched : Matched appears elements entries) :
    elements.length = entries.length := by
  obtain ⟨order, same, all⟩ := matched
  rw [all.length_eq, same.length_eq]

/-- One more element with an entry of its own. -/
theorem concat {element : α} {entry : β} {more : List β}
    (matched : Matched appears elements entries) (here : appears element entry)
    (added : more.Perm (entry :: entries)) :
    Matched appears (elements ++ [element]) more := by
  obtain ⟨order, same, all⟩ := matched
  refine ⟨order ++ [entry], ?_, List.rel_append all (.cons here .nil)⟩
  apply List.Perm.trans _ added.symm
  exact List.perm_append_comm.trans (same.cons entry)

theorem imp_of_mem (matched : Matched appears elements entries)
    (implies : ∀ element ∈ elements, ∀ entry, appears element entry → other element entry) :
    Matched other elements entries := by
  obtain ⟨order, same, all⟩ := matched
  have known := (List.forall₂_and_left _ _).mpr ⟨fun _ member => member, all⟩
  exact ⟨order, same, known.imp fun element entry here => implies element here.1 entry here.2⟩

theorem imp (matched : Matched appears elements entries)
    (implies : ∀ element entry, appears element entry → other element entry) :
    Matched other elements entries :=
  matched.imp_of_mem fun element _ => implies element

private theorem exists_entry (matched : Matched appears elements entries) {element : α}
    (member : element ∈ elements) : ∃ entry ∈ entries, appears element entry := by
  obtain ⟨order, same, all⟩ := matched
  obtain ⟨entry, listed, here⟩ := exists_right_of_mem all member
  exact ⟨entry, same.mem_iff.mp listed, here⟩

end Matched

namespace Markup.Element

/-- The value of an attribute without the blanks around it. -/
def trimmed? (element : Element) (key : String) : Option String :=
  (element.attribute? key).map Text.trim

/-- The first child with the given name, if there is one. -/
def firstNamed (element : Element) (name : String) : List Element :=
  (element.child? name).toList

/-- An attribute that is required and found is the trimmed one. -/
theorem trimmed?_of_required {element : Element} {key place value : String}
    (found : element.required key place = .ok value) : element.trimmed? key = some value := by
  unfold required at found
  split at found
  · rename_i raw given
    by_cases blank : Text.trim raw = ""
    · simp [blank] at found
    · simp only [blank, if_false, Except.ok.injEq] at found
      rw [trimmed?, given, Option.map_some, found]
  · cases found

private theorem childrenNamed_eq (element : Element) (name : String) :
    element.childrenNamed name =
      element.firstNamed name ++ (element.childrenNamed name).tail := by
  rw [firstNamed, child?, ← List.head?_filter, childrenNamed]
  cases element.children.filter fun child => child.name == name <;> rfl

/-- The containers behind the first one of a name hold no entries. -/
def EmptyBehind (element : Element) (name : String) (select : Element → List Element) : Prop :=
  ∀ later ∈ (element.childrenNamed name).tail, select later = []

/-- No container behind the first one of its name holds an entry: neither a section of the root nor
a record type or a setter chain of a random sequence. -/
structure NoneBehind (root : Element) : Prop where
  parameters : root.EmptyBehind "parameters" (·.childrenNamed "parameter")
  functions : root.EmptyBehind "functions" (·.childrenNamed "function")
  enumSets : root.EmptyBehind "enum_sets" (·.childrenNamed "enum_set")
  sequences : root.EmptyBehind "record_sequences" Element.children
  parts : ∀ sequence ∈ (root.firstNamed "record_sequences").flatMap Element.children,
    sequence.name = "random_sequence" →
      sequence.EmptyBehind "record_type" (·.childrenNamed "field") ∧
      sequence.EmptyBehind "record_type" (·.childrenNamed "reference") ∧
      sequence.EmptyBehind "setter_chain" (·.childrenNamed "setter")

end Markup.Element

/-! ## What an element declares -/

/-- A component has the key, and the kind and parameters that the type string of its category says. -/
structure Component.Declared (category : Category) (typeText key : String)
    (component : Component .raw) : Prop where
  key : component.key = key
  type : ∃ found, category.dispatch typeText = .ok found ∧ component.kind = found.kind ∧
    component.attributes = found.attributes

/-- A handle leads to the setter that an element declares. -/
def Component.SetterDeclared (arena : List (Component .raw)) (element : Element)
    (id : ComponentId) : Prop :=
  ∃ component key typeText, arena[id.index]? = some component ∧
    element.trimmed? "key" = some key ∧ element.trimmed? "type" = some typeText ∧
    component.Declared .setter typeText key

/-- A field has the name and the type that an element says. -/
def Field.Declared (element : Element) (field : Field) : Prop :=
  element.trimmed? "name" = some field.name ∧
    ∃ typeText, element.trimmed? "type" = some typeText ∧ FieldType.parse typeText = .ok field.type

/-- A reference has the name and the target that an element says. -/
def Reference.Declared (element : Element) (reference : Reference .raw) : Prop :=
  element.trimmed? "name" = some reference.name ∧
    element.trimmed? "type" = some (Reference.target reference)

/-- An entry of the parameters that an element declares. -/
def ParameterDeclared (element : Element) (entry : String × Parameter) : Prop :=
  ∃ key value, element.trimmed? "key" = some key ∧ element.attribute? "value" = some value ∧
    entry = (key, ⟨key, value⟩)

namespace Specification

variable (spec : Specification .raw)

/-- An entry of the functions that an element declares. -/
def FunctionDeclared (element : Element) (entry : String × ComponentId) : Prop :=
  element.trimmed? "key" = some entry.1 ∧
    ∃ typeText component, element.trimmed? "type" = some typeText ∧
      spec.components[entry.2.index]? = some component ∧
      component.Declared .function typeText entry.1

/-- An entry of the enumerations that an element declares. -/
def EnumSetDeclared (element : Element) (entry : String × ComponentId) : Prop :=
  element.trimmed? "key" = some entry.1 ∧
    ∃ component, spec.components[entry.2.index]? = some component ∧
      component.Declared .enumSet "enum_set" entry.1

/-- A field that an element declares. -/
def FieldDeclared (element : Element) (id : FieldId) : Prop :=
  ∃ field, spec.fields[id.index]? = some field ∧ field.Declared element

/-- A reference that an element declares. -/
def ReferenceDeclared (element : Element) (id : ReferenceId) : Prop :=
  ∃ reference, spec.references[id.index]? = some reference ∧ reference.Declared element

/-- A setter that an element declares. -/
def SetterDeclared (element : Element) (id : ComponentId) : Prop :=
  Component.SetterDeclared spec.components.toList element id

/-- A sequence that an element declares. If it is random, its fields behind the identifier, its
references and its setters are the entries of the element's containers, of which `containers` picks
those that count. -/
structure SequenceDeclared (containers : Element → String → List Element) (element : Element)
    (sequence : RecordSequence) : Prop where
  key : element.trimmed? "key" = some sequence.key
  kind : sequence.kind =
    if element.name = "random_sequence" then .random else .unsupported element.name
  fields : element.name = "random_sequence" → List.Forall₂ spec.FieldDeclared
    ((containers element "record_type").flatMap (·.childrenNamed "field"))
    sequence.fields.tail
  references : element.name = "random_sequence" → List.Forall₂ spec.ReferenceDeclared
    ((containers element "record_type").flatMap (·.childrenNamed "reference"))
    sequence.references
  setters : element.name = "random_sequence" → List.Forall₂ spec.SetterDeclared
    ((containers element "setter_chain").flatMap (·.childrenNamed "setter"))
    sequence.setters

/-- The given elements declare the entries of the specification. -/
structure Collected (containers : Element → String → List Element)
    (parameters functions enumSets sequences : List Element) : Prop where
  parameters : Matched ParameterDeclared parameters spec.parameters.entries
  functions : Matched spec.FunctionDeclared functions spec.functions.entries
  enumSets : Matched spec.EnumSetDeclared enumSets spec.enumSets.entries
  sequences : Matched (spec.SequenceDeclared containers) sequences spec.sequences.toList

/-- The entries of the containers that `containers` picks are those of the specification. -/
def Lists (containers : Element → String → List Element) (root : Element) : Prop :=
  spec.Collected containers
    ((containers root "parameters").flatMap (·.childrenNamed "parameter"))
    ((containers root "functions").flatMap (·.childrenNamed "function"))
    ((containers root "enum_sets").flatMap (·.childrenNamed "enum_set"))
    ((containers root "record_sequences").flatMap Element.children)

end Specification

/-! ## Which containers count -/

section Containers

variable {element : Element} {name : String} {select : Element → List Element}

private theorem flatMap_childrenNamed :
    (element.childrenNamed name).flatMap select =
      (element.firstNamed name).flatMap select ++
        (element.childrenNamed name).tail.flatMap select := by
  conv_lhs => rw [element.childrenNamed_eq name, List.flatMap_append]

/-- As many entries as the first container has leave none for the others. -/
theorem emptyBehind_of_length
    (same : ((element.childrenNamed name).flatMap select).length =
      ((element.firstNamed name).flatMap select).length) :
    element.EmptyBehind name select := by
  rw [flatMap_childrenNamed, List.length_append, Nat.add_eq_left] at same
  exact List.flatMap_eq_nil_iff.mp (List.length_eq_zero_iff.mp same)

private theorem flatMap_of_emptyBehind (none : element.EmptyBehind name select) :
    (element.childrenNamed name).flatMap select = (element.firstNamed name).flatMap select := by
  rw [flatMap_childrenNamed, List.flatMap_eq_nil_iff.mpr none, List.append_nil]

variable {appears : Element → β → Prop} {entries : List β}

private theorem forall₂_all_iff
    (first : List.Forall₂ appears ((element.firstNamed name).flatMap select) entries) :
    List.Forall₂ appears ((element.childrenNamed name).flatMap select) entries ↔
      element.EmptyBehind name select := by
  constructor
  · intro all
    exact emptyBehind_of_length (all.length_eq.trans first.length_eq.symm)
  · intro none
    rwa [flatMap_of_emptyBehind none]

private theorem matched_all_iff
    (first : Matched appears ((element.firstNamed name).flatMap select) entries) :
    Matched appears ((element.childrenNamed name).flatMap select) entries ↔
      element.EmptyBehind name select := by
  constructor
  · intro all
    exact emptyBehind_of_length (all.length_eq.trans first.length_eq.symm)
  · intro none
    rwa [flatMap_of_emptyBehind none]

end Containers

namespace Specification

variable {spec : Specification .raw} {root : Element}

/-- For a random sequence, all containers count exactly when those behind the first hold nothing. -/
theorem SequenceDeclared.all_iff {element : Element} {sequence : RecordSequence}
    (declared : spec.SequenceDeclared Element.firstNamed element sequence) :
    spec.SequenceDeclared Element.childrenNamed element sequence ↔
      (element.name = "random_sequence" →
        element.EmptyBehind "record_type" (·.childrenNamed "field") ∧
        element.EmptyBehind "record_type" (·.childrenNamed "reference") ∧
        element.EmptyBehind "setter_chain" (·.childrenNamed "setter")) := by
  by_cases random : element.name = "random_sequence"
  · have fields := forall₂_all_iff (declared.fields random)
    have references := forall₂_all_iff (declared.references random)
    have setters := forall₂_all_iff (declared.setters random)
    simp only [random, forall_const, ← fields, ← references, ← setters]
    exact ⟨fun all => ⟨all.fields random, all.references random, all.setters random⟩,
      fun ⟨fields, references, setters⟩ => ⟨declared.key, declared.kind, fun _ => fields,
        fun _ => references, fun _ => setters⟩⟩
  · simp only [random, false_implies, iff_true]
    exact ⟨declared.key, declared.kind, fun same => absurd same random,
      fun same => absurd same random, fun same => absurd same random⟩

/-- **Nothing is dropped exactly when nothing stands behind the first containers.** -/
theorem Lists.all_iff (lists : spec.Lists Element.firstNamed root)
    (keys : (spec.sequences.toList.map RecordSequence.key).Nodup) :
    spec.Lists Element.childrenNamed root ↔ root.NoneBehind := by
  have parameters := matched_all_iff lists.parameters
  have functions := matched_all_iff lists.functions
  have enumSets := matched_all_iff lists.enumSets
  constructor
  · intro all
    have sequences : root.EmptyBehind "record_sequences" Element.children :=
      emptyBehind_of_length (all.sequences.length_eq.trans lists.sequences.length_eq.symm)
    refine ⟨parameters.mp all.parameters, functions.mp all.functions, enumSets.mp all.enumSets,
      sequences, fun element member => ?_⟩
    obtain ⟨sequence, listed, declared⟩ := lists.sequences.exists_entry member
    obtain ⟨other, present, whole⟩ := all.sequences.exists_entry
      (flatMap_of_emptyBehind sequences ▸ member)
    -- Keys are distinct, so the element stands for one sequence in both readings.
    obtain rfl : other = sequence := List.inj_on_of_nodup_map keys present listed
      (Option.some.inj (whole.key.symm.trans declared.key))
    exact declared.all_iff.mp whole
  · intro none
    refine ⟨parameters.mpr none.parameters, functions.mpr none.functions,
      enumSets.mpr none.enumSets, ?_⟩
    rw [flatMap_of_emptyBehind none.sequences]
    refine lists.sequences.imp_of_mem fun element member sequence declared => ?_
    exact declared.all_iff.mpr (none.parts element member)

end Specification

namespace Specification

variable {before after : Specification .raw} {element : Element} {entry : String × ComponentId}

/-- A function that is declared stays so when the specification grows. -/
theorem FunctionDeclared.extend (declared : before.FunctionDeclared element entry)
    (wider : before.Extends after) : after.FunctionDeclared element entry := by
  obtain ⟨named, typeText, component, typed, present, found⟩ := declared
  exact ⟨named, typeText, component, typed, wider.components _ _ present, found⟩

theorem EnumSetDeclared.extend (declared : before.EnumSetDeclared element entry)
    (wider : before.Extends after) : after.EnumSetDeclared element entry := by
  obtain ⟨named, component, present, found⟩ := declared
  exact ⟨named, component, wider.components _ _ present, found⟩

theorem SequenceDeclared.extend {containers : Element → String → List Element}
    {sequence : RecordSequence} (declared : before.SequenceDeclared containers element sequence)
    (wider : before.Extends after) : after.SequenceDeclared containers element sequence where
  key := declared.key
  kind := declared.kind
  fields random := by
    refine (declared.fields random).imp fun _ _ found => ?_
    obtain ⟨field, present, here⟩ := found
    exact ⟨field, wider.fields _ _ present, here⟩
  references random := by
    refine (declared.references random).imp fun _ _ found => ?_
    obtain ⟨reference, present, here⟩ := found
    exact ⟨reference, wider.references _ _ present, here⟩
  setters random := by
    refine (declared.setters random).imp fun _ _ found => ?_
    obtain ⟨component, key, typeText, present, here⟩ := found
    rw [Array.getElem?_toList] at present
    refine ⟨component, key, typeText, ?_, here⟩
    rw [Array.getElem?_toList]
    exact wider.components _ _ present

end Specification

namespace Prototype

open Outcome

variable {element : Element} {base : Nat} {components arena : List (Component .raw)}
  {enumSets : KeyMap ComponentId} {place : String} {owner : SequenceId} {elements : List Element}
  {references : List (Reference .raw)}

/-! ## What the readers collect -/

private theorem sectionChildren_eq (root : Element) (name : String)
    (select : Element → List Element) :
    sectionChildren root name select = (root.firstNamed name).flatMap select := by
  rw [sectionChildren, Element.firstNamed]
  cases root.child? name <;> simp

/-- Where the components that are read begin, there is the one that was asked for. -/
theorem componentReader_declared {category : Category} {typeText key : String}
    {placement : Placement}
    (read : componentReader element category typeText key placement base = .ok components)
    (located : Located arena base components) :
    ∃ root, arena[base]? = some root ∧ root.Declared category typeText key := by
  cases element
  rw [componentReader] at read
  obtain ⟨found, dispatched, read⟩ := bind_eq_ok_iff.mp read
  obtain ⟨_, -, read⟩ := bind_eq_ok_iff.mp read
  obtain ⟨⟨arguments, nested⟩, -, read⟩ := bind_eq_ok_iff.mp read
  obtain ⟨_, -, rfl⟩ := bind_pure_eq_ok_iff.mp read
  exact ⟨_, located 0 _ rfl, rfl, found, dispatched, rfl, rfl⟩

/-- Fields are added one by one behind those already read. -/
theorem readFields_declared {before fields : List Field}
    (read : readFields enumSets place owner base before elements = .ok fields) :
    ∃ added, fields = before ++ added ∧ List.Forall₂ Field.Declared elements added := by
  induction elements generalizing before with
  | nil =>
      obtain rfl := Except.ok.inj read
      exact ⟨[], (List.append_nil _).symm, .nil⟩
  | cons element elements ih =>
      obtain ⟨field, here, later⟩ := bind_eq_ok_iff.mp read
      obtain ⟨added, rfl, all⟩ := ih later
      refine ⟨field :: added, List.append_assoc _ _ _, .cons ?_ all⟩
      obtain ⟨name, named, here⟩ := bind_eq_ok_iff.mp here
      split at here
      · cases here
      obtain ⟨typeText, typed, here⟩ := bind_eq_ok_iff.mp here
      obtain ⟨type, parsed, here⟩ := bind_eq_ok_iff.mp here
      obtain ⟨derived, -, here⟩ := bind_eq_ok_iff.mp here
      obtain ⟨enumSet, -, rfl⟩ := bind_pure_eq_ok_iff.mp here
      exact ⟨Element.trimmed?_of_required named, typeText, Element.trimmed?_of_required typed,
        parsed⟩

/-- References are added one by one behind those already read. -/
theorem readReferences_declared {fieldNames : List String} {before : List (Reference .raw)}
    (read : readReferences place owner fieldNames base before elements = .ok references) :
    ∃ added, references = before ++ added ∧ List.Forall₂ Reference.Declared elements added := by
  induction elements generalizing before with
  | nil =>
      obtain rfl := Except.ok.inj read
      exact ⟨[], (List.append_nil _).symm, .nil⟩
  | cons element elements ih =>
      obtain ⟨reference, here, later⟩ := bind_eq_ok_iff.mp read
      obtain ⟨added, rfl, all⟩ := ih later
      refine ⟨reference :: added, List.append_assoc _ _ _, .cons ?_ all⟩
      obtain ⟨name, named, here⟩ := bind_eq_ok_iff.mp here
      split at here
      · cases here
      obtain ⟨target, typed, rfl⟩ := bind_pure_eq_ok_iff.mp here
      exact ⟨Element.trimmed?_of_required named, Element.trimmed?_of_required typed⟩

/-- The setters of a chain, seen from an arena that holds its components. -/
theorem readChain_declared {sequence : SequenceId} {chain : ChainRead}
    (read : readChain sequence place base element = .ok chain)
    (located : Located arena base chain.components) :
    List.Forall₂ (Component.SetterDeclared arena)
      ((element.firstNamed "setter_chain").flatMap (·.childrenNamed "setter")) chain.setters := by
  rw [readChain] at read
  rw [Element.firstNamed]
  split at read
  · rename_i absent
    obtain rfl := Except.ok.inj read
    rw [absent]
    exact .nil
  · rename_i found present
    rw [present, Option.toList_some, List.flatMap_singleton]
    refine foldlM_collects (fun done chain => ∀ arena, Located arena base chain.components →
      List.Forall₂ (Component.SetterDeclared arena) done chain.setters) (fun _ _ => .nil) ?_ read
      arena located
    intro done before element next collected step arena located
    obtain ⟨key, named, step⟩ := bind_eq_ok_iff.mp step
    split at step
    · cases step
    obtain ⟨typeText, typed, step⟩ := bind_eq_ok_iff.mp step
    obtain ⟨components, read, rfl⟩ := bind_pure_eq_ok_iff.mp step
    obtain ⟨earlier, behind⟩ := Located.append_iff.mp located
    obtain ⟨root, present, declared⟩ := componentReader_declared read behind
    refine List.rel_append (collected arena earlier) (.cons ?_ .nil)
    exact ⟨root, key, typeText, present, Element.trimmed?_of_required named,
      Element.trimmed?_of_required typed, declared⟩

/-- The setters of a random sequence, seen from an arena that holds its components. -/
theorem readRandomParts_declared {spec : Specification .raw} {sequence result : RecordSequence}
    (read : readRandomParts spec sequence place element = .ok (result, components))
    {arena : List (Component .raw)} (located : Located arena spec.components.size components) :
    List.Forall₂ (Component.SetterDeclared arena)
      ((element.firstNamed "setter_chain").flatMap (·.childrenNamed "setter")) result.setters := by
  obtain ⟨⟨format, formatRead⟩, -, read⟩ := bind_eq_ok_iff.mp read
  obtain ⟨chain, chainFound, read⟩ := bind_eq_ok_iff.mp read
  split at read
  rotate_left
  · cases read
  obtain ⟨estimatorRead, -, read⟩ := bind_eq_ok_iff.mp read
  obtain ⟨⟨iterator, iteratorRead⟩, -, same⟩ := bind_pure_eq_ok_iff.mp read
  obtain ⟨rfl, rfl⟩ := Prod.mk.inj same
  obtain ⟨located, -⟩ := Located.append_iff.mp located
  obtain ⟨located, -⟩ := Located.append_iff.mp located
  exact readChain_declared chainFound (Located.append_iff.mp located).2

private theorem readRecordType_declared {key : String} {fieldBase referenceBase : Nat}
    {fields : List Field}
    (read : readRecordType enumSets key owner fieldBase referenceBase element =
      .ok (fields, references)) :
    List.Forall₂ Field.Declared (element.childrenNamed "field") fields.tail ∧
      List.Forall₂ Reference.Declared (element.childrenNamed "reference") references := by
  obtain ⟨found, fieldsFound, read⟩ := bind_eq_ok_iff.mp read
  obtain ⟨linked, referencesFound, same⟩ := bind_pure_eq_ok_iff.mp read
  obtain ⟨rfl, rfl⟩ := Prod.mk.inj same
  obtain ⟨added, rfl, fieldsAll⟩ := readFields_declared fieldsFound
  obtain ⟨others, rfl, referencesAll⟩ := readReferences_declared referencesFound
  exact ⟨fieldsAll, referencesAll⟩

/-- What is declared is found under its handle. -/
theorem forall₂_handles {ι : Type} {related : Element → α → Prop} {found : ι → α → Prop}
    {handle : α → ι} {values : List α} (all : List.Forall₂ related elements values)
    (each : ∀ value ∈ values, found (handle value) value) :
    List.Forall₂ (fun element id => ∃ value, found id value ∧ related element value) elements
      (values.map handle) := by
  rw [List.forall₂_map_right_iff]
  have both := (List.forall₂_and_left _ _).mpr ⟨each, all.flip⟩
  exact both.flip.imp fun _ value here => ⟨value, here⟩

section Steps

variable {spec next : Specification .raw} {element : Element}
  {parameters functions enumSets sequences : List Element}

section

variable (collected : spec.Collected Element.firstNamed parameters functions enumSets sequences)

include collected

private theorem readParameter_collected (read : readParameter spec element = .ok next) :
    next.Collected Element.firstNamed (parameters ++ [element]) functions enumSets sequences := by
  obtain ⟨key, named, read⟩ := bind_eq_ok_iff.mp read
  split at read
  rotate_left
  · cases read
  rename_i value given
  split at read
  · cases read
  rename_i fresh
  obtain rfl := pure_eq_ok_iff.mp read
  refine ⟨?_, collected.functions, collected.enumSets, collected.sequences.imp ?_⟩
  · exact collected.parameters.concat ⟨key, value, Element.trimmed?_of_required named, given, rfl⟩
      (spec.parameters.entries_insert key ⟨key, value⟩ (Bool.eq_false_iff.mpr fresh))
  · intro _ _ declared
    exact declared.extend ⟨fun _ _ => id, fun _ _ => id, fun _ _ => id, fun _ => id⟩

private theorem readFunction_collected (read : readFunction spec element = .ok next) :
    next.Collected Element.firstNamed parameters (functions ++ [element]) enumSets sequences := by
  obtain ⟨key, named, read⟩ := bind_eq_ok_iff.mp read
  split at read
  · cases read
  rename_i fresh
  obtain ⟨typeText, typed, read⟩ := bind_eq_ok_iff.mp read
  obtain ⟨components, found, rfl⟩ := bind_pure_eq_ok_iff.mp read
  obtain ⟨root, present, declared⟩ := componentReader_declared found (located_appended spec components)
  rw [Array.getElem?_toList] at present
  have wider : spec.Extends { spec with
      functions := spec.functions.insert key ⟨spec.components.size⟩
      components := spec.components ++ components } :=
    ⟨fun _ _ => id, fun _ _ => id, fun _ _ => getElem?_append_list, fun _ => id⟩
  refine ⟨collected.parameters, ?_, collected.enumSets.imp fun _ _ here => here.extend wider,
    collected.sequences.imp fun _ _ here => here.extend wider⟩
  refine (collected.functions.imp fun _ _ here => here.extend wider).concat ?_
    (spec.functions.entries_insert key ⟨spec.components.size⟩ (Bool.eq_false_iff.mpr fresh))
  exact ⟨Element.trimmed?_of_required named, typeText, root, Element.trimmed?_of_required typed,
    present, declared⟩

private theorem readEnumeration_collected (read : readEnumeration spec element = .ok next) :
    next.Collected Element.firstNamed parameters functions (enumSets ++ [element]) sequences := by
  obtain ⟨key, named, read⟩ := bind_eq_ok_iff.mp read
  split at read
  · cases read
  rename_i fresh
  obtain ⟨components, found, rfl⟩ := bind_pure_eq_ok_iff.mp read
  obtain ⟨root, present, declared⟩ := componentReader_declared found (located_appended spec components)
  rw [Array.getElem?_toList] at present
  have wider : spec.Extends { spec with
      enumSets := spec.enumSets.insert key ⟨spec.components.size⟩
      components := spec.components ++ components } :=
    ⟨fun _ _ => id, fun _ _ => id, fun _ _ => getElem?_append_list,
      fun _ => KeyMap.contains_insert⟩
  refine ⟨collected.parameters, collected.functions.imp fun _ _ here => here.extend wider, ?_,
    collected.sequences.imp fun _ _ here => here.extend wider⟩
  refine (collected.enumSets.imp fun _ _ here => here.extend wider).concat ?_
    (spec.enumSets.entries_insert key ⟨spec.components.size⟩ (Bool.eq_false_iff.mpr fresh))
  exact ⟨Element.trimmed?_of_required named, root, present, declared⟩

end

/-- A new sequence keeps the declarations of the others. -/
theorem collected_addSequence {sequence : RecordSequence} {fields : List Field}
    {references : List (Reference .raw)} {components : List (Component .raw)}
    (collected : spec.Collected Element.firstNamed parameters functions enumSets sequences)
    (declared : (addSequence spec sequence fields references components).SequenceDeclared
      Element.firstNamed element
      { sequence with fields := fields.map Field.id, references := references.map Reference.id }) :
    (addSequence spec sequence fields references components).Collected Element.firstNamed
      parameters functions enumSets (sequences ++ [element]) := by
  have wider := extends_addSequence spec sequence fields references components
  refine ⟨collected.parameters, collected.functions.imp fun _ _ here => here.extend wider,
    collected.enumSets.imp fun _ _ here => here.extend wider, ?_⟩
  refine (collected.sequences.imp fun _ _ here => here.extend wider).concat declared ?_
  simp only [addSequence, Array.toList_push]
  exact List.perm_append_comm

private theorem readSequence_collected
    (collected : spec.Collected Element.firstNamed parameters functions enumSets sequences)
    (read : readSequence spec element = .ok next) :
    next.Collected Element.firstNamed parameters functions enumSets (sequences ++ [element]) := by
  obtain ⟨key, fields, references, sequence, components, named, -, record, parts, rfl⟩ :=
    readSequence_adds read
  cases parts with
  | random random typed parts =>
      obtain ⟨fieldsRead, referencesRead⟩ := readRecordType_read record
      obtain ⟨fieldsAll, referencesAll⟩ := readRecordType_declared record
      obtain ⟨-, keyed, sort, -⟩ := readRandomParts_read parts
      obtain ⟨typeElement, given⟩ := Option.isSome_iff_exists.mp typed
      rw [given, Option.getD_some] at fieldsAll referencesAll
      have once : element.firstNamed "record_type" = [typeElement] := by
        rw [Element.firstNamed, given, Option.toList_some]
      refine collected_addSequence collected ⟨?_, ?_, fun _ => ?_, fun _ => ?_, fun _ => ?_⟩
      · rw [Element.trimmed?_of_required named]
        exact congrArg some keyed.symm
      · rw [if_pos random]
        exact sort
      · rw [once, List.flatMap_singleton, ← List.map_tail]
        exact forall₂_handles fieldsAll fun field member =>
          fieldsRead.found field (List.mem_of_mem_tail member)
      · rw [once, List.flatMap_singleton]
        exact forall₂_handles referencesAll referencesRead.found
      · exact readRandomParts_declared parts (located_appended spec components)
  | unsupported other =>
      refine collected_addSequence collected ⟨Element.trimmed?_of_required named, ?_, ?_, ?_, ?_⟩
      · rw [if_neg other]
      all_goals
        intro random
        exact absurd random other

end Steps

/-- **The first containers of a document are read completely.** -/
theorem readRoot_lists {root : Element} {spec : Specification .raw}
    (read : readRoot root = .ok spec) : spec.Lists Element.firstNamed root := by
  unfold readRoot at read
  split at read
  · cases read
  simp only [sectionChildren_eq] at read
  obtain ⟨withParameters, parametersRead, read⟩ := bind_eq_ok_iff.mp read
  obtain ⟨withFunctions, functionsRead, read⟩ := bind_eq_ok_iff.mp read
  obtain ⟨withEnumerations, enumerationsRead, sequencesRead⟩ := bind_eq_ok_iff.mp read
  have empty : Specification.Collected {} Element.firstNamed [] [] [] [] :=
    ⟨⟨[], .nil, .nil⟩, ⟨[], .nil, .nil⟩, ⟨[], .nil, .nil⟩, ⟨[], .nil, .nil⟩⟩
  have first := foldlM_collects
    (fun done (state : Specification .raw) => state.Collected Element.firstNamed done [] [] []) empty
    (fun _ _ _ _ => readParameter_collected) parametersRead
  have second := foldlM_collects
    (fun done (state : Specification .raw) => state.Collected Element.firstNamed _ done [] []) first
    (fun _ _ _ _ => readFunction_collected) functionsRead
  have third := foldlM_collects
    (fun done (state : Specification .raw) => state.Collected Element.firstNamed _ _ done []) second
    (fun _ _ _ _ => readEnumeration_collected) enumerationsRead
  exact foldlM_collects
    (fun done (state : Specification .raw) => state.Collected Element.firstNamed _ _ _ done) third
    (fun _ _ _ _ => readSequence_collected) sequencesRead

/-- **What is dropped.** The declarations in the first container of every name all appear in the
specification, each as an entry of its own, and nothing else appears there. Every declaration of the
document does so exactly when no container behind the first one of its name holds any. -/
theorem parse_lists {text : String} {spec : Specification .raw} (parsed : parse text = .ok spec) :
    ∃ root, Markup.parse text = .ok root ∧ spec.Lists Element.firstNamed root ∧
      (spec.Lists Element.childrenNamed root ↔ root.NoneBehind) := by
  obtain ⟨root, scanned, read⟩ := bind_eq_ok_iff.mp parsed
  have lists := readRoot_lists read
  exact ⟨root, scanned, lists, lists.all_iff (readRoot_assembled read).wellFormed.sequenceKeys⟩

namespace Sample

private theorem noneBehind_root : root.NoneBehind := by
  refine ⟨?_, ?_, ?_, ?_, ?_⟩
  · rintro _ ⟨⟩
  · rintro _ ⟨⟩
  · rintro _ ⟨⟩
  · rintro _ ⟨⟩
  · intro sequence member _
    obtain rfl := List.mem_singleton.mp member
    refine ⟨?_, ?_, ?_⟩
    · rintro _ ⟨⟩
    · rintro _ ⟨⟩
    · rintro _ ⟨⟩

/-- A document with two sections of parameters, the first of them empty. -/
def repeatedRoot : Element :=
  { name := rootName
    children := [
      { name := "parameters" },
      { name := "parameters"
        children := [{ name := "parameter", attributes := [("key", "a"), ("value", "1")] }] }] }

/-- The text of the document. -/
def repeatedText : String :=
  String.ofList repeatedRoot.print

private theorem parse_repeatedText : Markup.parse repeatedText = .ok repeatedRoot :=
  Markup.Element.parse_print (by decide +kernel)

end Sample

/-- A document without repeated containers is read completely. -/
theorem sample_lists_all :
    ∃ spec, parse Sample.text = .ok spec ∧
      spec.Lists Element.childrenNamed Sample.root := by
  obtain ⟨spec, parsed, -⟩ := Sample.exists_parsed
  obtain ⟨root, scanned, -, all⟩ := parse_lists parsed
  obtain rfl := Except.ok.inj (Sample.parse_text.symm.trans scanned)
  exact ⟨spec, parsed, all.mpr Sample.noneBehind_root⟩

/-- A parameter in the second of two sections is dropped, and the document is accepted. -/
theorem repeated_parameter_dropped :
    ∃ spec container parameter, parse Sample.repeatedText = .ok spec ∧
      Markup.parse Sample.repeatedText = .ok Sample.repeatedRoot ∧
      container ∈ Sample.repeatedRoot.childrenNamed "parameters" ∧
      parameter ∈ container.childrenNamed "parameter" ∧
      parameter.trimmed? "key" = some "a" ∧ spec.parameters.get? "a" = none := by
  refine ⟨{}, { name := "parameters", children := [_] }, _, ?_, Sample.parse_repeatedText,
    .tail _ (.head _), .head _, rfl, rfl⟩
  rw [parse_eq_readRoot Sample.parse_repeatedText]
  rfl

end Prototype

end Recordgen

import Recordgen.Proofs.Declarations

/-! # The order of unrelated elements

Elements are looked up by name, and the arguments of a component by key. So the order of children
that are told apart by their names or keys does not matter: a document and a document that is
obtained from it by moving such children past each other, at any depth (`Reordered`), are read as
the same specification, handles and all, or are both refused (`readRoot_reordered`). Which fault is
reported may differ, since unknown keys are looked for in document order.
-/

namespace Recordgen.Prototype

open Markup (Element)
open Outcome

variable {first second : Element} {reads : Element → Element → Prop} {around : Surroundings}
  {others supplied : List Candidate}

/-- Where an element stands in a document, as far as the order of its children is concerned. -/
inductive Place where
  | document
  /-- A section of functions or enumerations, or a setter chain. -/
  | components
  | sequences
  | sequence
  | recordType
  | component
  | elsewhere

namespace Place

/-- The place of a child with the given name. -/
def inside : Place → String → Place
  | document, name =>
    if name = "functions" ∨ name = "enum_sets" then components
    else if name = "record_sequences" then sequences
    else elsewhere
  | components, _ => component
  | sequences, _ => sequence
  | sequence, name =>
    if name = "record_type" then recordType
    else if name = "setter_chain" then components
    else if name = "output_format" ∨ name = "cardinality_estimator" ∨ name = "sequence_iterator" then
      component
    else elsewhere
  | component, name => if name = "argument" then component else elsewhere
  | recordType, _ | elsewhere, _ => elsewhere

/-- What tells the children at a place apart. Children with different tags are unrelated. -/
def tag : Place → Element → Option String
  | document, child | sequence, child | recordType, child => some child.name
  | component, child => if child.name = "argument" then child.trimmed? "key" else none
  | components, _ | sequences, _ | elsewhere, _ => none

end Place

/-- Two elements that differ in the order of unrelated children, their own or those of elements
inside them. Children with the same tag stay in order. -/
inductive Reordered : Place → Element → Element → Prop
  | children {place : Place} {name : String} {attributes : List (String × String)}
      {first second : List Element}
      (kept : ∀ tag, second.filter (fun child => place.tag child = tag) =
        first.filter fun child => place.tag child = tag) :
      Reordered place ⟨name, attributes, first⟩ ⟨name, attributes, second⟩
  | inside {place : Place} {name : String} {attributes : List (String × String)}
      {before after : List Element} {child other : Element}
      (changed : Reordered (place.inside child.name) child other) :
      Reordered place ⟨name, attributes, before ++ child :: after⟩
        ⟨name, attributes, before ++ other :: after⟩
  | trans {place : Place} {first second third : Element} (left : Reordered place first second)
      (right : Reordered place second third) : Reordered place first third

/-- Two unrelated children that stand side by side can be exchanged. -/
theorem Reordered.swap {place : Place} {name : String} {attributes : List (String × String)}
    {before after : List Element} {first second : Element}
    (apart : place.tag first ≠ place.tag second) :
    Reordered place ⟨name, attributes, before ++ first :: second :: after⟩
      ⟨name, attributes, before ++ second :: first :: after⟩ := by
  apply Reordered.children
  intro tag
  rw [List.filter_append, List.filter_append]
  by_cases here : place.tag first = tag
  · have other : place.tag second ≠ tag := fun same => apart (here.trans same.symm)
    simp [here, other]
  · simp [List.filter_cons, here]

/-! ## Elements that are read alike -/

/-- Two readers of components give the same components. -/
def ReadersAgree (first second : ComponentReader) : Prop :=
  ∀ category typeText key placement base,
    Agree (first category typeText key placement base) (second category typeText key placement base)

/-- Two elements with the same name and attributes that are read alike. -/
structure Alike (reads : Element → Element → Prop) (first second : Element) : Prop where
  name : second.name = first.name
  attributes : second.attributes = first.attributes
  reads : reads first second

/-- Two elements describe the same component. -/
def ComponentsAgree (first second : Element) : Prop :=
  ReadersAgree (componentReader first) (componentReader second)

/-- Two elements describe the same sequence. -/
def SequencesAgree (first second : Element) : Prop :=
  ∀ spec, Agree (readSequence spec first) (readSequence spec second)

/-- What being read alike means at a place. -/
def Place.Reads : Place → Element → Element → Prop
  | document, first, second => Agree (readRoot first) (readRoot second)
  | components, first, second => ∀ name, List.Forall₂ (Alike ComponentsAgree)
      (first.childrenNamed name) (second.childrenNamed name)
  | sequences, first, second => List.Forall₂ (Alike SequencesAgree) first.children second.children
  | sequence, first, second => SequencesAgree first second
  | recordType, first, second => ∀ name, second.childrenNamed name = first.childrenNamed name
  | component, first, second => ComponentsAgree first second
  | elsewhere, first, second => second = first

theorem Alike.refl {element : Element} (same : reads element element) :
    Alike reads element element :=
  ⟨rfl, rfl, same⟩

theorem Alike.trans (compose : ∀ x y z, reads x y → reads y z → reads x z)
    (first second third : Element) (left : Alike reads first second)
    (right : Alike reads second third) : Alike reads first third :=
  ⟨right.name.trans left.name, right.attributes.trans left.attributes,
    compose _ _ _ left.reads right.reads⟩

namespace Place.Reads

theorem refl (place : Place) (element : Element) : place.Reads element element := by
  have agree : ∀ element, ComponentsAgree element element :=
    fun _ _ _ _ _ _ => .of_eq rfl
  have agreeing : ∀ element, SequencesAgree element element :=
    fun _ _ => .of_eq rfl
  cases place with
  | document => exact .of_eq rfl
  | components =>
      intro name
      exact List.forall₂_same.mpr fun child _ => .refl (agree child)
  | sequences => exact List.forall₂_same.mpr fun child _ => .refl (agreeing child)
  | sequence => exact agreeing element
  | recordType => exact fun _ => rfl
  | component => exact agree element
  | elsewhere => rfl

theorem trans {place : Place} {first second third : Element} (left : place.Reads first second)
    (right : place.Reads second third) : place.Reads first third := by
  have compose : ∀ x y z : Element, ComponentsAgree x y → ComponentsAgree y z →
      ComponentsAgree x z :=
    fun _ _ _ before after category typeText key placement base value =>
      (before category typeText key placement base value).trans
        (after category typeText key placement base value)
  have composed : ∀ x y z : Element, SequencesAgree x y → SequencesAgree y z →
      SequencesAgree x z :=
    fun _ _ _ before after spec value => (before spec value).trans (after spec value)
  cases place with
  | document => exact fun value => (left value).trans (right value)
  | components =>
      intro name
      exact forall₂_trans (Alike.trans compose) (left name) (right name)
  | sequences => exact forall₂_trans (Alike.trans composed) left right
  | sequence => exact composed _ _ _ left right
  | recordType => exact fun name => (right name).trans (left name)
  | component => exact compose _ _ _ left right
  | elsewhere => exact Eq.trans right left

end Place.Reads

/-! ## Components -/

private theorem attribute?_eq (same : second.attributes = first.attributes) :
    second.attribute? = first.attribute? := by
  funext key
  rw [Element.attribute?, Element.attribute?, same]

private theorem required_eq (named : second.name = first.name)
    (same : second.attributes = first.attributes) : second.required = first.required := by
  funext key place
  rw [Element.required, Element.required, attribute?_eq same, named]

/-- Two elements that may hold an argument, and hold the same one. -/
structure CandidatesAgree (first second : Candidate) : Prop where
  name : second.element.name = first.element.name
  attributes : second.element.attributes = first.element.attributes
  read : ReadersAgree first.read second.read

private theorem readItem_agree {key : String} {item : ItemKind} {base : Nat}
    {first second : Candidate} (agree : CandidatesAgree first second) :
    Agree (readItem around key item base first) (readItem around key item base second) := by
  have required := required_eq agree.name agree.attributes
  have given := attribute?_eq agree.attributes
  cases item with
  | nested category =>
      simp only [readItem, required]
      refine .bind (.of_eq rfl) fun typeText => ?_
      exact .bind (agree.read _ _ _ _ _) fun nested => .of_eq rfl
  | literal =>
      apply Agree.of_eq
      simp only [readItem, literalOf, required, given]
  | fieldRef | referenceRef | functionRef =>
      apply Agree.of_eq
      simp only [readItem, required]

private theorem readItems_agree {key : String} {item : ItemKind} {given : List Candidate}
    (agree : List.Forall₂ CandidatesAgree given others) (base : Nat) :
    Agree (readItems around key item base given) (readItems around key item base others) := by
  induction agree generalizing base with
  | nil => exact .of_eq rfl
  | cons here _ ih =>
      rw [readItems, readItems]
      refine .bind (readItem_agree here) fun first => ?_
      exact .bind (ih _) fun rest => .of_eq rfl

/-- The candidates for the argument with a key. -/
def Candidate.forKey (supplied : List Candidate) (key : String) : List Candidate :=
  supplied.filter fun candidate => candidate.hasKey key

private theorem readEntry_agree {entry : SchemaEntry} (base : Nat)
    (agree : List.Forall₂ CandidatesAgree (Candidate.forKey supplied entry.key)
      (Candidate.forKey others entry.key)) :
    Agree (readEntry around supplied base entry) (readEntry around others base entry) := by
  unfold Candidate.forKey at agree
  unfold readEntry
  dsimp only
  generalize supplied.filter (fun candidate => candidate.hasKey entry.key) = given at agree ⊢
  generalize others.filter (fun candidate => candidate.hasKey entry.key) = offered at agree ⊢
  cases entry.kind with
  | single item =>
      cases agree with
      | nil => exact .of_eq rfl
      | cons here rest =>
          cases rest with
          | nil => exact .map (readItem_agree here)
          | cons => exact .of_eq rfl
  | collection item =>
      cases agree with
      | nil => exact .of_eq rfl
      | cons here rest =>
          exact .bind (readItems_agree (.cons here rest) base) fun _ => .of_eq rfl

private theorem readEntries_agree
    (agree : ∀ key, List.Forall₂ CandidatesAgree (Candidate.forKey supplied key)
      (Candidate.forKey others key))
    (schema : List SchemaEntry) (base : Nat) :
    Agree (readEntries around supplied base schema) (readEntries around others base schema) := by
  induction schema generalizing base with
  | nil => exact .of_eq rfl
  | cons entry schema ih =>
      rw [readEntries, readEntries]
      refine .bind (readEntry_agree base (agree entry.key)) fun result => ?_
      cases result with
      | none => exact ih base
      | some first => exact .bind (ih _) fun rest => .of_eq rfl

/-- The candidates that are arguments. -/
def Candidate.arguments (children : List Candidate) : List Candidate :=
  children.filter fun candidate => candidate.element.name == "argument"

/-- A component is read alike if there are the same candidates for every key, and if no key is
refused on one side only. -/
theorem readComponent_agree {children : List Candidate} (agree : ∀ key, List.Forall₂ CandidatesAgree
      (Candidate.forKey (Candidate.arguments children) key)
      (Candidate.forKey (Candidate.arguments others) key))
   
    (checked : ∀ place schema,
      (∀ candidate ∈ Candidate.arguments children, checkKey place schema candidate.element = .ok ()) ↔
        ∀ candidate ∈ Candidate.arguments others, checkKey place schema candidate.element = .ok ()) :
    
    ReadersAgree (readComponent children) (readComponent others) := by
  intro category typeText key placement base
  unfold readComponent
  refine .bind (.of_eq rfl) fun found => .bind ?_ fun _ => ?_
  · intro value
    cases value
    rw [forM_eq_ok_iff, forM_eq_ok_iff]
    exact checked _ _
  · exact .bind (readEntries_agree agree _ _) fun result => .of_eq rfl

/-- An element with the reader of its component. -/
def candidateOf (element : Element) : Candidate :=
  ⟨element, componentReader element⟩

private theorem candidates_eq_map (children : List Element) :
    candidates children = children.map candidateOf := by
  induction children with
  | nil => rfl
  | cons child children ih => rw [candidates, ih, List.map_cons, candidateOf]

private theorem arguments_candidates (children : List Element) :
    Candidate.arguments (candidates children) =
      (children.filter fun child => child.name == "argument").map candidateOf := by
  rw [Candidate.arguments, candidates_eq_map, List.filter_map]
  rfl

/-- The candidates for a key are the children with that tag. -/
theorem forKey_candidates (children : List Element) (key : String) :
    Candidate.forKey (Candidate.arguments (candidates children)) key =
      (children.filter fun child => Place.component.tag child = some key).map candidateOf := by
  rw [Candidate.forKey, arguments_candidates, List.filter_map, List.filter_filter]
  refine congrArg (List.map candidateOf) (List.filter_congr fun child _ => ?_)
  by_cases argument : child.name = "argument"
  · simp only [Place.tag, argument, Function.comp_apply, Candidate.hasKey, candidateOf, if_true,
      beq_self_eq_true, Bool.and_true]
    exact beq_eq_decide _ _
  · simp [Place.tag, argument]

private theorem tag_eq {place : Place} (named : second.name = first.name)
    (same : second.attributes = first.attributes) : place.tag second = place.tag first := by
  cases place <;> simp only [Place.tag, Element.trimmed?, named, attribute?_eq same]

private theorem checkKey_eq (named : second.name = first.name)
    (same : second.attributes = first.attributes) (place : String) (schema : List SchemaEntry) :
    checkKey place schema second = checkKey place schema first := by
  rw [checkKey, checkKey, required_eq named same]

section ComponentChildren

variable {name : String} {attributes : List (String × String)} {first second : List Element}

private theorem mem_iff_of_kept {place : Place}
    (kept : ∀ tag, second.filter (fun child => place.tag child = tag) =
      first.filter fun child => place.tag child = tag) (child : Element) :
    child ∈ second ↔ child ∈ first := by
  have same := congrArg (child ∈ ·) (kept (place.tag child))
  simpa using same

private theorem componentsAgree_children
    (kept : ∀ tag, second.filter (fun child => Place.component.tag child = tag) =
      first.filter fun child => Place.component.tag child = tag) :
    ComponentsAgree ⟨name, attributes, first⟩ ⟨name, attributes, second⟩ := by
  unfold ComponentsAgree
  rw [componentReader, componentReader]
  apply readComponent_agree
  · intro key
    rw [forKey_candidates, forKey_candidates, kept]
    exact List.forall₂_same.mpr fun _ _ => ⟨rfl, rfl, fun _ _ _ _ _ => .of_eq rfl⟩
  · intro place schema
    simp only [arguments_candidates, List.forall_mem_map, List.mem_filter, mem_iff_of_kept kept]

private theorem componentsAgree_inside
    (all : List.Forall₂ (fun child other => Alike (Place.component.inside child.name).Reads child other)
      first second) :
    ComponentsAgree ⟨name, attributes, first⟩ ⟨name, attributes, second⟩ := by
  unfold ComponentsAgree
  rw [componentReader, componentReader]
  apply readComponent_agree
  · intro key
    rw [forKey_candidates, forKey_candidates, List.forall₂_map_left_iff,
      List.forall₂_map_right_iff]
    have tagged := forall₂_filter (fun child => Place.component.tag child = some key) all
      fun _ _ alike => by rw [tag_eq alike.name alike.attributes]
    refine tagged.imp fun child other both => ?_
    obtain ⟨matching, alike⟩ := both
    have argument : child.name = "argument" := by
      by_contra different
      simp [Place.tag, different] at matching
    rw [argument] at alike
    exact ⟨alike.name, alike.attributes, alike.reads⟩
  · intro place schema
    have named := forall₂_filter (fun child => child.name == "argument") all
      fun _ _ alike => by rw [alike.name]
    rw [arguments_candidates, arguments_candidates, List.forall_mem_map, List.forall_mem_map]
    refine forall_mem_iff_of_forall₂ named fun child other both => ?_
    have same : checkKey place schema other = checkKey place schema child :=
      checkKey_eq both.2.name both.2.attributes place schema
    rw [candidateOf, candidateOf, same]

end ComponentChildren

/-! ## Sequences -/

/-- The children that an element hands on under each name are read alike. -/
def Handed (place : Place) (first second : Element) : Prop :=
  ∀ name, List.Forall₂ (Alike (place.inside name).Reads) (first.childrenNamed name)
    (second.childrenNamed name)

/-- For every name, elements that are handed over alike have first children that are alike. -/
theorem Handed.child? {place : Place} (handed : Handed place first second) (name : String) :
    Option.Rel (Alike (place.inside name).Reads) (first.child? name) (second.child? name) := by
  rw [Element.child?, Element.child?, ← List.head?_filter, ← List.head?_filter]
  exact rel_head? (handed name)

section NamedChildren

variable {place : Place} {name : String} {attributes : List (String × String)}
  {first second : List Element}

section

variable (named : ∀ child, place.tag child = some child.name)
  (kept : ∀ tag, second.filter (fun child => place.tag child = tag) =
    first.filter fun child => place.tag child = tag)

include named kept

/-- Where children are told apart by their names, those with one name stay in order. -/
theorem childrenNamed_of_kept (wanted : String) :
    Element.childrenNamed ⟨name, attributes, second⟩ wanted =
      Element.childrenNamed ⟨name, attributes, first⟩ wanted := by
  have same := kept (some wanted)
  simp only [named, Option.some.injEq] at same
  exact same

private theorem handed_of_kept :
    Handed place ⟨name, attributes, first⟩ ⟨name, attributes, second⟩ := by
  intro wanted
  rw [childrenNamed_of_kept named kept]
  exact List.forall₂_same.mpr fun child _ => .refl (.refl _ child)

end

private theorem handed_inside
    (all : List.Forall₂ (fun child other => Alike (place.inside child.name).Reads child other)
      first second) :
    Handed place ⟨name, attributes, first⟩ ⟨name, attributes, second⟩ := by
  intro wanted
  have chosen := forall₂_filter (fun child => child.name == wanted) all
    fun _ _ alike => by rw [alike.name]
  refine chosen.imp fun child other both => ?_
  obtain ⟨matching, alike⟩ := both
  rwa [beq_iff_eq.mp matching] at alike

end NamedChildren

section Readers

variable {first second : Element} {sequence : SequenceId} {category : Category} {base : Nat}

private theorem readOwned_agree {place : String} (alike : Alike ComponentsAgree first second) :
    Agree (readOwned sequence place category base first)
      (readOwned sequence place category base second) := by
  rw [readOwned, readOwned, required_eq alike.name alike.attributes]
  exact .bind (.of_eq rfl) fun typeText => alike.reads _ _ _ _ _

private theorem readOptional_agree {place : String}
    (held : Option.Rel (Alike ComponentsAgree) (first.child? category.name)
      (second.child? category.name)) :
    Agree (readOptional sequence place category base first)
      (readOptional sequence place category base second) := by
  rw [readOptional, readOptional]
  generalize first.child? category.name = left at held ⊢
  generalize second.child? category.name = right at held ⊢
  cases held with
  | none => exact .of_eq rfl
  | some alike => exact .bind (readOwned_agree alike) fun read => .of_eq rfl

private theorem readSetter_agree {place : String} (chain : ChainRead)
    (alike : Alike ComponentsAgree first second) :
    Agree (readSetter sequence place base chain first)
      (readSetter sequence place base chain second) := by
  rw [readSetter, readSetter, required_eq alike.name alike.attributes]
  refine .bind (.of_eq rfl) fun key => ?_
  split
  · exact .of_eq rfl
  · refine .bind (.of_eq rfl) fun typeText => ?_
    exact .bind (alike.reads _ _ _ _ _) fun components => .of_eq rfl

private theorem readChain_agree {place : String}
    (held : Option.Rel (Alike Place.components.Reads) (first.child? "setter_chain")
      (second.child? "setter_chain")) :
    Agree (readChain sequence place base first) (readChain sequence place base second) := by
  rw [readChain, readChain]
  generalize first.child? "setter_chain" = left at held ⊢
  generalize second.child? "setter_chain" = right at held ⊢
  cases held with
  | none => exact .of_eq rfl
  | some alike =>
      refine Agree.foldlM ((alike.reads "setter").imp fun _ _ setters chain => ?_) ({} : ChainRead)
      exact readSetter_agree chain setters

private theorem readRandomParts_agree {spec : Specification .raw} {sequence : RecordSequence}
    {place : String} (handed : Handed .sequence first second) :
    Agree (readRandomParts spec sequence place first)
      (readRandomParts spec sequence place second) := by
  rw [readRandomParts, readRandomParts]
  refine .bind (readOptional_agree (handed.child? "output_format")) fun format => ?_
  refine .bind (readChain_agree (handed.child? "setter_chain")) fun chain => ?_
  have estimators := handed.child? "cardinality_estimator"
  generalize first.child? "cardinality_estimator" = left at estimators ⊢
  generalize second.child? "cardinality_estimator" = right at estimators ⊢
  cases estimators with
  | none => exact .of_eq rfl
  | some alike =>
      refine .bind (readOwned_agree alike) fun estimator => ?_
      exact .bind (readOptional_agree (handed.child? "sequence_iterator")) fun _ => .of_eq rfl

/-- A record type is what its fields and its references are. -/
theorem readRecordType_eq {enumSets : KeyMap ComponentId} {key : String} {owner : SequenceId}
    {fieldBase referenceBase : Nat}
    (same : ∀ name, second.childrenNamed name = first.childrenNamed name) :
    readRecordType enumSets key owner fieldBase referenceBase second =
      readRecordType enumSets key owner fieldBase referenceBase first := by
  rw [readRecordType, readRecordType, same, same]

private theorem readSequence_agree (named : second.name = first.name)
    (same : second.attributes = first.attributes) (handed : Handed .sequence first second) :
    SequencesAgree first second := by
  intro spec
  rw [readSequence, readSequence, required_eq named same, named]
  refine .bind (.of_eq rfl) fun key => ?_
  have types := handed.child? "record_type"
  generalize first.child? "record_type" = left at types ⊢
  generalize second.child? "record_type" = right at types ⊢
  by_cases used : (spec.sequenceByKey? key).isSome = true
  · simp only [if_pos used]
    exact .of_eq rfl
  simp only [if_neg used]
  cases types with
  | none =>
      split
      · exact .of_eq rfl
      · exact .of_eq rfl
  | some alike =>
      have record : readRecordType spec.enumSets key ⟨spec.sequences.size⟩ spec.fields.size
          spec.references.size _ = _ := readRecordType_eq alike.reads
      split
      · refine .bind (.of_eq record.symm) fun record => ?_
        exact .bind (readRandomParts_agree handed) fun parts => .of_eq rfl
      · exact .bind (.of_eq record.symm) fun record => .of_eq rfl

private theorem readFunction_agree (spec : Specification .raw)
    (alike : Alike ComponentsAgree first second) :
    Agree (readFunction spec first) (readFunction spec second) := by
  rw [readFunction, readFunction, required_eq alike.name alike.attributes]
  refine .bind (.of_eq rfl) fun key => ?_
  split
  · exact .of_eq rfl
  · refine .bind (.of_eq rfl) fun typeText => ?_
    exact .bind (alike.reads _ _ _ _ _) fun components => .of_eq rfl

private theorem readEnumeration_agree (spec : Specification .raw)
    (alike : Alike ComponentsAgree first second) :
    Agree (readEnumeration spec first) (readEnumeration spec second) := by
  rw [readEnumeration, readEnumeration, required_eq alike.name alike.attributes]
  refine .bind (.of_eq rfl) fun key => ?_
  split
  · exact .of_eq rfl
  · exact .bind (alike.reads _ _ _ _ _) fun components => .of_eq rfl

end Readers

/-! ## Documents -/

/-- The entries of a section, if the section is read alike. -/
theorem sectionChildren_alike {related : Element → Element → Prop} {name : String}
    {select : Element → List Element}
    (held : Option.Rel (Alike reads) (first.child? name) (second.child? name))
    (entries : ∀ child other, Alike reads child other →
      List.Forall₂ related (select child) (select other)) :
    List.Forall₂ related (sectionChildren first name select)
      (sectionChildren second name select) := by
  rw [sectionChildren, sectionChildren]
  generalize first.child? name = left at held ⊢
  generalize second.child? name = right at held ⊢
  cases held with
  | none => exact .nil
  | some alike => exact entries _ _ alike

private theorem readRoot_agree (named : second.name = first.name)
    (handed : Handed .document first second) : Agree (readRoot first) (readRoot second) := by
  have parameters : List.Forall₂ Eq (sectionChildren first "parameters" (·.childrenNamed "parameter"))
      (sectionChildren second "parameters" (·.childrenNamed "parameter")) := by
    apply sectionChildren_alike (handed.child? "parameters")
    intro child other alike
    obtain rfl : other = child := alike.reads
    exact List.forall₂_refl _
  have functions : List.Forall₂ (Alike ComponentsAgree)
      (sectionChildren first "functions" (·.childrenNamed "function"))
      (sectionChildren second "functions" (·.childrenNamed "function")) :=
    sectionChildren_alike (handed.child? "functions") fun _ _ alike => alike.reads "function"
  have enumSets : List.Forall₂ (Alike ComponentsAgree)
      (sectionChildren first "enum_sets" (·.childrenNamed "enum_set"))
      (sectionChildren second "enum_sets" (·.childrenNamed "enum_set")) :=
    sectionChildren_alike (handed.child? "enum_sets") fun _ _ alike => alike.reads "enum_set"
  have sequences : List.Forall₂ (Alike SequencesAgree)
      (sectionChildren first "record_sequences" Element.children)
      (sectionChildren second "record_sequences" Element.children) :=
    sectionChildren_alike (handed.child? "record_sequences") fun _ _ alike => alike.reads
  rw [readRoot, readRoot, named]
  split
  · exact .of_eq rfl
  refine .bind (.foldlM (parameters.imp fun _ _ same spec => .of_eq (same ▸ rfl)) _) fun spec => ?_
  refine .bind (.foldlM (functions.imp fun _ _ alike spec => readFunction_agree spec alike) _)
    fun spec => ?_
  refine .bind (.foldlM (enumSets.imp fun _ _ alike spec => readEnumeration_agree spec alike) _)
    fun spec => ?_
  exact .foldlM (sequences.imp fun _ _ alike => alike.reads) _

/-! ## Reordered documents -/

section Steps

variable {place : Place} {name : String} {attributes : List (String × String)}
  {first second : List Element}

/-- Children with one tag everywhere cannot be moved. -/
theorem eq_of_kept (untagged : ∀ child, place.tag child = none)
    (kept : ∀ tag, second.filter (fun child => place.tag child = tag) =
      first.filter fun child => place.tag child = tag) : second = first := by
  simpa [untagged] using kept none

/-- Children may change places if those of one tag keep their order. -/
theorem Place.Reads.children
    (kept : ∀ tag, second.filter (fun child => place.tag child = tag) =
      first.filter fun child => place.tag child = tag) :
    place.Reads ⟨name, attributes, first⟩ ⟨name, attributes, second⟩ := by
  cases place with
  | document => exact readRoot_agree rfl (handed_of_kept (fun _ => rfl) kept)
  | sequence => exact readSequence_agree rfl rfl (handed_of_kept (fun _ => rfl) kept)
  | recordType => exact childrenNamed_of_kept (fun _ => rfl) kept
  | component => exact componentsAgree_children kept
  | components | sequences | elsewhere =>
      rw [eq_of_kept (fun _ => rfl) kept]
      exact .refl _ _

/-- Elements read alike if their children do, one by one. -/
theorem Place.Reads.inside
    (all : List.Forall₂ (fun child other => Alike (place.inside child.name).Reads child other)
      first second) : place.Reads ⟨name, attributes, first⟩ ⟨name, attributes, second⟩ := by
  cases place with
  | document => exact readRoot_agree rfl (handed_inside all)
  | components => exact handed_inside all
  | sequences => exact all
  | sequence => exact readSequence_agree rfl rfl (handed_inside all)
  | component => exact componentsAgree_inside all
  | recordType | elsewhere =>
      have same : first = second := by
        rw [← List.forall₂_eq_eq_eq]
        exact all.imp fun _ _ alike => Eq.symm alike.reads
      rw [same]
      exact .refl _ _

end Steps

/-- Reordering keeps names, attributes and what is read. -/
theorem Reordered.alike {place : Place} (reordered : Reordered place first second) :
    Alike place.Reads first second := by
  induction reordered with
  | children kept => exact ⟨rfl, rfl, .children kept⟩
  | inside _ changed =>
      refine ⟨rfl, rfl, .inside (List.rel_append ?_ (.cons changed ?_))⟩
      · exact List.forall₂_same.mpr fun child _ => .refl (.refl _ child)
      · exact List.forall₂_same.mpr fun child _ => .refl (.refl _ child)
  | trans _ _ left right => exact Alike.trans (fun _ _ _ => .trans) _ _ _ left right

/-- **The order of unrelated elements does not matter.** A document is read as a specification
exactly when the reordered document is read as the same specification. -/
theorem readRoot_reordered {first second : Element} (reordered : Reordered .document first second)
    (spec : Specification .raw) :
    (readRoot first = .ok spec ↔ readRoot second = .ok spec) ∧
      ∀ text other, Markup.parse text = .ok first → Markup.parse other = .ok second →
        (parse text = .ok spec ↔ parse other = .ok spec) := by
  have agree : readRoot first = .ok spec ↔ readRoot second = .ok spec := reordered.alike.reads spec
  refine ⟨agree, fun text other scanned also => ?_⟩
  rw [parse_eq_readRoot scanned, parse_eq_readRoot also]
  exact agree

namespace Sample

/-- A section with one function, which takes the given arguments. -/
def functionSection (arguments : List Element) : Element :=
  { name := "functions", children := [keyed "function" "f" "normal_probability" arguments] }

/-- A record type with the given members. -/
def recordType (members : List Element) : Element :=
  { name := "record_type", children := members }

/-- A section with one random sequence, which has the given parts. -/
def sequenceSection (parts : List Element) : Element :=
  { name := "record_sequences"
    children := [{ name := "random_sequence", attributes := [("key", "r")], children := parts }] }

def mean : Element :=
  literal "mean" "Decimal" "0"

def deviation : Element :=
  literal "stddev" "Decimal" "1"

def fieldElement : Element :=
  { name := "field", attributes := [("name", "a"), ("type", "I32")] }

def referenceElement : Element :=
  { name := "reference", attributes := [("name", "p"), ("type", "r")] }

def estimatorElement : Element :=
  { name := "cardinality_estimator"
    attributes := [("type", "const_estimator")]
    children := [literal "cardinality" "I64u" "1"] }

/-- A document in the usual order. -/
def orderedRoot : Element :=
  { name := rootName
    children := [
      functionSection [mean, deviation],
      sequenceSection [recordType [fieldElement, referenceElement], estimatorElement]] }

/-- The same document with its sections, the parts of its sequence, the members of its record type
and the arguments of its function the other way round. -/
def shuffledRoot : Element :=
  { name := rootName
    children := [
      sequenceSection [estimatorElement, recordType [referenceElement, fieldElement]],
      functionSection [deviation, mean]] }

private theorem reordered_functionSection :
    Reordered .components (functionSection [mean, deviation]) (functionSection [deviation, mean]) := by
  apply @Reordered.inside .components _ _ [] []
  exact @Reordered.swap _ _ _ [] [] mean deviation (by decide)

private theorem reordered_sequenceSection :
    Reordered .sequences
      (sequenceSection [recordType [fieldElement, referenceElement], estimatorElement])
      (sequenceSection [estimatorElement, recordType [referenceElement, fieldElement]]) := by
  apply @Reordered.inside .sequences _ _ [] []
  have members : Reordered .recordType (recordType [fieldElement, referenceElement])
      (recordType [referenceElement, fieldElement]) :=
    @Reordered.swap _ _ _ [] [] fieldElement referenceElement (by decide)
  exact .trans (@Reordered.inside .sequence _ _ [] [estimatorElement] _ _ members)
    (@Reordered.swap _ _ _ [] [] _ estimatorElement (by decide))

private theorem reordered_shuffled : Reordered .document orderedRoot shuffledRoot := by
  refine .trans (@Reordered.inside .document _ _ [] [_] _ _ reordered_functionSection) ?_
  refine .trans (@Reordered.inside .document _ _ [_] [] _ _ reordered_sequenceSection) ?_
  exact @Reordered.swap .document _ _ [] [] _ _ (by decide)

/-- The kinds of the components and the names of the fields and references that a reading gives. -/
def contents : Except CompileError (Specification .raw) →
    List Kind × List String × List String
  | .ok spec => (spec.components.toList.map Component.kind, spec.fields.toList.map Field.name,
      spec.references.toList.map Reference.name)
  | .error _ => ([], [], [])

end Sample

/-- A document that is reordered at four depths. -/
theorem shuffled_read_alike :
    ∃ spec, readRoot Sample.orderedRoot = .ok spec ∧ readRoot Sample.shuffledRoot = .ok spec ∧
      Sample.contents (.ok spec) =
        ([.normalProbability, .constEstimator], ["gen_id", "a"], ["p"]) := by
  have read : Sample.contents (readRoot Sample.orderedRoot) =
      ([.normalProbability, .constEstimator], ["gen_id", "a"], ["p"]) := by
    decide +kernel
  cases found : readRoot Sample.orderedRoot with
  | ok spec =>
      rw [found] at read
      have same := (readRoot_reordered Sample.reordered_shuffled spec).1
      exact ⟨spec, rfl, same.mp found, read⟩
  | error fault =>
      rw [found] at read
      cases read

end Recordgen.Prototype

import Recordgen.Proofs.LinkTargets

/-! # Walking along a path

A field path is a list of trimmed segments. A path of one segment names a field of the record that
holds it. A longer one names a sequence, then references that are followed from record to record by
the table of their targets (`Specification.Walks`), then a field of the record reached last
(`Specification.Reaches`). When a path leads nowhere, the segment to blame is the leftmost one that
cannot be followed (`Specification.Blames`). Both relations are stated on the lists of the arena,
where the first entry of a name is the one that counts. The main statement is that
`resolveFieldPath` finds exactly the links that are reached and fails exactly with the segments that
are to blame (`Linking.resolveFieldPath_walks`).
-/

namespace Recordgen

open Outcome

variable {wanted : String}

/-- The segments of a path between its colons, without the blanks around them. -/
def trimmedSegments (path : String) : List String :=
  (path.toList.splitOn ':').map fun part => String.ofList (Text.trimChars part)

/-- A value is the first one of a list with the given label. -/
def FirstLabelled {α : Type} (label : α → String) (values : List α) (wanted : String)
    (value : α) : Prop :=
  ∃ before behind, values = before ++ value :: behind ∧ label value = wanted ∧
    ∀ other ∈ before, label other ≠ wanted

namespace Specification

variable {phase : Phase}

/-- Every part of an arena stands at its handle, and the handles that sequences list lead to parts
of the arena. -/
structure Indexed (spec : Specification phase) : Prop where
  sequences : ∀ (index : Nat) (sequence : RecordSequence),
    spec.sequences[index]? = some sequence → sequence.id = ⟨index⟩
  fields : ∀ (index : Nat) (field : Field), spec.fields[index]? = some field → field.id = ⟨index⟩
  references : ∀ (index : Nat) (reference : Reference phase),
    spec.references[index]? = some reference → reference.id = ⟨index⟩
  fieldsInside : ∀ sequence ∈ spec.sequences.toList, ∀ id ∈ sequence.fields,
    id.index < spec.fields.size
  referencesInside : ∀ sequence ∈ spec.sequences.toList, ∀ id ∈ sequence.references,
    id.index < spec.references.size

variable (spec : Specification phase)

/-- A handle is the position of the first sequence with the given key. -/
def KeyedBy (key : String) (root : SequenceId) : Prop :=
  ∃ before sequence behind, spec.sequences.toList = before ++ sequence :: behind ∧
    sequence.key = key ∧ (∀ other ∈ before, other.key ≠ key) ∧ root = ⟨before.length⟩

/-- A handle is that of the first field of a record with the given name. -/
def FieldNamed (record : SequenceId) (name : String) (id : FieldId) : Prop :=
  FirstLabelled (fun id => (spec.field id).name) (spec.sequence record).fields name id

/-- A handle is that of the first reference of a record with the given name. -/
def ReferenceNamed (record : SequenceId) (name : String) (id : ReferenceId) : Prop :=
  FirstLabelled (fun id => (spec.reference id).name) (spec.sequence record).references name id

/-- Segments lead from one record to another through references. Each segment names a reference of
the record reached so far, and `targets` tells where it goes. -/
inductive Walks (targets : List SequenceId) :
    SequenceId → List String → List ReferenceId → SequenceId → Prop
  | stay (record : SequenceId) : Walks targets record [] [] record
  | follow {record next last : SequenceId} {segment : String} {rest : List String}
      {id : ReferenceId} {ids : List ReferenceId} (named : spec.ReferenceNamed record segment id)
      (target : targets[id.index]? = some next) (onward : Walks targets next rest ids last) :
      Walks targets record (segment :: rest) (id :: ids) last

/-- The first reference of that name, if there is one, goes nowhere. -/
def Stuck (targets : List SequenceId) (record : SequenceId) (segment : String) : Prop :=
  ∀ id, spec.ReferenceNamed record segment id → targets[id.index]? = none

/-- Segments lead from a root through references to a field. -/
inductive Reaches (targets : List SequenceId) (owner : Option SequenceId) :
    List String → SequenceId → List ReferenceId → FieldId → Prop
  | bare {record : SequenceId} {name : String} {field : FieldId} (held : owner = some record)
      (named : spec.FieldNamed record name field) : Reaches targets owner [name] record [] field
  | rooted {root last : SequenceId} {key name : String} {middle : List String}
      {inner : List ReferenceId} {field : FieldId} (keyed : spec.KeyedBy key root)
      (walked : spec.Walks targets root middle inner last)
      (named : spec.FieldNamed last name field) :
      Reaches targets owner (key :: middle ++ [name]) root inner field

/-- The leftmost segment of a path that cannot be followed. A single segment that no record holds is
blamed as the path that it was written as. -/
inductive Blames (targets : List SequenceId) (owner : Option SequenceId) (path : String) :
    List String → String → Prop
  | ownerless {name : String} (alone : owner = none) : Blames targets owner path [name] path
  | bare {record : SequenceId} {name : String} (held : owner = some record)
      (unnamed : ∀ id, ¬ spec.FieldNamed record name id) : Blames targets owner path [name] name
  | root {key name : String} {middle : List String} (unkeyed : ∀ root, ¬ spec.KeyedBy key root) :
      Blames targets owner path (key :: middle ++ [name]) key
  | inner {root reached : SequenceId} {key segment name : String} {before behind : List String}
      {ids : List ReferenceId} (keyed : spec.KeyedBy key root)
      (walked : spec.Walks targets root before ids reached)
      (stuck : spec.Stuck targets reached segment) :
      Blames targets owner path (key :: (before ++ segment :: behind) ++ [name]) segment
  | field {root last : SequenceId} {key name : String} {middle : List String}
      {ids : List ReferenceId} (keyed : spec.KeyedBy key root)
      (walked : spec.Walks targets root middle ids last)
      (unnamed : ∀ id, ¬ spec.FieldNamed last name id) :
      Blames targets owner path (key :: middle ++ [name]) name

end Specification

/-! Finding by name. -/

private theorem find?_label_eq_some_iff {α : Type} {label : α → String} {values : List α}
    {value : α} :
    values.find? (fun value => label value == wanted) = some value ↔
      FirstLabelled label values wanted value := by
  rw [List.find?_eq_some_iff_append, FirstLabelled]
  constructor
  · rintro ⟨named, before, behind, same, others⟩
    exact ⟨before, behind, same, by simpa using named, by simpa using others⟩
  · rintro ⟨before, behind, same, named, others⟩
    exact ⟨by simpa using named, before, behind, same, by simpa using others⟩

/-- There is one first value with a label. -/
theorem FirstLabelled.unique {α : Type} {label : α → String} {values : List α} {first second : α}
    (one : FirstLabelled label values wanted first)
    (two : FirstLabelled label values wanted second) : first = second :=
  Option.some.inj
    ((find?_label_eq_some_iff.mpr one).symm.trans (find?_label_eq_some_iff.mpr two))

/-- Values are found by name through their handles. -/
theorem find?_map_eq_some_iff {α ι : Type} {value : ι → α} {handle : α → ι} {label : α → String}
    {ids : List ι} (kept : ∀ id ∈ ids, handle (value id) = id) {found : ι} :
    ((ids.map value).find? fun value => label value == wanted).map handle = some found ↔
      FirstLabelled (fun id => label (value id)) ids wanted found := by
  have search : (ids.map value).find? (fun value => label value == wanted) =
      (ids.find? fun id => label (value id) == wanted).map value := List.find?_map
  rw [search, Option.map_map, ← find?_label_eq_some_iff]
  cases first : ids.find? fun id => label (value id) == wanted with
  | none => simp
  | some id => simp [kept id (List.mem_of_find?_eq_some first)]

namespace Specification

variable {phase : Phase} {spec : Specification phase} {start last root : SequenceId}
  {ids inner : List ReferenceId} {segments middle : List String} {field : FieldId}
  {name segment : String}

namespace Indexed

section

variable (indexed : spec.Indexed) {record : SequenceId} {id : ReferenceId}

include indexed

private theorem field_id {id : FieldId}
    (listed : id ∈ (spec.sequence record).fields) : (spec.field id).id = id := by
  rcases spec.sequence_cases record with present | blank
  · have inside := indexed.fieldsInside _ (mem_sequences present) id listed
    have there := Array.getElem?_eq_getElem inside
    rw [field_eq there, indexed.fields _ _ there]
  · rw [blank] at listed
    cases listed

private theorem reference_id (listed : id ∈ (spec.sequence record).references) :
    (spec.reference id).id = id := by
  rcases spec.sequence_cases record with present | blank
  · have inside := indexed.referencesInside _ (mem_sequences present) id listed
    have there := Array.getElem?_eq_getElem inside
    rw [reference_eq there, indexed.references _ _ there]
  · rw [blank] at listed
    cases listed

private theorem findField?_eq_some_iff {name : String}
    {id : FieldId} :
    (spec.findField? record name).map Field.id = some id ↔ spec.FieldNamed record name id :=
  find?_map_eq_some_iff fun _ listed => indexed.field_id listed

private theorem findReference?_eq_some_iff {name : String} :
    (spec.findReference? record name).map Reference.id = some id ↔
      spec.ReferenceNamed record name id :=
  find?_map_eq_some_iff fun _ listed => indexed.reference_id listed

end

/-- A key leads to the sequence that it was given to. -/
theorem sequenceByKey?_eq_some_iff (indexed : spec.Indexed) {key : String} {root : SequenceId} :
    (spec.sequenceByKey? key).map RecordSequence.id = some root ↔ spec.KeyedBy key root := by
  have placed : ∀ {before behind : List RecordSequence} {sequence : RecordSequence},
      spec.sequences.toList = before ++ sequence :: behind → sequence.id = ⟨before.length⟩ := by
    intro before behind sequence same
    apply indexed.sequences
    rw [← Array.getElem?_toList, same]
    simp
  rw [sequenceByKey?, ← Array.find?_toList, Option.map_eq_some_iff]
  constructor
  · rintro ⟨sequence, found, rfl⟩
    obtain ⟨before, behind, same, keyed, others⟩ := find?_label_eq_some_iff.mp found
    exact ⟨before, sequence, behind, same, keyed, others, placed same⟩
  · rintro ⟨before, sequence, behind, same, keyed, others, rfl⟩
    exact ⟨sequence, find?_label_eq_some_iff.mpr ⟨before, behind, same, keyed, others⟩, placed same⟩

end Indexed

/-! The relations on a path of one segment and on a longer one. -/

variable {targets : List SequenceId} {owner : Option SequenceId}

private theorem walks_nil_iff : spec.Walks targets start [] ids last ↔ ids = [] ∧ last = start := by
  constructor
  · intro walked
    cases walked
    exact ⟨rfl, rfl⟩
  · rintro ⟨rfl, rfl⟩
    exact .stay _

/-- A walk takes one step for each segment. -/
theorem Walks.length_eq (walked : spec.Walks targets start segments ids last) :
    ids.length = segments.length := by
  induction walked with
  | stay record => rfl
  | follow named target onward ih => rw [List.length_cons, List.length_cons, ih]

/-- A link passes no reference exactly if its path has a root and a field at most. -/
theorem Reaches.inner_eq_nil_iff (reached : spec.Reaches targets owner segments root inner field) :
    inner = [] ↔ segments.length ≤ 2 := by
  cases reached with
  | bare held named => simp
  | rooted keyed walked named =>
      rw [← List.length_eq_zero_iff, walked.length_eq, List.length_append, List.length_cons,
        List.length_singleton]
      omega

private theorem reaches_singleton_iff :
    spec.Reaches targets owner [name] root inner field ↔
      owner = some root ∧ inner = [] ∧ spec.FieldNamed root name field := by
  constructor
  · intro reached
    generalize same : [name] = segments at reached
    cases reached with
    | bare held named =>
        obtain rfl := List.singleton_inj.mp same
        exact ⟨held, rfl, named⟩
    | rooted keyed walked named => simp at same
  · rintro ⟨held, rfl, named⟩
    exact .bare held named

private theorem reaches_cons_iff {key : String} :
    spec.Reaches targets owner (key :: middle ++ [name]) root inner field ↔
      spec.KeyedBy key root ∧ ∃ last, spec.Walks targets root middle inner last ∧
        spec.FieldNamed last name field := by
  constructor
  · intro reached
    generalize same : key :: middle ++ [name] = segments at reached
    cases reached with
    | bare held named => simp at same
    | rooted keyed walked named =>
        obtain ⟨rfl, rfl, rfl⟩ : _ ∧ _ ∧ _ := by simpa using same
        exact ⟨keyed, _, walked, named⟩
  · rintro ⟨keyed, last, walked, named⟩
    exact .rooted keyed walked named

private theorem blames_singleton_iff {path : String} :
    spec.Blames targets owner path [name] segment ↔
      owner = none ∧ segment = path ∨
        ∃ record, owner = some record ∧ (∀ id, ¬ spec.FieldNamed record name id) ∧
          segment = name := by
  constructor
  · intro blamed
    generalize same : [name] = segments at blamed
    cases blamed with
    | ownerless alone => exact .inl ⟨alone, rfl⟩
    | bare held unnamed =>
        obtain rfl := List.singleton_inj.mp same
        exact .inr ⟨_, held, unnamed, rfl⟩
    | root unkeyed => simp at same
    | inner keyed walked stuck => simp at same
    | field keyed walked unnamed => simp at same
  · rintro (⟨alone, rfl⟩ | ⟨record, held, unnamed, rfl⟩)
    · exact .ownerless alone
    · exact .bare held unnamed

private theorem blames_cons_iff {path key : String} :
    spec.Blames targets owner path (key :: middle ++ [name]) segment ↔
      (∀ root, ¬ spec.KeyedBy key root) ∧ segment = key ∨
        ∃ root, spec.KeyedBy key root ∧
          ((∃ before behind ids reached, middle = before ++ segment :: behind ∧
              spec.Walks targets root before ids reached ∧ spec.Stuck targets reached segment) ∨
            ∃ ids last, spec.Walks targets root middle ids last ∧
              (∀ id, ¬ spec.FieldNamed last name id) ∧ segment = name) := by
  constructor
  · intro blamed
    generalize same : key :: middle ++ [name] = segments at blamed
    cases blamed with
    | ownerless alone => simp at same
    | bare held unnamed => simp at same
    | root unkeyed =>
        obtain ⟨rfl, -⟩ : _ ∧ _ := by simpa using same
        exact .inl ⟨unkeyed, rfl⟩
    | inner keyed walked stuck =>
        rw [List.cons_append, List.cons_append, List.cons.injEq] at same
        obtain ⟨rfl, same⟩ := same
        obtain ⟨rfl, -⟩ := List.append_inj' same rfl
        exact .inr ⟨_, keyed, .inl ⟨_, _, _, _, rfl, walked, stuck⟩⟩
    | field keyed walked unnamed =>
        obtain ⟨rfl, rfl, rfl⟩ : _ ∧ _ ∧ _ := by simpa using same
        exact .inr ⟨_, keyed, .inr ⟨_, _, walked, unnamed, rfl⟩⟩
  · rintro (⟨unkeyed, rfl⟩ | ⟨root, keyed, ⟨before, behind, ids, reached, rfl, walked, stuck⟩ |
      ⟨ids, last, walked, unnamed, rfl⟩⟩)
    · exact .root unkeyed
    · exact .inner keyed walked stuck
    · exact .field keyed walked unnamed

end Specification

/-! Reading a path. -/

/-- A path is refused exactly if a segment is empty after trimming. -/
theorem pathSegments_eq (kind : PathKind) (path : String) :
    pathSegments kind path =
      if "" ∈ trimmedSegments path then .error (.malformed (.emptySegment kind path))
      else .ok (trimmedSegments path) := by
  have blank : [] ∈ (path.toList.splitOn ':').map Text.trimChars ↔ "" ∈ trimmedSegments path := by
    simp only [trimmedSegments, List.mem_map, String.ofList_eq_empty_iff]
  rw [pathSegments, Text.splitAtChar_eq_splitOn]
  simp only [blank, List.map_map]
  rfl

/-- A path without blank segments is read as a bare field name, or as a root, what is followed from
there and a field. -/
theorem FieldPath.parse_cases {path : String} (filled : "" ∉ trimmedSegments path) :
    (∃ name, trimmedSegments path = [name] ∧ FieldPath.parse path = .ok ⟨none, [], name⟩) ∨
      ∃ key middle name, trimmedSegments path = key :: middle ++ [name] ∧
        FieldPath.parse path = .ok ⟨some key, middle, name⟩ := by
  have read : ∀ {found}, ofSegments? (trimmedSegments path) = some found →
      FieldPath.parse path = .ok found := by
    intro found given
    rw [FieldPath.parse, pathSegments_eq, if_neg filled]
    refine bind_eq_ok_iff.mpr ⟨trimmedSegments path, rfl, ?_⟩
    rw [given]
    rfl
  cases split : trimmedSegments path with
  | nil => simp [trimmedSegments] at split
  | cons key rest =>
      cases rest with
      | nil => exact .inl ⟨key, rfl, read (by rw [split]; rfl)⟩
      | cons second rest =>
          refine .inr ⟨key, (second :: rest).dropLast, (second :: rest).getLast (by simp), ?_,
            read (by rw [split]; rfl)⟩
          rw [List.cons_append, List.dropLast_concat_getLast]

namespace Linking

variable {phase : Phase} {spec : Specification phase} {targets : List SequenceId}
  {owner : Option SequenceId} {path place : String}

/-! What the steps of the walk find. -/

private theorem startSequence_bare {kind : LinkKind} :
    (∀ {root}, startSequence spec kind path none owner place = .ok root ↔ owner = some root) ∧
      ∀ {fault}, startSequence spec kind path none owner place = .error fault ↔
        owner = none ∧ fault = .unresolved kind path path place := by
  cases owner <;> simp [startSequence, eq_comm]

section

variable (indexed : spec.Indexed) {start : SequenceId} {segments : List String} {parsed : FieldPath}
  {link : FieldLink} {fault : CompileError}

include indexed

private theorem startSequence_named {kind : LinkKind} {key : String} :
    (∀ {root}, startSequence spec kind path (some key) owner place = .ok root ↔
      spec.KeyedBy key root) ∧
      ∀ {fault}, startSequence spec kind path (some key) owner place = .error fault ↔
        (∀ root, ¬ spec.KeyedBy key root) ∧ fault = .unresolved kind path key place := by
  simp only [← indexed.sequenceByKey?_eq_some_iff, startSequence]
  cases spec.sequenceByKey? key <;> simp [eq_comm]

/-- One step of the walk: a segment is followed to the target of its reference, or it is the one
reported. -/
theorem followReferences_cons (record : SequenceId) (segment : String)
    (rest : List String) :
    (∃ id next, spec.ReferenceNamed record segment id ∧ targets[id.index]? = some next ∧
      followReferences spec targets record (segment :: rest) =
        (followReferences spec targets next rest).map fun (ids, last) => (id :: ids, last)) ∨
      spec.Stuck targets record segment ∧
        followReferences spec targets record (segment :: rest) = .error segment := by
  have named : ∀ id, (spec.findReference? record segment).map Reference.id = some id ↔
      spec.ReferenceNamed record segment id := fun _ => indexed.findReference?_eq_some_iff
  rw [followReferences]
  cases found : spec.findReference? record segment with
  | none =>
      refine .inr ⟨fun id this => ?_, rfl⟩
      have known := (named id).mpr this
      simp [found] at known
  | some reference =>
      rw [found, Option.map_some] at named
      cases target : targets[reference.id.index]? with
      | none =>
          refine .inr ⟨fun id this => ?_, by simp only [target]⟩
          rw [← Option.some.inj ((named id).mpr this), target]
      | some next =>
          refine .inl ⟨reference.id, next, (named _).mp rfl, target, ?_⟩
          simp only [target]
          cases followReferences spec targets next rest <;> rfl

/-- The walk succeeds exactly along the references that the segments name. -/
theorem followReferences_eq_ok_iff {last : SequenceId} {ids : List ReferenceId} :
    followReferences spec targets start segments = .ok (ids, last) ↔
      spec.Walks targets start segments ids last := by
  induction segments generalizing start ids with
  | nil =>
      constructor
      · intro followed
        obtain ⟨rfl, rfl⟩ := Prod.mk.inj (Except.ok.inj followed)
        exact .stay start
      · intro walked
        cases walked
        rfl
  | cons segment rest ih =>
      rcases followReferences_cons indexed start segment rest with
        ⟨id, next, named, target, step⟩ | ⟨stuck, step⟩
      · rw [step]
        constructor
        · intro followed
          obtain ⟨⟨others, reached⟩, onward, same⟩ := map_eq_ok_iff.mp followed
          obtain ⟨rfl, rfl⟩ := Prod.mk.inj same
          exact .follow named target (ih.mp onward)
        · intro walked
          cases walked with
          | follow also goes onward =>
              obtain rfl := FirstLabelled.unique named also
              obtain rfl := Option.some.inj (target.symm.trans goes)
              exact map_eq_ok_iff.mpr ⟨_, ih.mpr onward, rfl⟩
      · rw [step]
        refine iff_of_false (by simp) fun walked => ?_
        cases walked with
        | follow named goes onward => simp [stuck _ named] at goes

/-- The walk fails exactly at the first segment that leads nowhere. -/
theorem followReferences_eq_error_iff {segment : String} :
    followReferences spec targets start segments = .error segment ↔
      ∃ before behind ids reached, segments = before ++ segment :: behind ∧
        spec.Walks targets start before ids reached ∧ spec.Stuck targets reached segment := by
  induction segments generalizing start with
  | nil =>
      refine iff_of_false (by simp [followReferences]) ?_
      rintro ⟨before, behind, ids, reached, empty, -⟩
      simp at empty
  | cons head rest ih =>
      rcases followReferences_cons indexed start head rest with
        ⟨id, next, named, target, step⟩ | ⟨stuck, step⟩
      · have onward : followReferences spec targets start (head :: rest) = .error segment ↔
            followReferences spec targets next rest = .error segment := by
          rw [step]
          cases followReferences spec targets next rest <;> simp [Except.map]
        rw [onward, ih]
        constructor
        · rintro ⟨before, behind, ids, reached, rfl, walked, stuck⟩
          exact ⟨head :: before, behind, id :: ids, reached, rfl, .follow named target walked, stuck⟩
        · rintro ⟨before, behind, ids, reached, same, walked, stuck⟩
          cases walked with
          | stay =>
              obtain ⟨rfl, -⟩ := List.cons.inj same
              simp [stuck id named] at target
          | follow also goes walked =>
              obtain ⟨rfl, rfl⟩ := List.cons.inj same
              obtain rfl := FirstLabelled.unique named also
              obtain rfl := Option.some.inj (target.symm.trans goes)
              exact ⟨_, behind, _, reached, rfl, walked, stuck⟩
      · rw [step, Except.error.injEq]
        constructor
        · rintro rfl
          exact ⟨[], rest, [], start, rfl, .stay start, stuck⟩
        · rintro ⟨before, behind, ids, reached, same, walked, -⟩
          cases walked with
          | stay => exact (List.cons.inj same).1
          | follow named goes walked =>
              obtain ⟨rfl, -⟩ := List.cons.inj same
              simp [stuck _ named] at goes

/-- A path is resolved exactly if it has a start, from which the walk reaches a record that has the
field. -/
theorem resolveFieldPath_eq_ok_iff (read : FieldPath.parse path = .ok parsed) :
    resolveFieldPath spec targets path owner place = .ok link ↔
      link.path = path ∧
        startSequence spec .field path parsed.root owner place = .ok link.root ∧
        ∃ last, spec.Walks targets link.root parsed.inner link.inner last ∧
          spec.FieldNamed last parsed.field link.field := by
  simp only [resolveFieldPath_steps_iff, followReferences_eq_ok_iff indexed]
  constructor
  · rintro ⟨_, last, field, again, started, walked, found, same, ended⟩
    obtain rfl := Except.ok.inj (read.symm.trans again)
    refine ⟨same, started, last, walked, indexed.findField?_eq_some_iff.mp ?_⟩
    rw [found, Option.map_some, ended]
  · rintro ⟨same, started, last, walked, named⟩
    obtain ⟨field, found, ended⟩ :=
      Option.map_eq_some_iff.mp (indexed.findField?_eq_some_iff.mpr named)
    exact ⟨parsed, last, field, read, started, walked, found, same, ended.symm⟩

/-- A path is not resolved exactly if it has no start, if the walk from there stops at a segment, or
if the record that it reaches lacks the field. -/
theorem resolveFieldPath_eq_error_iff (read : FieldPath.parse path = .ok parsed) :
    resolveFieldPath spec targets path owner place = .error fault ↔
      startSequence spec .field path parsed.root owner place = .error fault ∨
        ∃ root, startSequence spec .field path parsed.root owner place = .ok root ∧
          ((∃ before segment behind ids reached, parsed.inner = before ++ segment :: behind ∧
              spec.Walks targets root before ids reached ∧ spec.Stuck targets reached segment ∧
              fault = .unresolved .field path segment place) ∨
            ∃ ids last, spec.Walks targets root parsed.inner ids last ∧
              (∀ id, ¬ spec.FieldNamed last parsed.field id) ∧
              fault = .unresolved .field path parsed.field place) := by
  have missing : ∀ last, spec.findField? last parsed.field = none ↔
      ∀ id, ¬ spec.FieldNamed last parsed.field id := by
    intro last
    simp only [← indexed.findField?_eq_some_iff]
    cases spec.findField? last parsed.field <;> simp
  constructor
  · intro failed
    rcases bind_eq_error_iff.mp failed with unread | ⟨_, again, failed⟩
    · simp [read] at unread
    obtain rfl := Except.ok.inj (read.symm.trans again)
    rcases bind_eq_error_iff.mp failed with unstarted | ⟨root, started, failed⟩
    · exact .inl unstarted
    refine .inr ⟨root, started, ?_⟩
    rcases bind_eq_error_iff.mp failed with stopped | ⟨⟨inner, last⟩, walked, failed⟩
    · obtain ⟨segment, here, rfl⟩ := mapError_eq_error_iff.mp stopped
      obtain ⟨before, behind, ids, reached, same, walked, stuck⟩ :=
        (followReferences_eq_error_iff indexed).mp here
      exact .inl ⟨before, segment, behind, ids, reached, same, walked, stuck, rfl⟩
    · rw [mapError_eq_ok_iff, followReferences_eq_ok_iff indexed] at walked
      cases found : spec.findField? last parsed.field with
      | some field =>
          simp only [found] at failed
          cases failed
      | none =>
          simp only [found] at failed
          exact .inr ⟨inner, last, walked, (missing last).mp found, (Except.error.inj failed).symm⟩
  · intro reason
    refine bind_eq_error_iff.mpr (.inr ⟨parsed, read, bind_eq_error_iff.mpr ?_⟩)
    rcases reason with unstarted | ⟨root, started, reason⟩
    · exact .inl unstarted
    refine .inr ⟨root, started, bind_eq_error_iff.mpr ?_⟩
    rcases reason with ⟨before, segment, behind, ids, reached, same, walked, stuck, rfl⟩ |
      ⟨ids, last, walked, unnamed, rfl⟩
    · refine .inl (mapError_eq_error_iff.mpr ⟨segment, ?_, rfl⟩)
      exact (followReferences_eq_error_iff indexed).mpr
        ⟨before, behind, ids, reached, same, walked, stuck⟩
    · refine .inr ⟨(ids, last), ?_, ?_⟩
      · rw [mapError_eq_ok_iff, followReferences_eq_ok_iff indexed]
        exact walked
      · simp only [(missing last).mpr unnamed]
        rfl

/-- The link that a path without blank segments gives is the one that its segments reach. -/
theorem resolveFieldPath_reaches_iff (filled : "" ∉ trimmedSegments path) :
    resolveFieldPath spec targets path owner place = .ok link ↔
      link.path = path ∧
        spec.Reaches targets owner (trimmedSegments path) link.root link.inner link.field := by
  rcases FieldPath.parse_cases filled with ⟨name, same, read⟩ | ⟨key, middle, name, same, read⟩
  · rw [resolveFieldPath_eq_ok_iff indexed read, same, Specification.reaches_singleton_iff,
      startSequence_bare.1]
    refine and_congr_right fun _ => and_congr_right fun _ => ?_
    constructor
    · rintro ⟨last, walked, named⟩
      obtain ⟨empty, rfl⟩ := Specification.walks_nil_iff.mp walked
      exact ⟨empty, named⟩
    · rintro ⟨empty, named⟩
      exact ⟨link.root, Specification.walks_nil_iff.mpr ⟨empty, rfl⟩, named⟩
  · rw [resolveFieldPath_eq_ok_iff indexed read, same, Specification.reaches_cons_iff,
      (startSequence_named indexed).1]

/-- The segment that a path without blank segments fails with is the one to blame. -/
theorem resolveFieldPath_blames_iff (filled : "" ∉ trimmedSegments path) :
    resolveFieldPath spec targets path owner place = .error fault ↔
      ∃ segment, fault = .unresolved .field path segment place ∧
        spec.Blames targets owner path (trimmedSegments path) segment := by
  rcases FieldPath.parse_cases filled with ⟨name, same, read⟩ | ⟨key, middle, name, same, read⟩
  · simp only [resolveFieldPath_eq_error_iff indexed read, same, startSequence_bare.1,
      startSequence_bare.2, Specification.blames_singleton_iff, Specification.walks_nil_iff]
    constructor
    · rintro (⟨alone, rfl⟩ | ⟨record, held, ⟨before, segment, behind, ids, reached, empty, -⟩ |
        ⟨ids, last, ⟨-, rfl⟩, unnamed, rfl⟩⟩)
      · exact ⟨path, rfl, .inl ⟨alone, rfl⟩⟩
      · simp at empty
      · exact ⟨name, rfl, .inr ⟨_, held, unnamed, rfl⟩⟩
    · rintro ⟨segment, rfl, ⟨alone, rfl⟩ | ⟨record, held, unnamed, rfl⟩⟩
      · exact .inl ⟨alone, rfl⟩
      · exact .inr ⟨record, held, .inr ⟨[], record, ⟨rfl, rfl⟩, unnamed, rfl⟩⟩
  · simp only [resolveFieldPath_eq_error_iff indexed read, same, (startSequence_named indexed).1,
      (startSequence_named indexed).2, Specification.blames_cons_iff]
    constructor
    · rintro (⟨unkeyed, rfl⟩ | ⟨root, keyed,
        ⟨before, segment, behind, ids, reached, split, walked, stuck, rfl⟩ |
        ⟨ids, last, walked, unnamed, rfl⟩⟩)
      · exact ⟨key, rfl, .inl ⟨unkeyed, rfl⟩⟩
      · exact ⟨segment, rfl, .inr ⟨root, keyed,
          .inl ⟨before, behind, ids, reached, split, walked, stuck⟩⟩⟩
      · exact ⟨name, rfl, .inr ⟨root, keyed, .inr ⟨ids, last, walked, unnamed, rfl⟩⟩⟩
    · rintro ⟨segment, rfl, ⟨unkeyed, rfl⟩ | ⟨root, keyed,
        ⟨before, behind, ids, reached, split, walked, stuck⟩ |
        ⟨ids, last, walked, unnamed, rfl⟩⟩⟩
      · exact .inl ⟨unkeyed, rfl⟩
      · exact .inr ⟨root, keyed,
          .inl ⟨before, segment, behind, ids, reached, split, walked, stuck, rfl⟩⟩
      · exact .inr ⟨root, keyed, .inr ⟨ids, last, walked, unnamed, rfl⟩⟩

end

/-- **Walking along a path.** Let the arena be indexed. If no segment of a path is blank, a link is
found exactly if it keeps the path and its root, references and field are those that the segments
reach, and it passes no reference exactly if there are at most two segments. Otherwise the path is
unresolved, and the segment reported is the leftmost one that cannot be followed. A path with a
blank segment is reported as such. -/
theorem resolveFieldPath_walks (indexed : spec.Indexed) (targets : List SequenceId)
    (path : String) (owner : Option SequenceId) (place : String) :
    ("" ∉ trimmedSegments path →
      (∀ link, resolveFieldPath spec targets path owner place = .ok link ↔
        link.path = path ∧
          spec.Reaches targets owner (trimmedSegments path) link.root link.inner link.field) ∧
      (∀ link, resolveFieldPath spec targets path owner place = .ok link →
        (link.inner = [] ↔ (trimmedSegments path).length ≤ 2)) ∧
      ∀ fault, resolveFieldPath spec targets path owner place = .error fault ↔
        ∃ segment, fault = .unresolved .field path segment place ∧
          spec.Blames targets owner path (trimmedSegments path) segment) ∧
    ("" ∈ trimmedSegments path → resolveFieldPath spec targets path owner place =
      .error (.malformed (.emptySegment .field path))) := by
  refine ⟨fun filled => ⟨fun _ => resolveFieldPath_reaches_iff indexed filled, fun link found => ?_,
    fun _ => resolveFieldPath_blames_iff indexed filled⟩, fun blank => ?_⟩
  · exact ((resolveFieldPath_reaches_iff indexed filled).mp found).2.inner_eq_nil_iff
  · rw [resolveFieldPath, FieldPath.parse, pathSegments_eq, if_pos blank]
    rfl

namespace Sample

/-- Two records that refer to each other. -/
def loop : Specification .raw where
  parameters := default
  functions := default
  enumSets := default
  sequences := #[
    { id := ⟨0⟩, key := "a", kind := .random, fields := [⟨0⟩], references := [⟨0⟩] },
    { id := ⟨1⟩, key := "b", kind := .random, fields := [⟨1⟩], references := [⟨1⟩] }]
  fields := #[
    { id := ⟨0⟩, owner := ⟨0⟩, name := "x", type := .scalar .i32, order := 0 },
    { id := ⟨1⟩, owner := ⟨1⟩, name := "y", type := .scalar .i32, order := 0 }]
  references := #[
    { id := ⟨0⟩, owner := ⟨0⟩, name := "next", order := 0, target := "b" },
    { id := ⟨1⟩, owner := ⟨1⟩, name := "back", order := 0, target := "a" }]

/-- The sequences that the two references refer to. -/
def loopTargets : List SequenceId := [⟨1⟩, ⟨0⟩]

private theorem loop_indexed : loop.Indexed where
  sequences index sequence present := by
    match index with
    | 0 => exact (Option.some.inj present) ▸ rfl
    | 1 => exact (Option.some.inj present) ▸ rfl
    | index + 2 => simp [loop] at present
  fields index field present := by
    match index with
    | 0 => exact (Option.some.inj present) ▸ rfl
    | 1 => exact (Option.some.inj present) ▸ rfl
    | index + 2 => simp [loop] at present
  references index reference present := by
    match index with
    | 0 => exact (Option.some.inj present) ▸ rfl
    | 1 => exact (Option.some.inj present) ▸ rfl
    | index + 2 => simp [loop] at present
  fieldsInside := by simp [loop]
  referencesInside := by simp [loop]

end Sample

open Sample in
/-- A path that goes round the loop reaches the field that it starts from, and one that leaves it is
blamed on the segment where it does. -/
theorem loop_walks :
    loop.Indexed ∧
      loop.Reaches loopTargets none ["a", "next", "back", "x"] ⟨0⟩ [⟨0⟩, ⟨1⟩] ⟨0⟩ ∧
      loop.Blames loopTargets none "a:next:lost:back:x" ["a", "next", "lost", "back", "x"] "lost" := by
  have round := resolveFieldPath_walks loop_indexed loopTargets " a :next:back: x" none "place"
  have astray := resolveFieldPath_walks loop_indexed loopTargets "a:next:lost:back:x" none "place"
  have first : trimmedSegments " a :next:back: x" = ["a", "next", "back", "x"] := by cbv
  have second : trimmedSegments "a:next:lost:back:x" = ["a", "next", "lost", "back", "x"] := by cbv
  rw [first] at round
  rw [second] at astray
  have found : resolveFieldPath loop loopTargets " a :next:back: x" none "place" =
      .ok ⟨" a :next:back: x", ⟨0⟩, [⟨0⟩, ⟨1⟩], ⟨0⟩⟩ := by cbv
  have failed : resolveFieldPath loop loopTargets "a:next:lost:back:x" none "place" =
      .error (.unresolved .field "a:next:lost:back:x" "lost" "place") := by cbv
  obtain ⟨segment, same, blamed⟩ := ((astray.1 (by simp)).2.2 _).mp failed
  obtain rfl : "lost" = segment := by
    injection same
  exact ⟨loop_indexed, (((round.1 (by simp)).1 _).mp found).2, blamed⟩

end Linking

end Recordgen

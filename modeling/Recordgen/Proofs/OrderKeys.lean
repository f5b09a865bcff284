import Recordgen.Header.Basic
import Recordgen.Proofs.Resolution

/-! # Order keys

The check of the order keys passes exactly when, in every sequence, the keys of the fields, of the
references and of the setters each are the numbers from zero on and the identifier has number zero
(`Linking.checkOrderKeys_eq_ok_iff`). Nothing is assumed about how the specification came about: keys
may be missing, used twice or arbitrarily large, and the lists may be stored in any order. A walk
sorts by order key, so behind the check the key of a part is its position in the walk, before and
after resolution (`RecordSequence.Numbered.visitsInOrder`).
-/

namespace Recordgen

variable {phase : Phase} {α : Type} {order : α → Nat} {values : List α} {spec : Specification phase}
  {sequence : RecordSequence}

/-- The field that a walk enters with an event. -/
def enteredField? : WalkEvent → Option FieldId
  | .enter (.field id) => some id
  | _ => none

/-- The reference that a walk enters with an event. -/
def enteredReference? : WalkEvent → Option ReferenceId
  | .enter (.reference id) => some id
  | _ => none

/-- The order keys of a sequence number each of its lists from zero, and the field with number zero
is the identifier. -/
structure RecordSequence.Numbered (spec : Specification phase) (sequence : RecordSequence) :
    Prop where
  fields : (sequence.fields.map fun id => (spec.field id).order).Perm
    (List.range sequence.fields.length)
  references : (sequence.references.map fun id => (spec.reference id).order).Perm
    (List.range sequence.references.length)
  setters : (sequence.setters.map fun id => (spec.component id).order).Perm
    (List.range sequence.setters.length)
  started : ∃ id ∈ sequence.fields, (spec.field id).order = 0
  identifier : ∀ id ∈ sequence.fields, (spec.field id).order = 0 →
    (spec.field id).implicit = true ∧ (spec.field id).name = "gen_id"

/-- A walk over a sequence enters its fields, its references and its setters each in the order of
their numbers. -/
structure Specification.VisitsInOrder (spec : Specification phase) (sequence : RecordSequence) :
    Prop where
  fields : (spec.walkSequence sequence).filterMap enteredField? =
    (spec.orderedFields sequence).map Field.id
  fieldOrders : (spec.orderedFields sequence).map Field.order = List.range sequence.fields.length
  references : (spec.walkSequence sequence).filterMap enteredReference? =
    (spec.orderedReferences sequence).map Reference.id
  referenceOrders : (spec.orderedReferences sequence).map Reference.order =
    List.range sequence.references.length
  setters : (spec.walkSequence sequence).filterMap Linking.enteredSetter? =
    (spec.orderedSetters sequence).map Component.id
  setterOrders : (spec.orderedSetters sequence).map Component.order =
    List.range sequence.setters.length

/-- Sorting by number does not depend on the order before it, if no number is given twice. -/
theorem mergeSort_eq_of_perm {others : List α} (same : others.Perm values)
    (distinct : (values.map order).Nodup) :
    (others.mergeSort fun first second => order first ≤ order second) =
      values.mergeSort fun first second => order first ≤ order second := by
  apply List.Perm.eq_of_pairwise _ (pairwise_mergeSort_order others) (pairwise_mergeSort_order values)
  · exact (List.mergeSort_perm others _).trans (same.trans (List.mergeSort_perm values _).symm)
  · intro first second inOthers inValues below above
    refine List.inj_on_of_nodup_map distinct ?_ (List.mem_mergeSort.mp inValues)
      (Nat.le_antisymm below above)
    exact same.mem_iff.mp (List.mem_mergeSort.mp inOthers)

/-- Numbers that are those from zero on are sorted into the range. -/
theorem mergeSort_eq_range {orders : List Nat} {count : Nat}
    (numbered : orders.Perm (List.range count)) : orders.mergeSort = List.range count := by
  have distinct : ((List.range count).map id).Nodup := by
    rw [List.map_id]
    exact List.nodup_range
  have ascending : (List.range count).Pairwise fun first second => decide (first ≤ second) :=
    List.pairwise_lt_range.imp fun less => decide_eq_true (Nat.le_of_lt less)
  calc orders.mergeSort = (List.range count).mergeSort := mergeSort_eq_of_perm numbered distinct
    _ = List.range count := List.mergeSort_of_pairwise ascending

/-- Sorting by number gives every value its number as position. -/
theorem map_mergeSort_eq_range {count : Nat}
    (numbered : (values.map order).Perm (List.range count)) :
    (values.mergeSort fun first second => order first ≤ order second).map order =
      List.range count := by
  have sorted : (values.mergeSort fun first second => order first ≤ order second).map order =
      (values.map order).mergeSort := List.map_mergeSort fun _ _ _ _ => rfl
  rw [sorted, mergeSort_eq_range numbered]

/-- **Numbered lists are visited in order.** -/
theorem RecordSequence.Numbered.visitsInOrder (numbered : sequence.Numbered spec) :
    spec.VisitsInOrder sequence where
  fields := by
    rw [spec.filterMap_walkSequence sequence (fun _ => rfl) (fun _ => rfl) (fun _ => rfl)]
    simp [enteredField?]
  fieldOrders := by
    apply map_mergeSort_eq_range
    rw [List.map_map]
    exact numbered.fields
  references := by
    rw [spec.filterMap_walkSequence sequence (fun _ => rfl) (fun _ => rfl) (fun _ => rfl)]
    simp [enteredReference?]
  referenceOrders := by
    apply map_mergeSort_eq_range
    rw [List.map_map]
    exact numbered.references
  setters := by
    rw [spec.filterMap_walkSequence sequence (fun _ => rfl) (fun _ => rfl) (fun _ => rfl)]
    simp [Linking.enteredSetter?]
  setterOrders := by
    apply map_mergeSort_eq_range
    rw [List.map_map]
    exact numbered.setters

/-- Numbers are read off the parts that the handles lead to. -/
theorem RecordSequence.Numbered.congr {later : Phase} {other : Specification later}
    (numbered : sequence.Numbered spec)
    (fields : ∀ id, (other.field id).order = (spec.field id).order ∧
      (other.field id).implicit = (spec.field id).implicit ∧
      (other.field id).name = (spec.field id).name)
    (references : ∀ id, (other.reference id).order = (spec.reference id).order)
    (components : ∀ id, (other.component id).order = (spec.component id).order) :
    sequence.Numbered other where
  fields := by
    simpa only [fields] using numbered.fields
  references := by
    simpa only [references] using numbered.references
  setters := by
    simpa only [components] using numbered.setters
  started := by
    simpa only [fields] using numbered.started
  identifier := by
    simpa only [fields] using numbered.identifier

/-- Parts at the same position of related arenas agree, also where there is none. -/
theorem getD_of_forall₂ {β γ : Type} [Inhabited α] [Inhabited β] {related : α → β → Prop}
    {left : α → γ} {right : β → γ} {first : Array α} {second : Array β}
    (all : List.Forall₂ related first.toList second.toList)
    (same : ∀ value partner, related value partner → right partner = left value)
    (blank : right default = left default) (index : Nat) :
    right (second.getD index default) = left (first.getD index default) := by
  have found := congrArg (fun values => values[index]?) (map_eq_map_of_forall₂ all same)
  simp only [List.getElem?_map, Array.getElem?_toList] at found
  rw [Array.getD_eq_getD_getElem?, Array.getD_eq_getD_getElem?]
  cases here : first[index]? <;> cases there : second[index]? <;>
    simp_all

namespace Linking

open Outcome

variable {spec : Specification .raw} {sequence : RecordSequence} {bindings : Bindings}

private theorem checkOrders_eq_ok_iff {list : OrderedList} {key : String} {orders : List Nat} :
    checkOrders list key orders = .ok () ↔ orders.Perm (List.range orders.length) := by
  have passes : checkOrders list key orders = .ok () ↔
      orders.mergeSort = List.range orders.length := by
    simp [checkOrders, List.length_mergeSort]
  rw [passes]
  constructor
  · intro sorted
    exact sorted ▸ (List.mergeSort_perm orders _).symm
  · exact mergeSort_eq_range

/-- Among fields with different numbers, the one found with number zero is the only one. -/
theorem startsWithIdentifier_iff {fields : List Field} (distinct : (fields.map Field.order).Nodup) :
    startsWithIdentifier fields = true ↔
      (∃ field ∈ fields, field.order = 0) ∧
        ∀ field ∈ fields, field.order = 0 →
          field.implicit = true ∧ field.name = implicitFieldName := by
  unfold startsWithIdentifier
  cases found : fields.find? fun field => field.order == 0 with
  | none =>
      have missing : ¬∃ field ∈ fields, field.order = 0 := by
        simpa using List.find?_eq_none.mp found
      simp [missing]
  | some first =>
      have member : first ∈ fields := List.mem_of_find?_eq_some found
      have zero : first.order = 0 := by simpa using List.find?_some found
      have alone : ∀ field ∈ fields, field.order = 0 → field = first := by
        intro field listed same
        exact List.inj_on_of_nodup_map distinct listed member (same.trans zero.symm)
      simp only [Bool.and_eq_true, beq_iff_eq]
      constructor
      · intro identifier
        refine ⟨⟨first, member, zero⟩, fun field listed same => ?_⟩
        rw [alone field listed same]
        exact identifier
      · rintro ⟨-, each⟩
        exact each first member zero

/-- Two checks pass when each of them does. -/
theorem bind_unit_eq_ok_iff {ε : Type} {first second : Except ε Unit} :
    (first >>= fun _ => second) = .ok () ↔ first = .ok () ∧ second = .ok () := by
  rw [bind_eq_ok_iff]
  constructor
  · rintro ⟨⟨⟩, here, later⟩
    exact ⟨here, later⟩
  · rintro ⟨here, later⟩
    exact ⟨(), here, later⟩

/-- A sequence passes the check exactly when its lists are numbered. -/
theorem checkSequenceOrders_eq_ok_iff :
    checkSequenceOrders spec sequence = .ok () ↔ sequence.Numbered spec := by
  have last : (do
      unless startsWithIdentifier (sequence.fields.map spec.field) do
        throw (.linking (.firstField sequence.key implicitFieldName)) :
        Except CompileError Unit) = .ok () ↔
      startsWithIdentifier (sequence.fields.map spec.field) = true := by
    by_cases starts : startsWithIdentifier (sequence.fields.map spec.field) = true
    · simp [starts, pure, Except.pure]
    · simp [starts, throw, throwThe, MonadExceptOf.throw]
  simp only [checkSequenceOrders, bind_unit_eq_ok_iff, checkOrders_eq_ok_iff, last,
    List.map_map, List.length_map]
  constructor
  · rintro ⟨fields, references, setters, starts⟩
    have distinct : ((sequence.fields.map spec.field).map Field.order).Nodup := by
      rw [List.map_map]
      exact fields.nodup_iff.mpr List.nodup_range
    obtain ⟨started, identifier⟩ := (startsWithIdentifier_iff distinct).mp starts
    refine ⟨fields, references, setters, ?_, List.forall_mem_map.mp identifier⟩
    simpa using started
  · intro numbered
    have distinct : ((sequence.fields.map spec.field).map Field.order).Nodup := by
      rw [List.map_map]
      exact numbered.fields.nodup_iff.mpr List.nodup_range
    refine ⟨numbered.fields, numbered.references, numbered.setters,
      (startsWithIdentifier_iff distinct).mpr ⟨?_, List.forall_mem_map.mpr numbered.identifier⟩⟩
    simpa using numbered.started

/-- **The check passes exactly for specifications with numbered lists.** -/
theorem checkOrderKeys_eq_ok_iff :
    checkOrderKeys spec = .ok () ↔ ∀ sequence ∈ spec.sequences.toList, sequence.Numbered spec := by
  rw [checkOrderKeys, forM_eq_ok_iff]
  exact forall₂_congr fun _ _ => checkSequenceOrders_eq_ok_iff

/-- Attaching setters changes nothing else about a field. -/
theorem attachSetters_kept {setters : List ComponentId} {fields : Array Field}
    (attached : attachSetters spec bindings setters = .ok fields) :
    List.Forall₂ (fun field attached : Field => attached = { field with setter := attached.setter })
      spec.fields.toList fields.toList := by
  refine foldlM_invariant
    (fun fields : Array Field => List.Forall₂ (fun field attached : Field =>
      attached = { field with setter := attached.setter }) spec.fields.toList fields.toList)
    (List.forall₂_same.mpr fun _ _ => rfl) ?_ attached
  intro fields setter next _ before step
  obtain ⟨target, -, rfl⟩ := bind_pure_eq_ok_iff.mp step
  rw [attachSetter, Array.toList_modify]
  refine forall₂_modify before fun field partner related => ?_
  rw [related]

private theorem targets_of_bindAll (bound : bindAll spec = .ok bindings) :
    spec.references.toList.mapM (resolveTarget spec) = .ok bindings.targets := by
  obtain ⟨targets, found, bound⟩ := bind_eq_ok_iff.mp bound
  obtain ⟨_, -, bound⟩ := bind_eq_ok_iff.mp bound
  obtain ⟨_, -, bound⟩ := bind_eq_ok_iff.mp bound
  obtain ⟨_, -, rfl⟩ := bind_pure_eq_ok_iff.mp bound
  exact found

private theorem order_of_resolveComponent {component : Component .raw}
    {resolved : Component .resolved} (found : resolveComponent bindings component = .ok resolved) :
    resolved.order = component.order := by
  obtain ⟨arguments, -, rfl⟩ := bind_pure_eq_ok_iff.mp found
  rfl

/-- Resolution keeps numbered lists numbered, whatever the handles lead to. -/
theorem numbered_of_run {result : Specification .resolved} {summary : Summary}
    (resolved : run spec = .ok (result, summary)) (numbered : sequence.Numbered spec) :
    sequence.Numbered result := by
  obtain ⟨bindings, fields, components, bound, attached, placed, rfl, -⟩ := run_eq_ok resolved
  have linked := (zipWith_resolveReference (mapM_eq_ok_iff.mp (targets_of_bindAll bound))).2
  refine numbered.congr (fun id => ?_) (fun id => ?_) (fun id => ?_)
  · let seen (field : Field) := (field.order, field.implicit, field.name)
    have same : seen (fields.getD id.index default) = seen (spec.field id) := by
      refine getD_of_forall₂ (attachSetters_kept attached) (fun field other same => ?_) rfl id.index
      rw [same]
    obtain ⟨orders, same⟩ := Prod.mk.inj same
    exact ⟨orders, Prod.mk.inj same⟩
  · refine getD_of_forall₂ linked (fun before after found => ?_) rfl id.index
    obtain ⟨target, -, rfl⟩ := found
    rfl
  · exact getD_of_forall₂ (mapM_eq_ok_iff.mp placed)
      (fun before after found => order_of_resolveComponent found) rfl id.index

/-- **Order keys are complete.** The check fails exactly when the lists of some sequence are not
numbered. When a specification is resolved, all of them are, and then a walk over a sequence, the raw
one or the resolved one, meets its fields, references and setters at the positions that are their
order keys, and headers list fields and references in the same way. -/
theorem run_orders_complete (spec : Specification .raw) :
    ((∃ fault, checkOrderKeys spec = .error fault) ↔
      ∃ sequence ∈ spec.sequences.toList, ¬sequence.Numbered spec) ∧
    ∀ result summary, run spec = .ok (result, summary) →
      result.sequences = spec.sequences ∧
      ∀ sequence ∈ spec.sequences.toList,
        sequence.Numbered spec ∧ spec.VisitsInOrder sequence ∧
        sequence.Numbered result ∧ result.VisitsInOrder sequence ∧
        ∀ targetNamespace,
          (RecordContext.mk result sequence targetNamespace).fields.map Field.order =
            List.range sequence.fields.length ∧
          (RecordContext.mk result sequence targetNamespace).references.map Reference.order =
            List.range sequence.references.length := by
  refine ⟨?_, fun result summary resolved => ?_⟩
  · rw [← not_iff_not, ← exists_ok_iff]
    simp only [not_exists, not_and, not_not, ← checkOrderKeys_eq_ok_iff]
    exact ⟨fun ⟨⟨⟩, passed⟩ => passed, fun passed => ⟨(), passed⟩⟩
  · obtain ⟨_, _, stages⟩ := bind_eq_ok_iff.mp resolved
    obtain ⟨_, _, stages⟩ := bind_eq_ok_iff.mp stages
    obtain ⟨⟨⟩, passed, _⟩ := bind_eq_ok_iff.mp stages
    obtain ⟨_, _, _, _, _, _, same, _⟩ := run_eq_ok resolved
    refine ⟨congrArg Specification.sequences same, fun sequence member => ?_⟩
    have numbered := checkOrderKeys_eq_ok_iff.mp passed sequence member
    have visits := (numbered_of_run resolved numbered).visitsInOrder
    exact ⟨numbered, numbered.visitsInOrder, numbered_of_run resolved numbered, visits,
      fun _ => ⟨visits.fieldOrders, visits.referenceOrders⟩⟩

namespace Sample

/-- A sequence whose fields, references and setters are stored out of order. -/
def stored : RecordSequence :=
  { id := ⟨0⟩
    key := "r"
    kind := .random
    fields := [⟨0⟩, ⟨2⟩, ⟨1⟩]
    references := [⟨1⟩, ⟨0⟩]
    setters := [⟨0⟩, ⟨1⟩] }

/-- A specification that no document describes, with the given order key on its last field. -/
def storedSpec (last : Nat) : Specification .raw :=
  { parameters := default
    functions := default
    enumSets := default
    sequences := #[stored]
    fields := #[
      { id := ⟨0⟩, owner := ⟨0⟩, name := "b", type := .scalar .i32, order := last },
      { id := ⟨1⟩, owner := ⟨0⟩, name := "gen_id", type := .scalar .i64u, order := 0,
        implicit := true },
      { id := ⟨2⟩, owner := ⟨0⟩, name := "a", type := .scalar .i32, order := 1 }]
    references := #[
      { id := ⟨0⟩, owner := ⟨0⟩, name := "p", order := 0, target := "r" },
      { id := ⟨1⟩, owner := ⟨0⟩, name := "q", order := 1, target := "r" }]
    components := #[
      { id := ⟨0⟩, key := "t", kind := .referenceSetter, order := 1 },
      { id := ⟨1⟩, key := "s", kind := .referenceSetter, order := 0 }] }

private theorem exists_run_stored :
    ∃ result summary, run (storedSpec 2) = .ok (result, summary) := by
  have counted : (run (storedSpec 2)).toOption.map Prod.snd = some ⟨2, 0, 0, 0, 0⟩ := by
    cbv
  obtain ⟨⟨result, summary⟩, ran, -⟩ := Option.map_eq_some_iff.mp counted
  exact ⟨result, summary, toOption_eq_some_iff.mp ran⟩

/-- The greatest key of a machine word numbers no list. -/
theorem stored_not_numbered : ¬stored.Numbered (storedSpec 18446744073709551615) := by
  intro numbered
  have listed : 18446744073709551615 ∈ List.range 3 :=
    numbered.fields.mem_iff.mp (by simp [stored, storedSpec, Specification.field])
  simp at listed

end Sample

/-- Lists that are stored out of order are visited in order, and a key out of range is rejected. -/
theorem stored_orders_complete :
    (∃ result summary, run (Sample.storedSpec 2) = .ok (result, summary) ∧
      (result.orderedFields Sample.stored).map Field.order = [0, 1, 2] ∧
      (result.orderedReferences Sample.stored).map Reference.order = [0, 1] ∧
      (result.orderedSetters Sample.stored).map Component.order = [0, 1]) ∧
    ∃ fault, checkOrderKeys (Sample.storedSpec 18446744073709551615) = .error fault := by
  obtain ⟨result, summary, ran⟩ := Sample.exists_run_stored
  obtain ⟨-, each⟩ := (run_orders_complete (Sample.storedSpec 2)).2 result summary ran
  obtain ⟨-, -, -, visits, -⟩ := each Sample.stored (List.mem_singleton.mpr rfl)
  refine ⟨⟨result, summary, ran, visits.fieldOrders, visits.referenceOrders,
    visits.setterOrders⟩, ?_⟩
  exact (run_orders_complete (Sample.storedSpec 18446744073709551615)).1.mpr
    ⟨Sample.stored, List.mem_singleton.mpr rfl, Sample.stored_not_numbered⟩

end Linking

end Recordgen

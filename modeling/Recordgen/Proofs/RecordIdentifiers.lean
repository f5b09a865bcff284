import Recordgen.Proofs.NameLetters
import Recordgen.Proofs.RecordTypes
import Recordgen.Proofs.SetterTargets

/-! # The identifiers of a record

The traits of a record number its fields and references by constants, and the record class has
accessors and variables for those that it declares itself. All of these are formed from names that
differ, but they need not differ themselves: `ship_date` and `shipDate` have the same words, and a
field `unknown` has the constant of a field that is not known. The constants are distinct exactly if
every name has letters or digits and no two names, nor a name and `unknown`, have the same words
(`RecordContext.enumerators_distinct_iff`). The accessors and variables are distinct exactly if the
names differ in camel case and none is that of another one's text (`RecordContext.nodup_members_iff`).
-/

namespace Recordgen

open Outcome

open Naming (constantName constantWords letters lowerCamel upperCamel)

/-- Functions that tell the same values apart leave the same lists without duplicates. -/
theorem nodup_map_congr {α β γ : Type} {first : α → β} {second : α → γ}
    (same : ∀ a b, first a = first b ↔ second a = second b) (values : List α) :
    (values.map first).Nodup ↔ (values.map second).Nodup := by
  rw [List.Nodup, List.Nodup, List.pairwise_map, List.pairwise_map]
  exact List.Pairwise.iff fun a b => not_congr (same a b)

namespace RecordContext

variable (context : RecordContext)

/-- The names of the fields and references of a record. -/
def names : List String :=
  context.fields.map Field.name ++ context.references.map Reference.name

/-- The names of those that the record class itself declares. -/
def declaredNames : List String :=
  (context.fields.filter fun field => !field.implicit).map Field.name ++
    context.references.map Reference.name

/-- The names of the enumeration fields among them. -/
def enumNames : List String :=
  (context.fields.filter fun field => field.type.isEnum && !field.implicit).map Field.name

/-- The enumerators that the traits of a record list. -/
def enumerators : List String :=
  "UNKNOWN" :: context.traitsMembers.map RecordMember.constant

/-- The functions of a record class that give access to its members and to the texts of enumeration
values. -/
def accessors : List String :=
  context.declaredMembers.map RecordMember.accessor ++
    (context.declaredMembers.filter RecordMember.isEnum).map fun member =>
      member.accessor ++ "EnumValue"

/-- The variables that a record class has for its members. -/
def slots : List String :=
  context.storedMembers.map RecordMember.slot

/-! The identifiers in terms of the names. -/

private theorem enumerators_eq :
    context.enumerators = ("unknown" :: context.names).map constantName := by
  have unknown : constantName "unknown" = "UNKNOWN" := by decide
  rw [enumerators, traitsMembers, members, names, List.map_cons, unknown, List.map_append,
    List.map_append, List.map_map, List.map_map, List.map_map, List.map_map]
  rfl

theorem declaredMembers_eq :
    context.declaredMembers =
      (context.fields.filter fun field => !field.implicit).map RecordMember.ofField ++
        context.references.map fun reference =>
          .ofReference (context.spec.recordClass reference.target) reference := by
  rw [declaredMembers, members, List.filter_append, List.filter_map, List.filter_map]
  congr 2
  exact List.filter_eq_self.mpr fun _ _ => rfl

/-- A field that is declared has the accessor of its name. -/
theorem accessor_ofField {field : Field} (declared : field.implicit = false) :
    (RecordMember.ofField field).accessor = lowerCamel field.name := by
  simp [RecordMember.ofField, Field.accessor, declared]

private theorem map_accessor_declaredMembers :
    context.declaredMembers.map RecordMember.accessor = context.declaredNames.map lowerCamel := by
  rw [declaredMembers_eq, declaredNames, List.map_append, List.map_append, List.map_map,
    List.map_map, List.map_map, List.map_map]
  congr 1
  apply List.map_congr_left
  intro field listed
  exact accessor_ofField (by simpa using (List.mem_filter.mp listed).2)

private theorem map_slot_declaredMembers :
    context.declaredMembers.map RecordMember.slot = context.declaredNames.map Naming.member := by
  rw [declaredMembers_eq, declaredNames, List.map_append, List.map_append, List.map_map,
    List.map_map, List.map_map, List.map_map]
  rfl

private theorem map_enumAccess_declaredMembers :
    ((context.declaredMembers.filter RecordMember.isEnum).map fun member =>
        member.accessor ++ "EnumValue") =
      context.enumNames.map fun name => lowerCamel name ++ "EnumValue" := by
  have plain : (context.references.map fun reference => RecordMember.ofReference
      (context.spec.recordClass reference.target) reference).filter RecordMember.isEnum = [] := by
    rw [List.filter_map, List.map_eq_nil_iff]
    exact List.filter_eq_nil_iff.mpr fun _ _ => Bool.false_ne_true
  rw [declaredMembers_eq, List.filter_append, plain, List.append_nil, List.filter_map,
    List.filter_filter, List.map_map, enumNames, List.map_map]
  apply List.map_congr_left
  intro field listed
  have declared := (Bool.and_eq_true_iff.mp (List.mem_filter.mp listed).2).2
  exact congrArg (· ++ "EnumValue") (accessor_ofField (by simpa using declared))

/-- **Enumerators.** They are names and no two are the same, exactly if every name has letters or
digits and no two names, nor a name and `unknown`, consist of the same words. -/
theorem enumerators_distinct_iff :
    "" ∉ context.enumerators ∧ context.enumerators.Nodup ↔
      (∀ name ∈ context.names, letters name ≠ []) ∧
        (("unknown" :: context.names).map constantWords).Nodup := by
  have known : constantName "unknown" ≠ "" := by decide
  rw [enumerators_eq, nodup_map_congr fun _ _ => Naming.constantName_eq_iff, List.map_cons,
    List.mem_cons, not_or, and_iff_right (Ne.symm known), List.mem_map]
  refine and_congr_left fun _ => ?_
  constructor
  · intro written name listed empty
    exact written ⟨name, listed, Naming.constantName_eq_empty_iff.mpr empty⟩
  · rintro written ⟨name, listed, empty⟩
    exact written name listed (Naming.constantName_eq_empty_iff.mp empty)

/-- No accessor of a record has an underscore. -/
theorem underscore_notMem_accessor {accessor : String} (listed : accessor ∈ context.accessors) :
    '_' ∉ accessor.toList := by
  have plain := Naming.underscore_notMem_lowerCamel
  rw [accessors, map_accessor_declaredMembers, map_enumAccess_declaredMembers] at listed
  rcases List.mem_append.mp listed with listed | listed
  · obtain ⟨name, -, rfl⟩ := List.mem_map.mp listed
    exact plain name
  · obtain ⟨name, -, rfl⟩ := List.mem_map.mp listed
    simp [plain name]

private theorem exists_member_of_slot {slot : String} (listed : slot ∈ context.slots) :
    ∃ name ∈ context.declaredNames, slot = Naming.member name := by
  obtain ⟨member, stored, rfl⟩ := List.mem_map.mp listed
  have slots : member.slot ∈ context.declaredMembers.map RecordMember.slot :=
    List.mem_map_of_mem (List.mem_filter.mp stored).1
  rw [map_slot_declaredMembers] at slots
  obtain ⟨name, inside, same⟩ := List.mem_map.mp slots
  exact ⟨name, inside, same.symm⟩

/-- **Accessors and variables.** No two are the same, exactly if the names differ in camel case and
none is spelled like the text of an enumeration value. -/
theorem nodup_members_iff :
    (context.accessors ++ context.slots).Nodup ↔
      (context.declaredNames.map upperCamel).Nodup ∧
        ∀ name ∈ context.declaredNames, ∀ other ∈ context.enumNames,
          lowerCamel name ≠ lowerCamel other ++ "EnumValue" := by
  have spelled : (context.declaredNames.map lowerCamel).Nodup ↔
      (context.declaredNames.map upperCamel).Nodup :=
    nodup_map_congr (fun _ _ => Naming.lowerCamel_eq_iff) _
  have texts : (context.declaredNames.map upperCamel).Nodup →
      (context.enumNames.map fun name => lowerCamel name ++ "EnumValue").Nodup := by
    intro distinct
    have fewer : context.enumNames.Sublist context.declaredNames := by
      rw [enumNames, declaredNames, ← List.filter_filter]
      exact (List.filter_sublist.map _).trans (List.sublist_append_left _ _)
    have same : ∀ first second, lowerCamel first ++ "EnumValue" = lowerCamel second ++ "EnumValue" ↔
        upperCamel first = upperCamel second := fun first second => by
      rw [String.append_left_inj, Naming.lowerCamel_eq_iff]
    rw [nodup_map_congr same]
    exact distinct.sublist (fewer.map _)
  have stored : (context.declaredNames.map upperCamel).Nodup → context.slots.Nodup := by
    intro distinct
    have fewer : context.slots.Sublist (context.declaredNames.map Naming.member) := by
      rw [← map_slot_declaredMembers]
      exact List.filter_sublist.map _
    rw [← nodup_map_congr fun _ _ => Naming.member_eq_iff] at distinct
    exact distinct.sublist fewer
  have apart : ∀ accessor ∈ context.accessors, ∀ slot ∈ context.slots, accessor ≠ slot := by
    rintro accessor listed slot alsoListed rfl
    obtain ⟨name, -, same⟩ := context.exists_member_of_slot alsoListed
    apply context.underscore_notMem_accessor listed
    rw [same]
    simp [Naming.member]
  rw [List.nodup_append]
  constructor
  · rintro ⟨distinct, -, -⟩
    rw [accessors, map_accessor_declaredMembers, map_enumAccess_declaredMembers,
      List.nodup_append] at distinct
    refine ⟨spelled.mp distinct.1, fun name listed other alsoListed => ?_⟩
    exact distinct.2.2 _ (List.mem_map_of_mem listed) _ (List.mem_map_of_mem alsoListed)
  · rintro ⟨distinct, unlike⟩
    refine ⟨?_, stored distinct, apart⟩
    rw [accessors, map_accessor_declaredMembers, map_enumAccess_declaredMembers,
      List.nodup_append]
    refine ⟨spelled.mpr distinct, texts distinct, ?_⟩
    intro accessor listed text alsoListed
    obtain ⟨name, inside, rfl⟩ := List.mem_map.mp listed
    obtain ⟨other, alsoInside, rfl⟩ := List.mem_map.mp alsoListed
    exact unlike name inside other alsoInside

/-- The names themselves are distinct. -/
theorem nodup_names {context : RecordContext} (wellFormed : context.spec.WellFormed)
    (member : context.sequence ∈ context.spec.sequences.toList) : context.names.Nodup := by
  have distinct := wellFormed.names_nodup member
  have fields : context.fields.Perm (context.sequence.fields.map context.spec.field) :=
    List.mergeSort_perm _ _
  have references :
      context.references.Perm (context.sequence.references.map context.spec.reference) :=
    List.mergeSort_perm _ _
  rw [names, ((fields.map Field.name).append (references.map Reference.name)).nodup_iff,
    List.map_map, List.map_map]
  exact distinct

/-! Where the headers declare the identifiers. -/

private theorem enumerators_infix_utilHeaders :
    (context.enumerators.map fun name => .line s!"{name},") <:+: context.utilHeaders.base.body := by
  have listed : (context.enumerators.map fun name => Step.line s!"{name},") <:+:
      context.memberEnumeration := by
    rw [enumerators, List.map_cons, List.map_map]
    exact List.infix_cons (Step.infix_declarationBraces _)
  have traits : context.memberEnumeration <:+: context.recordTraits := by
    apply List.infix_append_of_infix_right
    exact (List.infix_append_of_infix_right List.infix_rfl).trans (Step.infix_declarationBraces _)
  apply List.IsInfix.trans (listed.trans traits)
  -- Four parts of the body follow the traits of the record.
  iterate 4 apply List.infix_append_of_infix_left
  exact List.infix_append_of_infix_right List.infix_rfl

/-- A record header holds the declarations of its members and their variables. -/
theorem members_infix_recordHeaders {record : HeaderPair}
    (rendered : context.recordHeaders = .ok record) :
    context.declaredMembers.flatMap RecordMember.declaration <:+: record.base.body ∧
      context.storedMembers.map RecordMember.variableStep <:+: record.base.body := by
  obtain ⟨writer, -, rfl⟩ := bind_pure_eq_ok_iff.mp rendered
  have inside : ∀ {steps body start behind : List Step} {line : Step}, steps <:+: body →
      steps <:+: start ++ line :: Step.declarationBraces body ++ behind := fun within =>
    (List.infix_cons (within.trans (Step.infix_declarationBraces _))).trans
      (List.infix_append _ _ _)
  constructor
  · apply inside
    -- The writer and the variables follow the declarations.
    iterate 5 apply List.infix_append_of_infix_left
    exact List.infix_append_of_infix_right List.infix_rfl
  · apply inside
    exact List.infix_append_of_infix_right (List.infix_cons List.infix_rfl)

theorem exists_recordHeaders {pairs : List HeaderPair} (rendered : context.headers = .ok pairs) :
    context.utilHeaders ∈ pairs ∧ ∃ record ∈ pairs, context.recordHeaders = .ok record := by
  obtain ⟨_, record, _, _, -, recordRendered, -, -, rfl⟩ := parts_of_headers rendered
  exact ⟨by simp, record, by simp, recordRendered⟩

/-- The identifiers of a record: where headers declare them, and when they are distinct. -/
structure Identified (context : RecordContext) (headers : List HeaderPair) : Prop where
  /-- The names that they are formed from are distinct. -/
  names : context.names.Nodup
  /-- The traits list the enumerators. -/
  enumeration : context.utilHeaders ∈ headers ∧
    (context.enumerators.map fun name => .line s!"{name},") <:+: context.utilHeaders.base.body
  /-- The record class declares the accessors and the variables. -/
  declarations : ∃ record ∈ headers, context.recordHeaders = .ok record ∧
    context.declaredMembers.flatMap RecordMember.declaration <:+: record.base.body ∧
    context.storedMembers.map RecordMember.variableStep <:+: record.base.body
  enumerators : "" ∉ context.enumerators ∧ context.enumerators.Nodup ↔
    (∀ name ∈ context.names, letters name ≠ []) ∧
      (("unknown" :: context.names).map constantWords).Nodup
  members : (context.accessors ++ context.slots).Nodup ↔
    (context.declaredNames.map upperCamel).Nodup ∧
      ∀ name ∈ context.declaredNames, ∀ other ∈ context.enumNames,
        lowerCamel name ≠ lowerCamel other ++ "EnumValue"

end RecordContext

/-- **When the identifiers of a record clash.** In a document that is compiled, the enumerators of a
random sequence are distinct and not empty exactly if every name has letters or digits and no two
names, nor a name and `unknown`, consist of the same words. Its accessors and variables are distinct
exactly if the names differ in camel case and none is spelled like the text of an enumeration value. -/
theorem compile_identifiers_distinct_iff {store after : MemoryStore} {targetNamespace text : String}
    {report : Report} (compiled : compileInMemory store targetNamespace text = (.ok report, after)) :
    ∃ spec, readDocument text = .ok spec ∧
      ∀ sequence ∈ spec.sequences.toList, sequence.kind = .random →
        RecordContext.Identified ⟨spec, sequence, targetNamespace⟩
          (spec.plan targetNamespace).headers := by
  obtain ⟨spec, read, complete, -⟩ := exists_complete_of_compiled compiled
  have linked := linked_of_readDocument read
  refine ⟨spec, read, fun sequence member random => ?_⟩
  obtain ⟨pairs, rendered, planned⟩ :=
    Specification.exists_headers_of_plan linked complete member random
  obtain ⟨util, record, listed, recordRendered⟩ := RecordContext.exists_recordHeaders _ rendered
  exact
    { names := RecordContext.nodup_names linked.wellFormed member
      enumeration := ⟨planned util, RecordContext.enumerators_infix_utilHeaders _⟩
      declarations := ⟨record, planned listed, recordRendered,
        RecordContext.members_infix_recordHeaders _ recordRendered⟩
      enumerators := RecordContext.enumerators_distinct_iff _
      members := RecordContext.nodup_members_iff _ }

namespace Prototype.Sample

open Markup (Element)

/-- A document with a record whose fields differ, and one whose fields have the same words. -/
def datesRoot : Element :=
  { name := rootName
    children := [
      { name := "record_sequences"
        children := [
          randomSequence "a" [numberField "ship_date"] [],
          randomSequence "b" [numberField "ship_date", numberField "shipDate"] []] }] }

/-- The text of the document. -/
def datesText : String :=
  String.ofList datesRoot.print

private theorem parse_datesText : Markup.parse datesText = .ok datesRoot :=
  Markup.Element.parse_print (by decide +kernel)

/-- Whether a sequence is random, with its names, those that its record declares and those of
enumeration fields. -/
def recordNames (spec : Specification .resolved) (sequence : RecordSequence) :
    Bool × List String × List String × List String :=
  let context : RecordContext := ⟨spec, sequence, "Shop"⟩
  (sequence.kind == .random, context.names, context.declaredNames, context.enumNames)

set_option maxRecDepth 100000 in
private theorem exists_compiled_dates :
    ∃ spec report after, readDocument datesText = .ok spec ∧
      decide (spec.sequences.toList.map (recordNames spec) =
        [(true, ["gen_id", "ship_date"], ["ship_date"], []),
          (true, ["gen_id", "ship_date", "shipDate"], ["ship_date", "shipDate"], [])]) = true ∧
      (spec.plan "Shop").failure = none ∧
      compileInMemory {} "Shop" datesText = (.ok report, after) := by
  refine exists_compiled_of_isRenderable parse_datesText ?_ {} "Shop"
  cbv

/-- The sequences of the sample, found by their names. -/
theorem exists_dates :
    ∃ spec report after, readDocument datesText = .ok spec ∧
      compileInMemory {} "Shop" datesText = (.ok report, after) ∧
      ∀ entry ∈ [(["gen_id", "ship_date"], ["ship_date"]),
          (["gen_id", "ship_date", "shipDate"], ["ship_date", "shipDate"])],
        ∃ sequence ∈ spec.sequences.toList, sequence.kind = .random ∧
          RecordContext.names ⟨spec, sequence, "Shop"⟩ = entry.1 ∧
          RecordContext.declaredNames ⟨spec, sequence, "Shop"⟩ = entry.2 ∧
          RecordContext.enumNames ⟨spec, sequence, "Shop"⟩ = [] := by
  obtain ⟨spec, report, after, read, named, -, compiled⟩ := exists_compiled_dates
  refine ⟨spec, report, after, read, compiled, fun entry listed => ?_⟩
  have found : (true, entry.1, entry.2, []) ∈ spec.sequences.toList.map (recordNames spec) := by
    rw [of_decide_eq_true named]
    revert entry
    decide
  obtain ⟨sequence, member, same⟩ := List.mem_map.mp found
  simp only [recordNames, Prod.mk.injEq, beq_iff_eq] at same
  exact ⟨sequence, member, same⟩

end Prototype.Sample

section

open Prototype.Sample

/-- One field for a date has identifiers of its own. -/
theorem single_date_identified :
    ∃ spec report after, readDocument datesText = .ok spec ∧
      compileInMemory {} "Shop" datesText = (.ok report, after) ∧
      ∃ sequence ∈ spec.sequences.toList, sequence.kind = .random ∧
        RecordContext.names ⟨spec, sequence, "Shop"⟩ = ["gen_id", "ship_date"] ∧
        "" ∉ RecordContext.enumerators ⟨spec, sequence, "Shop"⟩ ∧
        (RecordContext.enumerators ⟨spec, sequence, "Shop"⟩).Nodup ∧
        (RecordContext.accessors ⟨spec, sequence, "Shop"⟩ ++
          RecordContext.slots ⟨spec, sequence, "Shop"⟩).Nodup := by
  obtain ⟨spec, report, after, read, compiled, entries⟩ := exists_dates
  obtain ⟨sequence, member, random, names, declared, enums⟩ :=
    entries (["gen_id", "ship_date"], ["ship_date"]) (by decide)
  obtain ⟨other, again, identified⟩ := compile_identifiers_distinct_iff compiled
  obtain rfl := Except.ok.inj (read.symm.trans again)
  have rules := identified sequence member random
  have enumerators := rules.enumerators.mpr (by rw [names]; decide)
  have members := rules.members.mpr (by rw [declared, enums]; decide)
  exact ⟨spec, report, after, read, compiled, sequence, member, random, names, enumerators.1,
    enumerators.2, members⟩

/-- The fields `ship_date` and `shipDate` have one enumerator and one accessor. -/
theorem equal_dates_repeat_identifiers :
    ∃ spec report after, readDocument datesText = .ok spec ∧
      compileInMemory {} "Shop" datesText = (.ok report, after) ∧
      ∃ sequence ∈ spec.sequences.toList, sequence.kind = .random ∧
        RecordContext.enumerators ⟨spec, sequence, "Shop"⟩ =
          ["UNKNOWN", "GEN_ID", "SHIP_DATE", "SHIP_DATE"] ∧
        RecordContext.accessors ⟨spec, sequence, "Shop"⟩ = ["shipDate", "shipDate"] := by
  obtain ⟨spec, report, after, read, compiled, entries⟩ := exists_dates
  obtain ⟨sequence, member, random, names, declared, enums⟩ :=
    entries (["gen_id", "ship_date", "shipDate"], ["ship_date", "shipDate"]) (by decide)
  refine ⟨spec, report, after, read, compiled, sequence, member, random, ?_, ?_⟩
  · rw [RecordContext.enumerators_eq, names]
    decide
  · rw [RecordContext.accessors, RecordContext.map_accessor_declaredMembers,
      RecordContext.map_enumAccess_declaredMembers, declared, enums]
    decide

end

end Recordgen

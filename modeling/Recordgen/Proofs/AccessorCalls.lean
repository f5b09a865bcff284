import Recordgen.Proofs.AccessorText
import Recordgen.Proofs.ContextRecords
import Recordgen.Proofs.DeclarationOrder
import Recordgen.Proofs.RecordIdentifiers

/-! # Accessors are declared where they are called

Four headers of a record agree on the functions that give access to its fields and references. The
traits call them, the function that writes a record calls them, and the providers of a setter chain
call them along a path from record to record. The record class declares them, with the same names and
types, except for the identifier, which the runtime declares (`RecordContext.AccessDeclared`). The
text of an enumeration value is read from a table that the meta class declares.
-/

namespace Recordgen

open Outcome

open Naming (lowerCamel)

variable {spec : Specification .resolved}

namespace Field

/-- The function for a field. The runtime has one for the identifier. -/
def functionName (field : Field) : String :=
  if field.name = implicitFieldName then "genID" else lowerCamel field.name

/-- The functions that give access to a field. A derived field cannot be set. -/
def accesses (field : Field) : List Access :=
  if field.derived then [.compute field.functionName field.type.code]
  else [.store field.functionName field.type.code, .fetch field.functionName field.type.code]

/-- The function for the text of an enumeration value. -/
def enumTexts (field : Field) : List Access :=
  if field.type = .scalar .enum then [.fetch (lowerCamel field.name ++ "EnumValue") "String"] else []

/-- The function that gives what is written of a field: the text of an enumeration value, or else the
value. -/
def written (field : Field) : Access :=
  if field.type = .scalar .enum then .fetch (lowerCamel field.name ++ "EnumValue") "String"
  else if field.derived then .compute field.functionName field.type.code
  else .fetch field.functionName field.type.code

/-- What is written of a field is one of its functions. -/
theorem written_mem (field : Field) : field.written ∈ field.accesses ++ field.enumTexts := by
  by_cases enumerated : field.type = .scalar .enum
  · simp [written, enumTexts, enumerated]
  · by_cases derived : field.derived = true
    · simp [written, accesses, enumerated, derived]
    · simp [written, accesses, enumerated, derived]

private theorem name_written {field : Field} (plain : field.type ≠ .scalar .enum) :
    field.written.name = field.functionName := by
  rw [written, if_neg plain]
  split
  · rfl
  · rfl

end Field

/-- The functions that give access to a reference to a record of the given class. -/
def Reference.accesses (recordClass : String) (reference : Reference .resolved) : List Access :=
  [.store (lowerCamel reference.name) s!"AutoPtr<{recordClass}>",
    .fetch (lowerCamel reference.name) s!"AutoPtr<{recordClass}>"]

/-! Members in terms of fields and references. -/

namespace RecordMember

section OfField

variable {field : Field} (runtime : field.implicit = true ↔ field.name = implicitFieldName)

include runtime

private theorem accessor_eq_functionName : field.accessor = field.functionName := by
  by_cases named : field.name = implicitFieldName
  · simp [Field.accessor, Field.functionName, named, runtime.mpr named]
  · simp [Field.accessor, Field.functionName, named, mt runtime.mp named]

private theorem accesses_ofField : (ofField field).accesses = field.accesses := by
  simp only [accesses, ofField, Field.accesses, accessor_eq_functionName runtime]

private theorem enumTexts_ofField (declared : field.name ≠ implicitFieldName) :
    (ofField field).enumTexts = field.enumTexts := by
  have name : field.functionName = lowerCamel field.name := if_neg declared
  simp only [enumTexts, ofField, Field.enumTexts, accessor_eq_functionName runtime, name,
    FieldType.isEnum, beq_iff_eq]

end OfField

/-- No declaration of a function starts like the type of a field. -/
theorem exists_lead_code (type : FieldType) :
    ∃ lead, (∃ rest, type.code = lead ++ rest) ∧ Access.startsApart lead = true := by
  cases type with
  | scalar element =>
      refine ⟨element.name, ⟨"", String.append_empty.symm⟩, ?_⟩
      cases element <;> decide
  | vector element size =>
      exact ⟨"vector<", ⟨element.name ++ ">", String.append_assoc⟩, by decide⟩

private theorem plain_code (type : FieldType) :
    '&' ∉ type.code.toList ∧ ' ' ∉ type.code.toList := by
  cases type with
  | scalar element => cases element <;> simp [FieldType.code, LiteralType.name]
  | vector element size => cases element <;> simp [FieldType.code, LiteralType.name, toString]

private theorem legible_ofField {field : Field} (declared : field.implicit = false) :
    (ofField field).Legible where
  accessor inside := by
    rw [RecordContext.accessor_ofField declared] at inside
    cases Naming.isAlphanum_of_mem_lowerCamel inside
  type := plain_code field.type
  lead := exists_lead_code field.type

private theorem legible_ofReference {key : String} (reference : Reference .resolved) :
    (ofReference (Naming.upperCamel key) reference).Legible where
  accessor inside := by cases Naming.isAlphanum_of_mem_lowerCamel inside
  type := by
    have plain : ∀ mark, mark = '&' ∨ mark = ' ' →
        mark ∉ ("AutoPtr<" ++ Naming.upperCamel key ++ ">").toList := by
      intro mark sort inside
      simp only [String.toList_append, List.mem_append] at inside
      rcases inside with (inside | inside) | inside
      · rcases sort with rfl | rfl <;> simp at inside
      · have letter := Naming.isAlphanum_of_mem_upperCamel inside
        rcases sort with rfl | rfl <;> cases letter
      · rcases sort with rfl | rfl <;> simp at inside
    exact ⟨plain _ (.inl rfl), plain _ (.inr rfl)⟩
  lead := ⟨"AutoPtr<", ⟨Naming.upperCamel key ++ ">", String.append_assoc⟩, by decide⟩

end RecordMember

/-! The function that writes a record. -/

namespace DelimitedFormat

variable (format : DelimitedFormat)

/-- The values of a record are written with delimiters between them. -/
theorem writeFields_eq (fields : List Field) :
    format.writeFields fields =
      (fields.map fun field => Step.line s!"out.write({valueCall field}, {format.quoted});").intersperse
        (.line s!"out.write({format.delimiter});") := by
  fun_induction writeFields format fields with
  | case1 => rfl
  | case2 last => rfl
  | case3 field rest filled ih =>
      cases rest with
      | nil => exact absurd rfl filled
      | cons next rest =>
          rw [ih]
          rfl

private theorem readLines_writeFields (fields : List Field) :
    Step.readLines Access.declared? (format.writeFields fields) = [] := by
  have value : ∀ field, Access.declared? s!"out.write({valueCall field}, {format.quoted});" = none :=
    fun field => Access.declared?_of_lead "out.write("
      ⟨valueCall field ++ ", " ++ format.quoted ++ ");", by simp only [String.append_assoc]; rfl⟩
      (by decide)
  have delimiter : Access.declared? s!"out.write({format.delimiter});" = none :=
    Access.declared?_of_lead "out.write(" ⟨format.delimiter ++ ");", String.append_assoc⟩ (by decide)
  fun_induction writeFields format fields with
  | case1 => rfl
  | case2 last => simp [value]
  | case3 field rest filled ih => simp [value, delimiter, ih]

private theorem valueCall_eq {field : Field}
    (runtime : field.implicit = true ↔ field.name = implicitFieldName)
    (identifier : field.name = implicitFieldName → field.type = .scalar .i64u) :
    valueCall field = s!"{field.written.name}()" := by
  have texts : field.type.isEnum = true ↔ field.type = .scalar .enum := beq_iff_eq
  by_cases enumerated : field.type = .scalar .enum
  · have declared : field.name ≠ implicitFieldName := fun named => by
      cases enumerated.symm.trans (identifier named)
    have name : field.functionName = lowerCamel field.name := if_neg declared
    have calls : "EnumValue()" = "EnumValue" ++ "()" := by decide
    rw [valueCall, if_pos (texts.mpr enumerated), Field.written, if_pos enumerated,
      RecordMember.accessor_eq_functionName runtime, name]
    change lowerCamel field.name ++ "EnumValue()" = lowerCamel field.name ++ "EnumValue" ++ "()"
    rw [calls, String.append_assoc]
  · rw [valueCall, if_neg (mt texts.mp enumerated), Field.name_written enumerated,
      RecordMember.accessor_eq_functionName runtime]

end DelimitedFormat

/-- Only the identifier of a record is declared by the runtime. -/
theorem Specification.WellFormed.implicit_iff (wellFormed : spec.WellFormed) {record : SequenceId}
    {id : FieldId} (listed : id ∈ (spec.sequence record).fields) :
    ((spec.field id).implicit = true ↔ (spec.field id).name = implicitFieldName) ∧
      ((spec.field id).name = implicitFieldName → (spec.field id).type = .scalar .i64u) := by
  rcases spec.sequence_cases record with present | blank
  · have member := mem_sequences present
    obtain ⟨first, rest, split, named, typed, implicit, -, explicit⟩ := wellFormed.identifier member
    have distinct := (List.nodup_append.mp (wellFormed.names_nodup member)).1
    rw [split, List.map_cons, List.nodup_cons] at distinct
    rw [split] at listed
    rcases List.mem_cons.mp listed with rfl | later
    · exact ⟨iff_of_true implicit named, fun _ => typed⟩
    · have other : (spec.field id).name ≠ implicitFieldName := fun same =>
        distinct.1 (List.mem_map.mpr ⟨id, later, same.trans named.symm⟩)
      exact ⟨iff_of_false (by simp [explicit id later]) other, fun same => absurd same other⟩
  · rw [blank] at listed
    cases listed

/-- A reference is listed by the record that owns it. -/
theorem Specification.WellFormed.listed_of_reference (wellFormed : spec.WellFormed)
    {id : ReferenceId} (inside : id.index < spec.references.size) :
    id ∈ (spec.sequence (spec.reference id).owner).references := by
  have known : id ∈ spec.references.toList.map Reference.id := by
    rw [wellFormed.referenceIds]
    exact List.mem_map.mpr ⟨id.index, List.mem_range.mpr inside, rfl⟩
  rw [← wellFormed.referencesListed] at known
  obtain ⟨sequence, member, listed⟩ := List.mem_flatMap.mp known
  rw [← wellFormed.sequence_id member] at listed
  rw [(wellFormed.reference_of_listed listed).2.2]
  exact listed

namespace RecordContext

variable {context : RecordContext} {recordMember : RecordMember}

private theorem implicit_iff (wellFormed : context.spec.WellFormed)
    (member : context.sequence ∈ context.spec.sequences.toList) {field : Field}
    (listed : field ∈ context.fields) :
    (field.implicit = true ↔ field.name = implicitFieldName) ∧
      (field.name = implicitFieldName → field.type = .scalar .i64u) := by
  have ordered : context.fields.Perm (context.sequence.fields.map context.spec.field) :=
    List.mergeSort_perm _ _
  obtain ⟨id, inside, rfl⟩ := List.mem_map.mp (ordered.mem_iff.mp listed)
  rw [← wellFormed.sequence_id member] at inside
  exact wellFormed.implicit_iff inside

private theorem legible_of_declared (listed : recordMember ∈ context.declaredMembers) :
    recordMember.Legible := by
  rw [declaredMembers_eq, List.mem_append] at listed
  rcases listed with listed | listed
  · obtain ⟨field, inside, rfl⟩ := List.mem_map.mp listed
    exact RecordMember.legible_ofField (by simpa using (List.mem_filter.mp inside).2)
  · obtain ⟨reference, -, rfl⟩ := List.mem_map.mp listed
    exact RecordMember.legible_ofReference reference

private theorem readLines_forwardDeclarations :
    Step.readLines Access.declared? context.forwardDeclarations = [] := by
  unfold forwardDeclarations
  split
  · rfl
  · rw [Step.readLines_append, Step.readLines_map]
    · rfl
    · intro name _
      exact Access.declared?_of_lead "class " ⟨name ++ ";", String.append_assoc⟩ (by decide)

private theorem readLines_writerBody (format : Option DelimitedFormat) :
    Step.readLines Access.declared? (context.writerBody format) = [] := by
  cases format with
  | none => rfl
  | some format =>
      have ending : Access.declared? "out.write('\\n');" = none :=
        Access.declared?_of_lead "out.write('\\n');" ⟨"", by decide⟩ (by decide)
      simp [writerBody, DelimitedFormat.readLines_writeFields, ending]

private theorem readLines_variables :
    Step.readLines Access.declared? (context.storedMembers.map RecordMember.variableStep) = [] := by
  refine Step.readLines_map _ fun recordMember stored => ?_
  exact RecordMember.declared?_variable (legible_of_declared (List.mem_filter.mp stored).1)

/-- The record class declares the functions of its members, and no others that look like them. -/
theorem readLines_recordHeaders {record : HeaderPair}
    (rendered : context.recordHeaders = .ok record) :
    Step.readLines Access.declared? record.base.body =
      context.declaredMembers.flatMap fun recordMember =>
        recordMember.accesses ++ recordMember.enumTexts := by
  obtain ⟨writer, written, rfl⟩ := bind_pure_eq_ok_iff.mp rendered
  obtain ⟨format, -, rfl⟩ := bind_pure_eq_ok_iff.mp written
  have head : ∀ name : String, Access.declared? s!"class {name} : public Record" = none := fun name =>
    Access.declared?_of_lead "class " ⟨name ++ " : public Record", String.append_assoc⟩ (by decide)
  have maker : ∀ name parameter : String,
      Access.declared? s!"{name}(const {parameter}& meta) :" = none :=
    fun name parameter => Access.declared?_of_tail "& meta) :" ⟨_, rfl⟩ (by decide)
  have ending : ∀ name : String, Access.declared? s!"virtual ~{name}()" = none := fun name =>
    Access.declared?_of_tail "()" ⟨_, rfl⟩ (by decide)
  have store : ∀ name : String, Access.declared? s!"const {name}& _meta;" = none := fun name =>
    Access.declared?_of_tail "& _meta;" ⟨_, rfl⟩ (by decide)
  have fixed : ["public:", "protected:", "_meta(meta)", "void write(OutputCollector& out) const"].all
      (fun text => (Access.declared? text).isNone) = true := by decide
  simp only [List.all_cons, List.all_nil, Bool.and_true, Bool.and_eq_true,
    Option.isNone_iff_eq_none] at fixed
  simp only [Step.readLines_append, Step.readLines_line, Step.readLines_blank, Step.readLines_nil,
    Step.readLines_declarationBraces, Step.readLines_accessLabel, Step.readLines_constructor,
    Step.readLines_function, Step.destructor, readLines_forwardDeclarations, readLines_writerBody,
    readLines_variables, head, maker, ending, store, fixed, Option.toList_none, List.nil_append,
    List.append_nil, Step.readLines_flatMap]
  exact List.flatMap_congr fun recordMember listed =>
    RecordMember.readLines_declaration (legible_of_declared listed)

private theorem mem_traitsMembers (listed : recordMember ∈ context.traitsMembers) :
    (∃ name, recordMember.constant = Naming.constantName name) ∧
      (recordMember.isDerived = true →
        ∃ lead, (∃ rest, recordMember.type = lead ++ rest) ∧ Access.startsApart lead = true) := by
  rw [traitsMembers, members, List.mem_append] at listed
  rcases listed with listed | listed
  · obtain ⟨field, -, rfl⟩ := List.mem_map.mp listed
    exact ⟨⟨field.name, rfl⟩, fun _ => RecordMember.exists_lead_code field.type⟩
  · obtain ⟨reference, -, rfl⟩ := List.mem_map.mp listed
    exact ⟨⟨reference.name, rfl⟩, fun derived => absurd derived Bool.false_ne_true⟩

private theorem readLines_recordTraits (record : String) :
    Step.readLines (TraitsPart.read? record) context.recordTraits = [] := by
  have unread : ∀ lead rest : String,
      TraitsPart.starts.all (fun start => Text.apart start.toList lead.toList) = true →
        TraitsPart.read? record (lead ++ rest) = none := fun lead rest =>
    TraitsPart.read?_of_lead record lead ⟨rest, rfl⟩
  have template : TraitsPart.read? record "template<>" = none := unread "template<" ">" (by decide)
  have head : ∀ name : String, TraitsPart.read? record s!"struct RecordTraits<{name}>" = none :=
    fun name => String.append_assoc ▸ unread "struct RecordTraits<" (name ++ ">") (by decide)
  have generator : ∀ name : String,
      TraitsPart.read? record s!"typedef {name} GeneratorType;" = none := fun name =>
    TraitsPart.read?_typedef record name (by decide)
  have chain : ∀ name : String,
      TraitsPart.read? record s!"typedef {name} SetterChainType;" = none := fun name =>
    TraitsPart.read?_typedef record name (by decide)
  have enumeration : TraitsPart.read? record "enum Field" = none :=
    unread "enum " "Field" (by decide)
  have unknown : TraitsPart.read? record "UNKNOWN," = none := unread "UNKNOWN" "," (by decide)
  have constants : Step.readLines (TraitsPart.read? record)
      (context.traitsMembers.map fun recordMember => .line s!"{recordMember.constant},") = [] := by
    refine Step.readLines_map _ fun recordMember listed => ?_
    obtain ⟨⟨name, same⟩, -⟩ := mem_traitsMembers listed
    rw [same]
    exact TraitsPart.read?_constant record name
  simp only [recordTraits, memberEnumeration, Step.readLines_append, Step.readLines_line,
    Step.readLines_blank, Step.readLines_nil, Step.readLines_declarationBraces, template, head,
    generator, chain, enumeration, unknown, constants, Option.toList_none, List.append_nil]

/-- The traits of a record call the functions of its members, and nothing else. -/
theorem readLines_utilHeaders :
    Step.readLines (TraitsPart.read? (context.qualified context.record))
        context.utilHeaders.base.body =
      context.traitsMembers.flatMap fun recordMember =>
        TraitsPart.ofMember recordMember.constant recordMember.type recordMember.accesses := by
  have forward : ∀ name : String,
      TraitsPart.read? (context.qualified context.record) s!"class {name};" = none := fun name =>
    TraitsPart.read?_of_lead _ "class " ⟨name ++ ";", String.append_assoc⟩ (by decide)
  simp only [utilHeaders, Step.readLines_append, Step.readLines_line, Step.readLines_blank,
    Step.readLines_nil, Step.readLines_openNamespace, Step.readLines_closeNamespace,
    readLines_recordTraits, forward, Option.toList_none, List.append_nil, List.nil_append,
    Step.readLines_flatMap]
  exact List.flatMap_congr fun recordMember listed =>
    RecordMember.readLines_traits _ (mem_traitsMembers listed).2

/-- The lines in the traits of a record: for every field and reference, its constant, its type and the
functions that are called for it. -/
def traitsParts (context : RecordContext) : List TraitsPart :=
  (context.fields.flatMap fun field =>
      TraitsPart.ofMember (Naming.constantName field.name) field.type.code field.accesses) ++
    context.references.flatMap fun reference =>
      let recordClass := context.qualified (context.spec.recordClass reference.target)
      TraitsPart.ofMember (Naming.constantName reference.name) s!"AutoPtr<{recordClass}>"
        (reference.accesses recordClass)

/-- The functions that the record class has to declare: those of the members that the runtime does
not declare, and those for the texts of enumeration values. -/
def declaredAccesses (context : RecordContext) : List Access :=
  ((context.fields.filter fun field => field.name ≠ implicitFieldName).flatMap fun field =>
      field.accesses ++ field.enumTexts) ++
    context.references.flatMap fun reference =>
      reference.accesses (context.spec.recordClass reference.target)

private theorem subset_declaredAccesses_of_field {field : Field} (listed : field ∈ context.fields)
    (declared : field.name ≠ implicitFieldName) :
    field.accesses ++ field.enumTexts ⊆ context.declaredAccesses := by
  intro access inside
  apply List.mem_append_left
  exact List.mem_flatMap.mpr ⟨field, List.mem_filter.mpr ⟨listed, by simpa using declared⟩, inside⟩

private theorem subset_declaredAccesses_of_reference {reference : Reference .resolved}
    (listed : reference ∈ context.references) :
    reference.accesses (context.spec.recordClass reference.target) ⊆ context.declaredAccesses := by
  intro access inside
  apply List.mem_append_right
  exact List.mem_flatMap.mpr ⟨reference, listed, inside⟩

/-- Whether a record writes its values with delimiters. -/
def isDelimited (context : RecordContext) : Bool :=
  context.sequence.outputFormat.any fun id => (context.spec.component id).kind == .csvOutputFormat

/-- The body of the function that writes a record: a call for every field, with delimiters between
the values, or nothing. -/
inductive Writes (context : RecordContext) : List Step → Prop
  | values (delimited : context.isDelimited = true) (delimiter quoted : String) :
      Writes context ((context.fields.map fun field =>
        Step.line s!"out.write({field.written.name}(), {quoted});").intersperse
          (.line s!"out.write({delimiter});") ++ [.line "out.write('\\n');"])
  | nothing (other : context.isDelimited = false) : Writes context []

section Members

variable (wellFormed : context.spec.WellFormed)
  (member : context.sequence ∈ context.spec.sequences.toList)

include wellFormed member

private theorem flatMap_traitsMembers :
    (context.traitsMembers.flatMap fun recordMember =>
        TraitsPart.ofMember recordMember.constant recordMember.type recordMember.accesses) =
      context.traitsParts := by
  have fields : ((context.fields.map RecordMember.ofField).flatMap fun recordMember =>
        TraitsPart.ofMember recordMember.constant recordMember.type recordMember.accesses) =
      context.fields.flatMap fun field =>
        TraitsPart.ofMember (Naming.constantName field.name) field.type.code field.accesses := by
    rw [List.flatMap_map]
    refine List.flatMap_congr fun field listed => ?_
    rw [RecordMember.accesses_ofField (implicit_iff wellFormed member listed).1]
    rfl
  rw [traitsMembers, members, List.flatMap_append, fields, List.flatMap_map, traitsParts]
  rfl

private theorem flatMap_declaredMembers :
    (context.declaredMembers.flatMap fun recordMember =>
        recordMember.accesses ++ recordMember.enumTexts) = context.declaredAccesses := by
  have declared : (context.fields.filter fun field => !field.implicit) =
      context.fields.filter fun field => field.name ≠ implicitFieldName := by
    apply List.filter_congr
    intro field listed
    have runtime := (implicit_iff wellFormed member listed).1
    by_cases named : field.name = implicitFieldName
    · simp [named, runtime.mpr named]
    · simp [named, mt runtime.mp named]
  have fields : ((context.fields.filter fun field => field.name ≠ implicitFieldName).map
        RecordMember.ofField).flatMap (fun recordMember =>
          recordMember.accesses ++ recordMember.enumTexts) =
      (context.fields.filter fun field => field.name ≠ implicitFieldName).flatMap fun field =>
        field.accesses ++ field.enumTexts := by
    rw [List.flatMap_map]
    refine List.flatMap_congr fun field listed => ?_
    obtain ⟨inside, named⟩ := List.mem_filter.mp listed
    have runtime := (implicit_iff wellFormed member inside).1
    rw [RecordMember.accesses_ofField runtime,
      RecordMember.enumTexts_ofField runtime (by simpa using named)]
  rw [declaredMembers_eq, declared, List.flatMap_append, fields, List.flatMap_map, declaredAccesses]
  rfl

/-- The functions that are called to write a record are those of its fields. -/
theorem map_valueCall (quoted : String) :
    (context.fields.map fun field =>
        Step.line s!"out.write({DelimitedFormat.valueCall field}, {quoted});") =
      context.fields.map fun field =>
        Step.line s!"out.write({field.written.name}(), {quoted});" := by
  refine List.map_congr_left fun field inside => ?_
  obtain ⟨runtime, identifier⟩ := implicit_iff wellFormed member inside
  have parts : "(), " = "()" ++ ", " := by decide
  rw [DelimitedFormat.valueCall_eq runtime identifier]
  apply congrArg Step.line
  change "out.write(" ++ (field.written.name ++ "()") ++ ", " ++ quoted ++ ");" =
    "out.write(" ++ field.written.name ++ "(), " ++ quoted ++ ");"
  simp only [parts, String.append_assoc]

private theorem writes_writerBody {format : Option DelimitedFormat}
    (found : context.delimitedFormat? = .ok format) : context.Writes (context.writerBody format) := by
  cases listed : context.sequence.outputFormat with
  | none =>
      rw [delimitedFormat?, listed] at found
      obtain rfl := Except.ok.inj found
      exact .nothing (by rw [isDelimited, listed]; rfl)
  | some id =>
      have sort : context.isDelimited = ((context.spec.component id).kind == .csvOutputFormat) := by
        rw [isDelimited, listed]
        rfl
      rw [delimitedFormat?, listed, Option.map_some, Option.filter_some] at found
      by_cases csv : ((context.spec.component id).kind == .csvOutputFormat) = true
      · rw [if_pos csv] at found
        obtain ⟨options, -, rfl⟩ := map_eq_ok_iff.mp found
        rw [writerBody, DelimitedFormat.writeFields_eq, map_valueCall wellFormed member]
        exact .values (sort.trans csv) options.delimiter options.quoted
      · rw [if_neg csv] at found
        obtain rfl := Except.ok.inj found
        exact .nothing (sort.trans (Bool.not_eq_true _ ▸ csv))

private theorem exists_writes {record : HeaderPair}
    (rendered : context.recordHeaders = .ok record) :
    ∃ body, context.Writes body ∧
      Step.function "void write(OutputCollector& out) const" body <:+: record.base.body := by
  obtain ⟨writer, written, rfl⟩ := bind_pure_eq_ok_iff.mp rendered
  obtain ⟨format, found, rfl⟩ := bind_pure_eq_ok_iff.mp written
  refine ⟨context.writerBody format, writes_writerBody wellFormed member found, ?_⟩
  refine List.infix_append_of_infix_left (List.infix_append_of_infix_right (List.infix_cons ?_))
  refine List.IsInfix.trans ?_ (Step.infix_declarationBraces _)
  -- The variables follow the writer, behind a label.
  iterate 3 apply List.infix_append_of_infix_left
  exact List.infix_append_of_infix_right List.infix_rfl

end Members

/-- The function for the text of an enumeration value. It looks the value up in a table. -/
def enumFunction (field : Field) : List Step :=
  let name := lowerCamel field.name
  let index := if field.derived then s!"{name}()" else Naming.member field.name
  Step.function s!"const String& {name}EnumValue() const" [.line s!"return _meta.{name}[{index}];"]

section Tables

variable {field : Field} (listed : field ∈ context.fields) (enumerated : field.type = .scalar .enum)

include listed enumerated

/-- The meta class has a table for every enumeration field. -/
theorem table_mem_metaHeaders {metaPair : HeaderPair}
    (rendered : context.metaHeaders = .ok metaPair) :
    .line s!"const vector<String>& {lowerCamel field.name};" ∈ metaPair.base.body := by
  obtain ⟨tables, found, rfl⟩ := bind_pure_eq_ok_iff.mp rendered
  obtain ⟨entries, read, rfl⟩ := bind_pure_eq_ok_iff.mp found
  obtain ⟨entry, inside, here⟩ := exists_right_of_mem (mapM_eq_ok_iff.mp read) listed
  have texts : field.type.isEnum = true := beq_iff_eq.mpr enumerated
  rw [enumTable?, texts, if_neg (by decide)] at here
  cases known : field.enumSet with
  | none =>
      rw [known] at here
      cases here
  | some enumSet =>
      rw [known] at here
      obtain rfl := Except.ok.inj here
      have table : ⟨lowerCamel field.name, enumSet⟩ ∈ entries.filterMap id :=
        List.mem_filterMap.mpr ⟨_, inside, rfl⟩
      have declared : .line s!"const vector<String>& {lowerCamel field.name};" ∈
          metaMembers (entries.filterMap id) := by
        rw [metaMembers, if_neg (by simpa using List.ne_nil_of_mem table)]
        exact List.mem_cons_of_mem _ (List.mem_map.mpr ⟨_, table, rfl⟩)
      apply List.mem_append_left
      apply List.mem_cons_of_mem
      exact (Step.infix_declarationBraces _).subset (List.mem_append_right _ declared)

/-- The record class has a function for the text of every enumeration value. -/
theorem enumFunction_infix (declared : field.implicit = false) {record : HeaderPair}
    (rendered : context.recordHeaders = .ok record) :
    enumFunction field <:+: record.base.body := by
  have inside : RecordMember.ofField field ∈ context.declaredMembers := by
    rw [declaredMembers_eq]
    exact List.mem_append_left _
      (List.mem_map_of_mem (List.mem_filter.mpr ⟨listed, by simp [declared]⟩))
  have texts : (RecordMember.ofField field).isEnum = true := beq_iff_eq.mpr enumerated
  have own : enumFunction field <:+: (RecordMember.ofField field).declaration := by
    rw [RecordMember.declaration, RecordMember.enumAccess, if_pos texts, RecordMember.enumIndex,
      accessor_ofField declared]
    exact List.infix_append_of_infix_right (List.infix_cons List.infix_rfl)
  have all : (RecordMember.ofField field).declaration <:+:
      context.declaredMembers.flatMap RecordMember.declaration :=
    List.infix_of_mem_flatten (List.mem_map_of_mem inside)
  exact (own.trans all).trans (context.members_infix_recordHeaders rendered).1

end Tables

end RecordContext

/-! Providers that read a field along a path. -/

/-- Functions are called one after the other, from record to record. Each of them is that of a
reference of the record reached so far, and the last one is that of a field. -/
inductive Specification.CallsAlong (spec : Specification .resolved) :
    SequenceId → List String → Prop
  | field (record : SequenceId) (id : FieldId) (listed : id ∈ (spec.sequence record).fields) :
      CallsAlong spec record [(spec.field id).functionName]
  | reference (record : SequenceId) (id : ReferenceId) (rest : List String)
      (listed : id ∈ (spec.sequence record).references)
      (onward : CallsAlong spec (spec.reference id).target rest) :
      CallsAlong spec record (lowerCamel (spec.reference id).name :: rest)

/-- References that lead to the record of a field give calls along the way. -/
theorem Specification.Leads.callsAlong (wellFormed : spec.WellFormed) {start last : SequenceId}
    {inner : List ReferenceId} (leads : spec.Leads start inner last) {id : FieldId}
    (listed : id ∈ (spec.sequence last).fields)
    (inside : ∀ id ∈ inner, id.index < spec.references.size) :
    spec.CallsAlong start (inner.map (fun id => lowerCamel (spec.reference id).name) ++
      [(spec.field id).functionName]) := by
  induction leads with
  | stay record => exact .field record id listed
  | follow record first rest last owned onward ih =>
      rw [List.forall_mem_cons] at inside
      have here := wellFormed.listed_of_reference inside.1
      rw [owned] at here
      exact .reference record first _ here (ih listed inside.2)

/-- The functions of what a path goes along can be called one after the other. -/
theorem FieldLink.Follows.callsAlong (wellFormed : spec.WellFormed) {holder : RecordSequence}
    {path : FieldPath} {link : FieldLink} (follows : link.Follows spec holder path)
    (inside : ∀ id ∈ link.inner, id.index < spec.references.size) :
    spec.CallsAlong link.root (link.accessors spec) := by
  have runtime := (wellFormed.implicit_iff follows.listed).1
  rw [FieldLink.accessors, RecordMember.accessor_eq_functionName runtime]
  exact follows.leads.callsAlong wellFormed follows.listed inside

private theorem linksLead_of_readDocument {text : String} (read : readDocument text = .ok spec) :
    spec.LinksLead := by
  obtain ⟨raw, parsed, resolved⟩ := bind_eq_ok_iff.mp read
  obtain ⟨⟨_, summary⟩, ran, rfl⟩ := map_eq_ok_iff.mp resolved
  have assembled := Prototype.parse_assembled parsed
  exact (Linking.resolved_of_run assembled ran).1.linksLead assembled.wellFormed

/-- A text that is listed with commas stands in a line, with a comma or without. -/
theorem Step.exists_line_of_commaLines {texts : List String} {text : String}
    (listed : text ∈ texts) : ∃ ending ∈ ["", ","], line (text ++ ending) ∈ commaLines texts := by
  fun_induction commaLines texts with
  | case1 => cases listed
  | case2 last =>
      obtain rfl := List.mem_singleton.mp listed
      exact ⟨"", by simp, by simp⟩
  | case3 first rest filled ih =>
      rcases List.mem_cons.mp listed with rfl | later
      · exact ⟨",", by simp, List.mem_cons_self⟩
      · obtain ⟨ending, either, inside⟩ := ih later
        exact ⟨ending, either, List.mem_cons_of_mem _ inside⟩

namespace RecordContext

variable {context : RecordContext} {pairs : List HeaderPair}

/-- Every member of a chain has a line in its constructor. -/
theorem exists_line_of_chainConstructor {declarations : List ChainDeclaration}
    {declaration : ChainDeclaration} (listed : declaration ∈ declarations) :
    ∃ ending ∈ ["", ","],
      .line (declaration.initialiser ++ ending) ∈ context.chainConstructor declarations := by
  have given := List.mem_map_of_mem (f := ChainDeclaration.initialiser) listed
  obtain ⟨ending, either, written⟩ :=
    Step.exists_line_of_commaLines (List.mem_cons_of_mem _ given)
  refine ⟨ending, either, List.mem_cons_of_mem _ (List.mem_append_left _ ?_)⟩
  exact List.mem_cons_of_mem _ (List.mem_append_left _ written)

/-- A provider is constructed in a line of the chain, with a function that calls along a path. -/
structure CallsField (context : RecordContext) (chain : HeaderPair) (id : ComponentId)
    (link : FieldLink) : Prop where
  held : (context.spec.component id).argument? "field" = some (@Argument.fieldRef .resolved link)
  constructed : ∃ member names ending,
    (ChainNames.assign context.spec context.sequence).get id = .ok member ∧
    context.spec.CallsAlong link.root names ∧ ending ∈ ["", ","] ∧
    .line (s!"{member.memberName}(" ++
      contextReader (context.spec.recordClass link.root) (callChain names) ++ ")" ++ ending) ∈
        chain.base.body

private theorem exists_callsField {text : String} (read : readDocument text = .ok context.spec)
    (member : context.sequence ∈ context.spec.sequences.toList) {chain : HeaderPair}
    (rendered : context.chainHeaders (ChainNames.assign context.spec context.sequence) = .ok chain)
    {id : ComponentId} (inside : id ∈ context.spec.chain context.sequence)
    (sort : (context.spec.component id).kind = .contextFieldValueProvider) :
    ∃ link, context.CallsField chain id link := by
  have wellFormed := (linked_of_readDocument read).wellFormed
  obtain ⟨present, -, owned, -⟩ := wellFormed.chain_member member inside
  have argument : (context.spec.component id).kind.hasArgument "field" (.single .fieldRef) =
      true := by
    rw [sort]
    rfl
  obtain ⟨link, path, held, follows⟩ :=
    (pathsFollowed_of_readDocument read).exists_field wellFormed present owned argument
  have calls := follows.callsAlong wellFormed
    ((linksLead_of_readDocument read).fields _ present _ link held).2.1
  obtain ⟨declarations, types, declared, -, within, -⟩ := parts_of_chainHeaders rendered
  have listed := (ChainNames.postOrder_perm wellFormed member).mem_iff.mpr inside
  obtain ⟨declaration, there, here⟩ :=
    exists_right_of_mem (forall₂_of_chainDeclarations declared) listed
  obtain ⟨constructed, -, found, -⟩ := chainDeclaration_eq_ok here
  rw [ConstructorScope.constructorArguments_eq_contextReader sort held] at constructed
  have line : declaration.initialiser = s!"{declaration.member.memberName}(" ++ contextReader
      (context.spec.recordClass link.root) (callChain (link.accessors context.spec)) ++ ")" := by
    rw [ChainDeclaration.initialiser, ← Except.ok.inj constructed]
    rfl
  obtain ⟨ending, either, written⟩ := exists_line_of_chainConstructor there
  rw [line] at written
  refine ⟨link, held, declaration.member, link.accessors context.spec, ending,
    ChainNames.get_eq_ok_iff.mpr found, calls, either, within.subset written⟩

private theorem exists_metaHeaders_mem (rendered : context.headers = .ok pairs) :
    ∃ metaPair ∈ pairs, context.metaHeaders = .ok metaPair := by
  obtain ⟨metaPair, _, _, _, metaRendered, -, -, -, rfl⟩ := parts_of_headers rendered
  exact ⟨metaPair, by simp, metaRendered⟩

/-- The functions that the headers of a record call are declared. -/
structure AccessDeclared (context : RecordContext) (headers : List HeaderPair) : Prop where
  /-- The traits call the functions of all fields and references, and no others. -/
  traits : context.utilHeaders ∈ headers ∧
    Step.readLines (TraitsPart.read? (context.qualified context.record))
        context.utilHeaders.base.body = context.traitsParts
  /-- The record class declares the functions that it has to declare, and no others. It calls the
  functions of fields to write a record, and looks the texts of enumeration values up. -/
  record : ∃ record ∈ headers, context.recordHeaders = .ok record ∧
    Step.readLines Access.declared? record.base.body = context.declaredAccesses ∧
    (∃ body, context.Writes body ∧
      Step.function "void write(OutputCollector& out) const" body <:+: record.base.body) ∧
    ∀ field ∈ context.fields, field.type = .scalar .enum → enumFunction field <:+: record.base.body
  /-- What is called for a field is declared for it, except for the identifier. -/
  fields : ∀ field ∈ context.fields, field.name ≠ implicitFieldName →
    field.written ∈ field.accesses ++ field.enumTexts ∧
      field.accesses ++ field.enumTexts ⊆ context.declaredAccesses
  references : ∀ reference ∈ context.references,
    reference.accesses (context.spec.recordClass reference.target) ⊆ context.declaredAccesses
  /-- The meta class declares the tables that texts are looked up in. -/
  tables : ∃ metaPair ∈ headers, context.metaHeaders = .ok metaPair ∧
    ∀ field ∈ context.fields, field.type = .scalar .enum →
      .line s!"const vector<String>& {lowerCamel field.name};" ∈ metaPair.base.body
  /-- The providers of the setter chain that read a field call the functions along its path. -/
  providers : ∃ chain ∈ headers,
    context.chainHeaders (ChainNames.assign context.spec context.sequence) = .ok chain ∧
    ∀ id ∈ context.spec.chain context.sequence,
      (context.spec.component id).kind = .contextFieldValueProvider →
        ∃ link, context.CallsField chain id link

private theorem accessDeclared_of_headers {text : String}
    (read : readDocument text = .ok context.spec)
    (member : context.sequence ∈ context.spec.sequences.toList) {headers : List HeaderPair}
    (rendered : context.headers = .ok pairs) (kept : pairs ⊆ headers) :
    context.AccessDeclared headers := by
  have wellFormed := (linked_of_readDocument read).wellFormed
  obtain ⟨util, record, recordListed, recordRendered⟩ := context.exists_recordHeaders rendered
  obtain ⟨metaPair, metaListed, metaRendered⟩ := exists_metaHeaders_mem rendered
  obtain ⟨chain, chainListed, chainRendered⟩ := exists_chainHeaders rendered
  refine ⟨⟨kept util, ?_⟩, ⟨record, kept recordListed, recordRendered, ?_, ?_, ?_⟩, ?_, ?_,
    ⟨metaPair, kept metaListed, metaRendered, ?_⟩, ⟨chain, kept chainListed, chainRendered, ?_⟩⟩
  · rw [readLines_utilHeaders, flatMap_traitsMembers wellFormed member]
  · rw [readLines_recordHeaders recordRendered, flatMap_declaredMembers wellFormed member]
  · exact exists_writes wellFormed member recordRendered
  · intro field listed enumerated
    obtain ⟨runtime, identifier⟩ := implicit_iff wellFormed member listed
    have declared : field.implicit = false := by
      refine Bool.eq_false_iff.mpr fun implicit => ?_
      cases enumerated.symm.trans (identifier (runtime.mp implicit))
    exact enumFunction_infix listed enumerated declared recordRendered
  · intro field listed declared
    exact ⟨field.written_mem, subset_declaredAccesses_of_field listed declared⟩
  · intro reference listed
    exact subset_declaredAccesses_of_reference listed
  · intro field listed enumerated
    exact table_mem_metaHeaders listed enumerated metaRendered
  · intro id inside sort
    exact exists_callsField read member chainRendered inside sort

end RecordContext

/-- **Accessors.** In the headers of a document that is compiled, the functions that give access to the
fields and references of a record are called by the names and types that they are declared with. -/
theorem compile_access_declared {store after : MemoryStore} {targetNamespace text : String}
    {report : Report} (compiled : compileInMemory store targetNamespace text = (.ok report, after)) :
    ∃ spec, readDocument text = .ok spec ∧ ∀ sequence ∈ spec.sequences.toList,
      sequence.kind = .random → RecordContext.AccessDeclared ⟨spec, sequence, targetNamespace⟩
        (spec.plan targetNamespace).headers := by
  obtain ⟨spec, read, complete, -⟩ := exists_complete_of_compiled compiled
  refine ⟨spec, read, fun sequence member random => ?_⟩
  obtain ⟨pairs, rendered, kept⟩ := Specification.exists_headers_of_plan
    (linked_of_readDocument read) complete member random
  exact RecordContext.accessDeclared_of_headers read member rendered kept

/-- A sequence that can be rendered without its output format can be rendered with one whose options
are constants. -/
theorem Specification.not_blocked_of_constantOptions {sequence : RecordSequence}
    (renderable : spec.isRenderable { sequence with outputFormat := none } = true)
    (constant : ∀ id ∈ sequence.outputFormat, ∀ key ∈ ["delimiter", "quoted"],
      (((spec.component id).argument? key).bind Argument.literal?).all
        (fun literal => literal.form.isPlain) = true) : ¬spec.Blocked sequence := by
  intro blocked
  apply not_blocked_of_isRenderable renderable
  cases blocked with
  | format id listed bad =>
      obtain ⟨-, key, option, literal, given, varies⟩ := bad
      have plain := constant id listed key option
      rw [given] at plain
      replace plain : literal.form.isPlain = true := plain
      cases form : literal.form with
      | plain value cast => exact absurd form (varies value cast)
      | null | parameter _ _ | expression _ =>
          rw [form] at plain
          cases plain
  | callback id inside bad => exact .callback id inside bad
  | conflict conflict => exact .conflict conflict
  | range id inside bad => exact .range id inside bad

namespace Prototype.Sample

open Markup (Element)

/-- A document with a computed enumeration field, a reference and an output format. A provider reads a
field of the record that the reference leads to. -/
def tradeRoot : Element :=
  { name := rootName
    children := [
      { name := "enum_sets"
        children := [{ name := "enum_set"
                       attributes := [("key", "e")]
                       children := [literal "path" "String" "e.csv"] }] },
      { name := "record_sequences"
        children := [
          { name := "random_sequence"
            attributes := [("key", "a")]
            children := [
              { name := "record_type"
                children := [
                  { name := "field"
                    attributes := [("name", "u"), ("type", "Enum"), ("enumref", "e"),
                      ("derived", "true")] },
                  numberField "x",
                  { name := "reference", attributes := [("name", "p"), ("type", "a")] }] },
              { name := "output_format", attributes := [("type", "csv")] },
              { name := "setter_chain"
                children := [
                  keyed "setter" "s" "field_setter" [
                    link "field" "x",
                    nested "value" "context_field_value_provider[I32]" [link "field" "a:p:x"]]] },
              { name := "cardinality_estimator"
                attributes := [("type", "const_estimator")]
                children := [literal "cardinality" "I64u" "1"] }] }] }] }

/-- The text of the document. -/
def tradeText : String :=
  String.ofList tradeRoot.print

private theorem parse_tradeText : Markup.parse tradeText = .ok tradeRoot :=
  Markup.Element.parse_print (by decide +kernel)

/-- Whether nothing keeps the headers of a sequence with constant options from being rendered. -/
def hasConstantOptions (spec : Specification .resolved) (sequence : RecordSequence) : Bool :=
  spec.isRenderable { sequence with outputFormat := none } &&
    sequence.outputFormat.all fun id => ["delimiter", "quoted"].all fun key =>
      (((spec.component id).argument? key).bind Argument.literal?).all
        fun literal => literal.form.isPlain

/-- Whether a random sequence writes its values with delimiters, has a computed enumeration field, and
reads a field through a reference. -/
def readsThrough (spec : Specification .resolved) : Bool :=
  spec.sequences.toList.any fun sequence => sequence.kind == .random &&
    RecordContext.isDelimited ⟨spec, sequence, "Shop"⟩ &&
    (sequence.fields.any fun id =>
      (spec.field id).type == .scalar .enum && (spec.field id).derived) &&
    (spec.chain sequence).any fun id => (spec.component id).kind == .contextFieldValueProvider &&
      (fieldLink? (spec.component id)).any fun link => !link.inner.isEmpty

set_option maxRecDepth 100000 in
private theorem exists_compiled_trade :
    ∃ spec report after, readDocument tradeText = .ok spec ∧
      (spec.sequences.toList.all (hasConstantOptions spec) && readsThrough spec) = true ∧
      (spec.plan "Shop").failure = none ∧
      compileInMemory {} "Shop" tradeText = (.ok report, after) := by
  refine exists_compiled_of_unblocked parse_tradeText ?_ ?_ {} "Shop"
  · cbv
  · intro spec checked _ sequence member
    obtain ⟨free, -⟩ := Bool.and_eq_true_iff.mp checked
    obtain ⟨renderable, constant⟩ := Bool.and_eq_true_iff.mp (List.all_eq_true.mp free _ member)
    refine Specification.not_blocked_of_constantOptions renderable fun id listed key option => ?_
    rw [Option.mem_def.mp listed, Option.all_some] at constant
    exact List.all_eq_true.mp constant key option

end Prototype.Sample

open Prototype.Sample in
/-- The record of the sample writes its values with delimiters, has a computed enumeration field, and
reads a field through a reference. -/
theorem trade_access_declared :
    ∃ spec report after, readDocument tradeText = .ok spec ∧
      compileInMemory {} "Shop" tradeText = (.ok report, after) ∧
      ∃ sequence ∈ spec.sequences.toList, sequence.kind = .random ∧
        RecordContext.isDelimited ⟨spec, sequence, "Shop"⟩ = true ∧
        (∃ id ∈ sequence.fields,
          (spec.field id).type = .scalar .enum ∧ (spec.field id).derived = true) ∧
        (∃ id ∈ spec.chain sequence, (spec.component id).kind = .contextFieldValueProvider ∧
          ∃ link : FieldLink, (spec.component id).argument? "field" =
            some (@Argument.fieldRef .resolved link) ∧ link.inner ≠ []) ∧
        RecordContext.AccessDeclared ⟨spec, sequence, "Shop"⟩ (spec.plan "Shop").headers := by
  obtain ⟨spec, report, after, read, checked, -, compiled⟩ := exists_compiled_trade
  obtain ⟨known, again, declared⟩ := compile_access_declared compiled
  obtain rfl := Except.ok.inj (read.symm.trans again)
  obtain ⟨sequence, member, found⟩ := List.any_eq_true.mp (Bool.and_eq_true_iff.mp checked).2
  simp only [Bool.and_eq_true, beq_iff_eq, List.any_eq_true, Option.any_eq_true,
    Bool.not_eq_eq_eq_not, Bool.not_true, List.isEmpty_eq_false_iff] at found
  obtain ⟨⟨⟨random, delimited⟩, computed⟩, id, inside, sort, link, held, through⟩ := found
  exact ⟨spec, report, after, read, compiled, sequence, member, random, delimited, computed,
    ⟨id, inside, sort, link, held_of_fieldLink? held, through⟩, declared sequence member random⟩

end Recordgen

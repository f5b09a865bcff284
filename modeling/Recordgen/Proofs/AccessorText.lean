import Recordgen.Header.Record
import Recordgen.Header.Util
import Recordgen.Proofs.NameLetters

/-! # Accessors in generated text

The record class declares functions that store, fetch or compute a value, and the traits of a record
call them. Both are read back here from the lines of the headers: `Access.declared?` reads what a line
of the class declares, and `TraitsPart.read?` what a line of the traits is about. A line is read by how
it starts and ends, so for every sort of line in the two headers there is one lemma.
-/

namespace Recordgen

open Text

variable {start divider : String}

/-- A function of a record class that gives access to a value, by its name and the type of the
value. -/
inductive Access where
  /-- Stores a value. -/
  | store (name type : String)
  /-- Gives a value that is stored. -/
  | fetch (name type : String)
  /-- Gives a value that the leaf class computes. -/
  | compute (name type : String)
  deriving DecidableEq, Repr

/-- The name of the function. -/
def Access.name : Access → String
  | store name _ | fetch name _ | compute name _ => name

/-- The two parts of a line of the given form. -/
def shape? (start divider ending text : String) : Option (String × String) :=
  (between? start ending text).bind (cut? divider)

private theorem shape?_append {first : String} {mark : Char}
    (marked : divider.toList.head? = some mark) (plain : mark ∉ first.toList)
    (second ending : String) :
    shape? start divider ending (start ++ first ++ divider ++ second ++ ending) =
      some (first, second) := by
  have inner : between? start ending (start ++ first ++ divider ++ second ++ ending) =
      some (first ++ divider ++ second) := by
    simp only [between?_eq_some_iff, String.append_assoc]
  rw [shape?, inner, Option.bind_some, cut?_append marked plain]

private theorem shape?_of_lead {ending text lead : String} (leads : ∃ rest, text = lead ++ rest)
    (differ : apart start.toList lead.toList = true) : shape? start divider ending text = none := by
  rw [shape?, between?_of_lead start lead ⟨"", String.append_empty.symm⟩ leads differ,
    Option.bind_none]

private theorem shape?_of_tail {ending text tail : String} (ends : ∃ front, text = front ++ tail)
    (differ : apart ending.toList.reverse tail.toList.reverse = true) :
    shape? start divider ending text = none := by
  rw [shape?, between?_of_tail ends differ, Option.bind_none]

namespace Step

/-- What is read from the lines among steps. -/
def readLines {α : Type} (read? : String → Option α) (steps : List Step) : List α :=
  steps.filterMap fun
    | line text => read? text
    | _ => none

section Lines

variable {α : Type} (read? : String → Option α)

@[simp]
theorem readLines_nil : readLines read? [] = [] := rfl

@[simp]
theorem readLines_append (first second : List Step) :
    readLines read? (first ++ second) = readLines read? first ++ readLines read? second :=
  List.filterMap_append

@[simp]
theorem readLines_line (text : String) (rest : List Step) :
    readLines read? (line text :: rest) = (read? text).toList ++ readLines read? rest := by
  cases found : read? text <;> simp [readLines, found]

@[simp]
theorem readLines_blank (rest : List Step) :
    readLines read? (blank :: rest) = readLines read? rest := rfl

@[simp]
theorem readLines_accessLabel (label : String) :
    readLines read? (accessLabel label) = (read? label).toList := by
  rw [accessLabel]
  exact (readLines_line read? label [indent, blank]).trans (List.append_nil _)

@[simp]
private theorem readLines_braces (body : List Step) :
    readLines read? (braces body) = readLines read? body := by
  rw [braces, List.cons_append]
  exact (readLines_append read? body _).trans (List.append_nil _)

@[simp]
theorem readLines_declarationBraces (body : List Step) :
    readLines read? (declarationBraces body) = readLines read? body := by
  rw [declarationBraces, List.cons_append]
  exact (readLines_append read? body _).trans (List.append_nil _)

@[simp]
theorem readLines_indented (body : List Step) :
    readLines read? (indented body) = readLines read? body := by
  rw [indented, List.cons_append]
  exact (readLines_append read? body _).trans (List.append_nil _)

@[simp]
theorem readLines_function (signature : String) (body : List Step) :
    readLines read? (function signature body) =
      (read? signature).toList ++ readLines read? body := by
  rw [function, readLines_line, readLines_braces]

@[simp]
theorem readLines_constructor (signature : String) (initialisers : List Step) :
    readLines read? (constructor signature initialisers) =
      (read? signature).toList ++ readLines read? initialisers := by
  simp [constructor]

/-- Nothing is read from lines that the reader does not know. -/
theorem readLines_eq_nil {steps : List Step}
    (quiet : ∀ text, line text ∈ steps → read? text = none) : readLines read? steps = [] := by
  rw [readLines, List.filterMap_eq_nil_iff]
  intro step listed
  cases step with
  | line text => exact quiet text listed
  | _ => rfl

theorem readLines_map {β : Type} {text : β → String} {values : List β}
    (quiet : ∀ value ∈ values, read? (text value) = none) :
    readLines read? (values.map fun value => line (text value)) = [] := by
  refine readLines_eq_nil read? fun found listed => ?_
  obtain ⟨value, inside, same⟩ := List.mem_map.mp listed
  exact line.inj same ▸ quiet value inside

@[simp]
theorem readLines_openNamespace (name : String) : readLines read? (openNamespace name) = [] :=
  readLines_eq_nil read? fun _ listed => by simp [openNamespace] at listed

@[simp]
theorem readLines_closeNamespace (name : String) : readLines read? (closeNamespace name) = [] :=
  readLines_eq_nil read? fun _ listed => by simp [closeNamespace] at listed

theorem readLines_flatMap {β : Type} (section? : β → List Step) (values : List β) :
    readLines read? (values.flatMap section?) =
      values.flatMap fun value => readLines read? (section? value) :=
  List.filterMap_flatMap

end Lines

end Step

namespace Access

/-- What a line of a class declares. -/
def declared? (text : String) : Option Access :=
  ((shape? "void " "(const " "& v)" text).map fun (name, type) => .store name type).or
    (((shape? "const " "& " "() const" text).map fun (type, name) => .fetch name type).or
      ((shape? "virtual " " " "() const = 0;" text).map fun (type, name) => .compute name type))

/-- The starts and the endings of declarations. -/
def declarationEnds : List (String × String) :=
  [("void ", "& v)"), ("const ", "() const"), ("virtual ", "() const = 0;")]

/-- Whether no declaration starts like a text. -/
def startsApart (lead : String) : Bool :=
  declarationEnds.all fun ends => apart ends.1.toList lead.toList

/-- Whether no declaration ends like a text. -/
def endsApart (tail : String) : Bool :=
  declarationEnds.all fun ends => apart ends.2.toList.reverse tail.toList.reverse

/-- A line that starts like no declaration declares nothing. -/
theorem declared?_of_lead {text : String} (lead : String) (leads : ∃ rest, text = lead ++ rest)
    (differ : startsApart lead = true) : declared? text = none := by
  simp only [startsApart, declarationEnds, List.all_cons, List.all_nil, Bool.and_true,
    Bool.and_eq_true] at differ
  rw [declared?, shape?_of_lead leads differ.1, shape?_of_lead leads differ.2.1,
    shape?_of_lead leads differ.2.2]
  rfl

/-- A line that ends like no declaration declares nothing. -/
theorem declared?_of_tail {text : String} (tail : String) (ends : ∃ front, text = front ++ tail)
    (differ : endsApart tail = true) : declared? text = none := by
  simp only [endsApart, declarationEnds, List.all_cons, List.all_nil, Bool.and_true,
    Bool.and_eq_true] at differ
  rw [declared?, shape?_of_tail ends differ.1, shape?_of_tail ends differ.2.1,
    shape?_of_tail ends differ.2.2]
  rfl

variable {name type : String}

private theorem declared?_setter (plain : '(' ∉ name.toList) :
    declared? s!"void {name}(const {type}& v)" = some (.store name type) := by
  have read : shape? "void " "(const " "& v)" s!"void {name}(const {type}& v)" = some (name, type) :=
    shape?_append (by decide) plain type "& v)"
  rw [declared?, read]
  rfl

private theorem declared?_getter (plain : '&' ∉ type.toList) :
    declared? s!"const {type}& {name}() const" = some (.fetch name type) := by
  have read : shape? "const " "& " "() const" s!"const {type}& {name}() const" = some (type, name) :=
    shape?_append (by decide) plain name "() const"
  have other : shape? "void " "(const " "& v)" s!"const {type}& {name}() const" = none :=
    shape?_of_tail ⟨_, rfl⟩ (by decide)
  rw [declared?, other, read]
  rfl

private theorem declared?_derived (plain : ' ' ∉ type.toList) :
    declared? s!"virtual {type} {name}() const = 0;" = some (.compute name type) := by
  have read : shape? "virtual " " " "() const = 0;" s!"virtual {type} {name}() const = 0;" =
      some (type, name) :=
    shape?_append (by decide) plain name "() const = 0;"
  have store : shape? "void " "(const " "& v)" s!"virtual {type} {name}() const = 0;" = none :=
    shape?_of_tail ⟨_, rfl⟩ (by decide)
  have fetch : shape? "const " "& " "() const" s!"virtual {type} {name}() const = 0;" = none :=
    shape?_of_tail ⟨_, rfl⟩ (by decide)
  rw [declared?, store, fetch, read]
  rfl

/-- The text of an enumeration value is fetched by a function of its own. -/
theorem declared?_enumValue :
    declared? s!"const String& {name}EnumValue() const" =
      some (.fetch (name ++ "EnumValue") "String") := by
  have text : "const String& " ++ name ++ "EnumValue() const" =
      "const " ++ "String" ++ "& " ++ (name ++ "EnumValue") ++ "() const" := by
    apply String.toList_inj.mp
    simp
  have plain : '&' ∉ "String".toList := by simp
  exact (congrArg declared? text).trans (declared?_getter plain)

end Access

/-- A line in the traits of a record: what the traits of a member begin with, the head of a function
for a value of the given type, or the call of a function of the record class. -/
inductive TraitsPart where
  /-- The head of the traits of the member with the given constant. -/
  | member (constant : String)
  /-- The type of the member. -/
  | holds (type : String)
  /-- A function that takes a value. -/
  | takes (type : String)
  /-- A function that gives a stored value. -/
  | gives (type : String)
  /-- A function that gives a computed value. -/
  | computes (type : String)
  /-- A call with a value. -/
  | sets (name : String)
  /-- A call that gives a value. -/
  | gets (name : String)
  deriving DecidableEq, Repr

/-- The lines in which traits offer an access. -/
def Access.parts : Access → List TraitsPart
  | store name type => [.takes type, .sets name]
  | fetch name type => [.gives type, .gets name]
  | compute name type => [.computes type, .gets name]

namespace TraitsPart

/-- The lines in the traits of a member. -/
def ofMember (constant type : String) (accesses : List Access) : List TraitsPart :=
  .member constant :: .holds type :: accesses.flatMap Access.parts

variable (record : String) {text : String}

/-- The head of the traits of a member, up to its constant. -/
def memberHead : String :=
  s!"struct RecordFieldTraits<{record}, RecordTraits<{record}>::"

/-- The head of a function that takes a value, up to its type. -/
def setterHead : String :=
  s!"static inline void set(AutoPtr<{record}>& record, const "

/-- The head of a function that gives a value, behind its type. -/
def getterHead : String :=
  s!" get(const AutoPtr<{record}>& record)"

private theorem memberHead_eq :
    memberHead record = "struct RecordFieldTraits<" ++ (record ++ ", RecordTraits<" ++ record ++
      ">::") := by
  change "struct RecordFieldTraits<" ++ record ++ ", RecordTraits<" ++ record ++ ">::" = _
  simp only [String.append_assoc]

private theorem setterHead_eq :
    setterHead record = "static inline " ++ ("void " ++ ("set(AutoPtr<" ++ record ++
      ">& record, const ")) := by
  have start : "static inline void set(AutoPtr<" = "static inline " ++ ("void " ++ "set(AutoPtr<") := by
    decide
  change "static inline void set(AutoPtr<" ++ record ++ ">& record, const " = _
  rw [start]
  simp only [String.append_assoc]

private theorem getterHead_eq :
    getterHead record = " get(const AutoPtr<" ++ record ++ ">& record)" := rfl

/-- Reads a line of a function in the traits of a record class. -/
def readFunction? (text : String) : Option TraitsPart :=
  ((between? (setterHead record) "& value)" text).map takes).or
    (((between? "static inline const " ("&" ++ getterHead record) text).map gives).or
      (((between? "static inline " (getterHead record) text).map computes).or
        (((between? "record->" "(value);" text).map sets).or
          ((between? "return record->" "();" text).map gets))))

/-- Reads a line in the traits of a record class. -/
def read? (text : String) : Option TraitsPart :=
  (readFunction? record text).or
    (((between? (memberHead record) ">" text).map member).or
      ((between? "typedef " " FieldType;" text).map holds))

private theorem read?_of_readFunction? {part : TraitsPart}
    (found : readFunction? record text = some part) :
    read? record text = some part := by
  rw [read?, found, Option.some_or]

/-- A line that starts like no function of the traits is no head of one. -/
theorem heads_of_lead (lead : String) (leads : ∃ rest, text = lead ++ rest)
    (differ : apart "static inline ".toList lead.toList = true) :
    between? (setterHead record) "& value)" text = none ∧
      between? "static inline const " ("&" ++ getterHead record) text = none ∧
      between? "static inline " (getterHead record) text = none :=
  ⟨between?_of_lead "static inline " lead ⟨_, setterHead_eq record⟩ leads differ,
    between?_of_lead "static inline " lead ⟨"const ", by decide⟩ leads differ,
    between?_of_lead "static inline " lead ⟨"", by decide⟩ leads differ⟩

/-- A line that starts like no function of the traits and no call belongs to no function. -/
theorem readFunction?_of_lead (lead : String) (leads : ∃ rest, text = lead ++ rest)
    (differ : ["static inline ", "record->", "return record->"].all
      (fun start => apart start.toList lead.toList) = true) : readFunction? record text = none := by
  simp only [List.all_cons, List.all_nil, Bool.and_true, Bool.and_eq_true] at differ
  obtain ⟨takes, gives, computes⟩ := heads_of_lead record lead leads differ.1
  rw [readFunction?, takes, gives, computes,
    between?_of_lead "record->" lead ⟨"", by decide⟩ leads differ.2.1,
    between?_of_lead "return record->" lead ⟨"", by decide⟩ leads differ.2.2]
  rfl

/-- The starts of the lines that are read. -/
def starts : List String :=
  ["struct RecordFieldTraits<", "typedef ", "static inline ", "record->", "return record->"]

/-- A line with another start is not read. -/
theorem read?_of_lead (lead : String) (leads : ∃ rest, text = lead ++ rest)
    (differ : starts.all (fun start => apart start.toList lead.toList) = true) :
    read? record text = none := by
  rw [starts, List.all_cons, List.all_cons, Bool.and_eq_true, Bool.and_eq_true] at differ
  rw [read?, readFunction?_of_lead record lead leads differ.2.2,
    between?_of_lead _ lead ⟨_, memberHead_eq record⟩ leads differ.1,
    between?_of_lead "typedef " lead ⟨"", by decide⟩ leads differ.2.1]
  rfl

private theorem read?_member (constant : String) :
    read? record s!"struct RecordFieldTraits<{record}, RecordTraits<{record}>::{constant}>" =
      some (.member constant) := by
  have leads : ∃ rest, s!"struct RecordFieldTraits<{record}, RecordTraits<{record}>::{constant}>" =
      "struct RecordFieldTraits<" ++ rest :=
    ⟨record ++ ", RecordTraits<" ++ record ++ ">::" ++ constant ++ ">", by
      simp only [String.append_assoc]; rfl⟩
  have found : between? (memberHead record) ">"
      s!"struct RecordFieldTraits<{record}, RecordTraits<{record}>::{constant}>" = some constant :=
    between?_eq_some_iff.mpr rfl
  rw [read?, readFunction?_of_lead record _ leads (by decide), found]
  rfl

section Typedef

variable (type : String)

private theorem leads_typedef (ending : String) :
    readFunction? record ("typedef " ++ type ++ ending) = none ∧
      between? (memberHead record) ">" ("typedef " ++ type ++ ending) = none :=
  have leads : ∃ rest, "typedef " ++ type ++ ending = "typedef " ++ rest :=
    ⟨type ++ ending, String.append_assoc⟩
  ⟨readFunction?_of_lead record _ leads (by decide),
    between?_of_lead _ _ ⟨_, memberHead_eq record⟩ leads (by decide)⟩

private theorem read?_holds : read? record s!"typedef {type} FieldType;" = some (.holds type) := by
  obtain ⟨function, member⟩ := leads_typedef record type " FieldType;"
  have found : between? "typedef " " FieldType;" ("typedef " ++ type ++ " FieldType;") = some type :=
    between?_eq_some_iff.mpr rfl
  change read? record ("typedef " ++ type ++ " FieldType;") = _
  rw [read?, function, member, found]
  rfl

/-- The other names of types are not those of members. -/
theorem read?_typedef {ending : String}
    (differ : apart " FieldType;".toList.reverse ending.toList.reverse = true) :
    read? record ("typedef " ++ type ++ ending) = none := by
  obtain ⟨function, member⟩ := leads_typedef record type ending
  rw [read?, function, member, between?_of_tail ⟨_, rfl⟩ differ]
  rfl

end Typedef

private theorem readFunction?_setter (type : String) :
    readFunction? record s!"static inline void set(AutoPtr<{record}>& record, const {type}& value)" =
      some (.takes type) := by
  have read : between? (setterHead record) "& value)"
      s!"static inline void set(AutoPtr<{record}>& record, const {type}& value)" = some type :=
    between?_eq_some_iff.mpr rfl
  rw [readFunction?, read]
  rfl

private theorem readFunction?_getter {type result : String} (form : result = s!"const {type}&") :
    readFunction? record s!"static inline {result} get(const AutoPtr<{record}>& record)" =
      some (.gives type) := by
  subst form
  have text : "static inline " ++ ("const " ++ type ++ "&") ++ " get(const AutoPtr<" ++ record ++
      ">& record)" = "static inline const " ++ type ++ ("&" ++ getterHead record) := by
    have start : "static inline const " = "static inline " ++ "const " := by decide
    rw [start, getterHead_eq]
    simp only [String.append_assoc]
  have takes : between? (setterHead record) "& value)"
      ("static inline const " ++ type ++ ("&" ++ getterHead record)) = none :=
    between?_of_lead ("static inline " ++ "void ") "static inline const "
      ⟨_, (setterHead_eq record).trans String.append_assoc.symm⟩ ⟨_, String.append_assoc⟩
      (by decide)
  have gives : between? "static inline const " ("&" ++ getterHead record)
      ("static inline const " ++ type ++ ("&" ++ getterHead record)) = some type :=
    between?_eq_some_iff.mpr rfl
  refine (congrArg (readFunction? record) text).trans ?_
  rw [readFunction?, takes, gives]
  rfl

/-- A computed value is told from a stored one by its type, which no declaration starts like. -/
theorem readFunction?_derivedGetter {type : String}
    (lead : ∃ lead, (∃ rest, type = lead ++ rest) ∧ Access.startsApart lead = true) :
    readFunction? record s!"static inline {type} get(const AutoPtr<{record}>& record)" =
      some (.computes type) := by
  have text : "static inline " ++ type ++ " get(const AutoPtr<" ++ record ++ ">& record)" =
      "static inline " ++ (type ++ getterHead record) := by
    rw [getterHead_eq]
    simp only [String.append_assoc]
  obtain ⟨lead, ⟨rest, same⟩, differ⟩ := lead
  simp only [Access.startsApart, Access.declarationEnds, List.all_cons, List.all_nil,
    Bool.and_true, Bool.and_eq_true] at differ
  have leads : ∃ more, type ++ getterHead record = lead ++ more :=
    ⟨rest ++ getterHead record, by rw [same, String.append_assoc]⟩
  have takes : between? (setterHead record) "& value)"
      ("static inline " ++ (type ++ getterHead record)) = none := by
    rw [setterHead_eq, between?_append_append]
    exact between?_of_lead "void " lead ⟨_, rfl⟩ leads differ.1
  have gives : between? "static inline const " ("&" ++ getterHead record)
      ("static inline " ++ (type ++ getterHead record)) = none := by
    have start : "static inline const " = "static inline " ++ "const " := by decide
    rw [start, between?_append_append]
    exact between?_of_lead "const " lead ⟨"", by decide⟩ leads differ.2.1
  have computes : between? "static inline " (getterHead record)
      ("static inline " ++ (type ++ getterHead record)) = some type :=
    between?_eq_some_iff.mpr String.append_assoc.symm
  refine (congrArg (readFunction? record) text).trans ?_
  rw [readFunction?, takes, gives, computes]
  rfl

private theorem readFunction?_setterCall (name : String) :
    readFunction? record s!"record->{name}(value);" = some (.sets name) := by
  have leads : ∃ rest, s!"record->{name}(value);" = "record->" ++ rest :=
    ⟨name ++ "(value);", String.append_assoc⟩
  obtain ⟨takes, gives, computes⟩ := heads_of_lead record "record->" leads (by decide)
  have sets : between? "record->" "(value);" s!"record->{name}(value);" = some name :=
    between?_eq_some_iff.mpr rfl
  rw [readFunction?, takes, gives, computes, sets]
  rfl

private theorem readFunction?_getterCall (name : String) :
    readFunction? record s!"return record->{name}();" = some (.gets name) := by
  have leads : ∃ rest, s!"return record->{name}();" = "return record->" ++ rest :=
    ⟨name ++ "();", String.append_assoc⟩
  obtain ⟨takes, gives, computes⟩ := heads_of_lead record "return record->" leads (by decide)
  have sets : between? "record->" "(value);" s!"return record->{name}();" = none :=
    between?_of_lead "record->" "return record->" ⟨"", by decide⟩ leads (by decide)
  have gets : between? "return record->" "();" s!"return record->{name}();" = some name :=
    between?_eq_some_iff.mpr rfl
  rw [readFunction?, takes, gives, computes, sets, gets]
  rfl

/-- A constant holds neither a space nor a hyphen, so it begins no function and no call. -/
theorem read?_constant (name : String) : read? record s!"{Naming.constantName name}," = none := by
  have plain : ∀ mark, mark = ' ' ∨ mark = '-' →
      mark ∉ (Naming.constantName name ++ ",").toList := by
    intro mark sort inside
    rw [String.toList_append, List.mem_append] at inside
    rcases inside with inside | inside
    · rcases Naming.mem_constantName inside with letter | rfl
      · rcases sort with rfl | rfl <;> cases letter
      · rcases sort with same | same <;> cases same
    · rcases sort with rfl | rfl <;> simp at inside
  have unread : ∀ (start ending : String) (mark : Char), mark = ' ' ∨ mark = '-' →
      mark ∈ start.toList → between? start ending (Naming.constantName name ++ ",") = none := by
    intro start ending mark sort inside
    refine Option.eq_none_iff_forall_ne_some.mpr fun middle found => plain mark sort ?_
    rw [between?_eq_some_iff.mp found]
    simp [inside]
  have spaced : ' ' ∈ (setterHead record).toList := by
    rw [setterHead_eq]
    simp
  have headed : ' ' ∈ (memberHead record).toList := by
    rw [memberHead_eq]
    simp
  change read? record (Naming.constantName name ++ ",") = none
  rw [read?, readFunction?, unread _ _ ' ' (.inl rfl) spaced, unread _ _ ' ' (.inl rfl) (by simp),
    unread _ _ ' ' (.inl rfl) (by simp), unread _ _ '-' (.inr rfl) (by simp),
    unread _ _ '-' (.inr rfl) (by simp), unread _ _ ' ' (.inl rfl) headed,
    unread _ _ ' ' (.inl rfl) (by simp)]
  rfl

end TraitsPart

namespace RecordMember

/-- What is needed of a member so that its declarations can be read back. -/
structure Legible (member : RecordMember) : Prop where
  accessor : '(' ∉ member.accessor.toList
  type : '&' ∉ member.type.toList ∧ ' ' ∉ member.type.toList
  /-- No declaration starts like the type. -/
  lead : ∃ lead, (∃ rest, member.type = lead ++ rest) ∧ Access.startsApart lead = true

/-- The functions that give access to a member. -/
def accesses (member : RecordMember) : List Access :=
  if member.isDerived then [.compute member.accessor member.type]
  else [.store member.accessor member.type, .fetch member.accessor member.type]

/-- The function that gives the text of an enumeration value. -/
def enumTexts (member : RecordMember) : List Access :=
  if member.isEnum then [.fetch (member.accessor ++ "EnumValue") "String"] else []

variable {member : RecordMember}

/-- The declarations of a member are read back. -/
theorem readLines_declaration (legible : member.Legible) :
    Step.readLines Access.declared? member.declaration = member.accesses ++ member.enumTexts := by
  have stored : Access.declared? s!"{member.slot} = v;" = none :=
    Access.declared?_of_tail " = v;" ⟨_, rfl⟩ (by decide)
  have given : Access.declared? s!"return {member.slot};" = none :=
    Access.declared?_of_lead "return " ⟨member.slot ++ ";", String.append_assoc⟩ (by decide)
  have shown : Access.declared? s!"return _meta.{member.accessor}[{member.enumIndex}];" = none :=
    Access.declared?_of_lead "return _meta."
      ⟨member.accessor ++ "[" ++ member.enumIndex ++ "];", by simp only [String.append_assoc]; rfl⟩
      (by decide)
  have access : Step.readLines Access.declared? member.access = member.accesses := by
    unfold access accesses
    split
    · simp only [Step.readLines_line, Access.declared?_derived legible.type.2, Step.readLines_nil,
        Option.toList_some, List.append_nil]
    · simp only [accessorPair, Step.readLines_append, Step.readLines_function, Step.readLines_line,
        Step.readLines_blank, Step.readLines_nil, Access.declared?_setter legible.accessor,
        Access.declared?_getter legible.type.1, stored, given]
      rfl
  have texts : Step.readLines Access.declared? member.enumAccess = member.enumTexts := by
    unfold enumAccess enumTexts
    split
    · simp only [Step.readLines_function, Step.readLines_line, Step.readLines_blank,
        Step.readLines_nil, Access.declared?_enumValue, shown]
      rfl
    · rfl
  rw [declaration, Step.readLines_append, Step.readLines_blank, access, texts]

/-- The variable of a member is no declaration of a function. -/
theorem declared?_variable (legible : member.Legible) :
    Access.declared? s!"{member.type} {member.slot};" = none := by
  obtain ⟨lead, ⟨rest, same⟩, differ⟩ := legible.lead
  refine Access.declared?_of_lead lead ⟨rest ++ " " ++ member.slot ++ ";", ?_⟩ differ
  change member.type ++ " " ++ member.slot ++ ";" = _
  simp only [same, String.append_assoc]

/-- The traits of a member are read back. -/
theorem readLines_traits (record : String)
    (derived : member.isDerived = true →
      ∃ lead, (∃ rest, member.type = lead ++ rest) ∧ Access.startsApart lead = true) :
    Step.readLines (TraitsPart.read? record) (member.traits record) =
      TraitsPart.ofMember member.constant member.type member.accesses := by
  have template : TraitsPart.read? record "template<>" = none :=
    TraitsPart.read?_of_lead record "template<>" ⟨"", by decide⟩ (by decide)
  have gets := TraitsPart.read?_of_readFunction? record
    (TraitsPart.readFunction?_getterCall record member.accessor)
  rw [traits, TraitsPart.ofMember]
  simp only [Step.readLines_append, Step.readLines_declarationBraces, Step.readLines_line,
    Step.readLines_blank, Step.readLines_nil, template, TraitsPart.read?_member,
    TraitsPart.read?_holds]
  unfold traitsSetter traitsGetter accesses
  by_cases computed : member.isDerived = true
  · have computes := TraitsPart.read?_of_readFunction? record
      (TraitsPart.readFunction?_derivedGetter record (derived computed))
    simp only [computed, if_true, Step.readLines_function, Step.readLines_line,
      Step.readLines_blank, Step.readLines_nil, gets, computes]
    rfl
  · have gives := TraitsPart.read?_of_readFunction? record
      (TraitsPart.readFunction?_getter record (Eq.refl s!"const {member.type}&"))
    have takes := TraitsPart.read?_of_readFunction? record
      (TraitsPart.readFunction?_setter record member.type)
    have sets := TraitsPart.read?_of_readFunction? record
      (TraitsPart.readFunction?_setterCall record member.accessor)
    simp only [computed, Bool.false_eq_true, if_false, Step.readLines_function,
      Step.readLines_line, Step.readLines_blank, Step.readLines_nil, gets, gives, takes, sets]
    rfl

end RecordMember

end Recordgen

import Recordgen.Proofs.Catalogue
import Recordgen.Proofs.DecimalText
import Recordgen.Proofs.TokenScanning

/-! # Type strings

The type strings of a kind are written down as a grammar: the name, and in brackets one text for
each parameter (`CatalogueEntry.typeString`). A text has the shape of its parameter or not
(`TypeParameter.Shape`), and of the shapes some stand for a value (`TypeParameter.Denotes`). What
becomes of a type string is told by `Category.Dispatches`. The catalogue is unambiguous, as no text
matches two kinds (`Kind.matches_unique`), so that dispatch is the same relation in whichever order
the kinds are tried (`Category.dispatch_follows_grammar`).
-/

namespace Recordgen

open Outcome

variable {arguments : List (String × AttributeValue)}

namespace TypeParameter

variable {param : TypeParameter} {text : String} {value : AttributeValue}

/-- The texts with the shape of a parameter: the name of a literal type, or a digit from one to nine
and further digits of any script. -/
inductive Shape : TypeParameter → String → Prop
  | literal (name : String) (type : LiteralType) : Shape (.literal name) type.name
  | size (name : String) {c : Char} {digits : List Char} (isDigit : c.isDigit = true)
      (notZero : c ≠ '0') (all : ∀ d ∈ digits, Text.isDigit d = true) :
      Shape (.size name) (String.ofList (c :: digits))

/-- The texts that stand for a value of a parameter: the name of a literal type, or the decimal text
of a positive number of 63 bits. -/
inductive Denotes : TypeParameter → String → AttributeValue → Prop
  | literal (name : String) (type : LiteralType) :
      Denotes (.literal name) type.name (.text type.name)
  | size (name : String) {number : Nat} (positive : 0 < number) (bounded : number < 2 ^ 63) :
      Denotes (.size name) number.repr (.integer number)

/-- Texts with values that they stand for, one for each parameter. -/
abbrev AllDenote (params : List TypeParameter) (arguments : List (String × AttributeValue)) :
    Prop :=
  List.Forall₂ (fun param argument => param.Denotes argument.1 argument.2) params arguments

private theorem admits_iff : param.admits text.toList = true ↔ param.Shape text := by
  cases param with
  | literal name =>
      rw [admits, String.ofList_toList, Option.isSome_iff_exists]
      constructor
      · rintro ⟨type, known⟩
        rw [LiteralType.ofName?_eq_some_iff.mp known]
        exact .literal name type
      · rintro ⟨⟩
        exact ⟨_, LiteralType.ofName?_name _⟩
  | size name =>
      constructor
      · intro admitted
        rw [← String.ofList_toList (s := text)]
        rw [admits] at admitted
        cases chars : text.toList with
        | nil =>
            rw [chars] at admitted
            cases admitted
        | cons c digits =>
            simp only [chars, isSizeText, Bool.and_eq_true, decide_eq_true_eq,
              List.all_eq_true] at admitted
            exact .size name admitted.1.1 admitted.1.2 admitted.2
      · rintro ⟨⟩
        rename_i c digits isDigit notZero all
        simp only [admits, String.toList_ofList, isSizeText, Bool.and_eq_true, decide_eq_true_eq,
          List.all_eq_true]
        exact ⟨⟨isDigit, notZero⟩, all⟩

private theorem value_size_eq_ok_iff {name typeText : String} {text : List Char} :
    (size name).value typeText text = .ok value ↔
      ∃ number, Text.readBounded? Text.maxSigned text = some number ∧ value = .integer number := by
  rw [TypeParameter.value]
  cases Text.readBounded? Text.maxSigned text <;> simp [eq_comm]

/-- What a parameter stands for is the value that is kept of it. -/
theorem value_eq_ok_iff (shape : param.Shape text) (typeText : String) :
    param.value typeText text.toList = .ok value ↔ param.Denotes text value := by
  cases shape with
  | literal name type =>
      rw [TypeParameter.value, String.ofList_toList, Except.ok.injEq]
      constructor
      · rintro rfl
        exact .literal name type
      · intro denotes
        generalize type.name = text at denotes
        cases denotes
        rfl
  | @size name c digits isDigit notZero all =>
      rw [value_size_eq_ok_iff, String.toList_ofList]
      simp only [Text.readBounded?_eq_some_iff isDigit notZero]
      constructor
      · rintro ⟨number, ⟨⟨text_eq, positive⟩, bounded⟩, rfl⟩
        rw [text_eq]
        exact .size name positive (Nat.lt_succ_of_le bounded)
      · intro denotes
        generalize String.ofList (c :: digits) = text at denotes
        cases denotes with
        | size _ positive bounded => exact ⟨_, ⟨⟨rfl, positive⟩, Nat.le_of_lt_succ bounded⟩, rfl⟩

/-- A text denotes a value only if it has the shape of the parameter. -/
theorem Denotes.shape (denotes : param.Denotes text value) : param.Shape text := by
  cases denotes with
  | literal name type => exact .literal name type
  | @size name number positive bounded =>
      obtain ⟨c, digits, chars⟩ := List.exists_cons_of_ne_nil
        (Nat.toDigits_ne_nil : Nat.toDigits 10 number ≠ [])
      have all : ∀ d ∈ c :: digits, d.isDigit = true := fun d inside =>
        Nat.isDigit_of_mem_toDigits (by decide) (by decide) (chars ▸ inside)
      have notZero : c ≠ '0' := by
        have first := Text.head?_toDigits positive
        rw [chars, List.head?_cons] at first
        exact fun same => first (congrArg some same)
      rw [Nat.repr_eq_ofList_toDigits, chars]
      exact .size name (all c List.mem_cons_self) notZero fun d inside =>
        Text.isDigit_of_ascii (all d (List.mem_cons_of_mem c inside))

/-- Only a size can fail to stand for a value. -/
theorem exists_name_of_not_denotes (shape : param.Shape text)
    (refused : ∀ value, ¬ param.Denotes text value) : ∃ name, param = size name := by
  cases shape with
  | literal name type => exact absurd (.literal name type) (refused _)
  | size name => exact ⟨name, rfl⟩

private theorem value_of_not_denotes (shape : param.Shape text)
    (refused : ∀ value, ¬ param.Denotes text value) (typeText : String) :
    param.value typeText text.toList = .error (.malformed (.sizeOutOfRange text typeText)) := by
  obtain ⟨name, rfl⟩ := exists_name_of_not_denotes shape refused
  cases read : Text.readBounded? Text.maxSigned text.toList with
  | none => rw [TypeParameter.value, read, String.ofList_toList]
  | some number =>
      have kept : (size name).value typeText text.toList = .ok (.integer number) :=
        value_size_eq_ok_iff.mpr ⟨number, read, rfl⟩
      exact absurd ((value_eq_ok_iff shape typeText).mp kept) (refused _)

private theorem Shape.semicolon_notMem (shape : param.Shape text) : ';' ∉ text.toList := by
  cases shape with
  | literal name type => cases type <;> decide
  | size name isDigit notZero all =>
      rw [String.toList_ofList, List.mem_cons, not_or]
      constructor
      · rintro rfl
        cases isDigit
      · intro inside
        have digit := all _ inside
        revert digit
        decide +kernel

/-- Arguments that have the shape of their parameters all stand for values, or one does not. -/
theorem denoted_or_refused {params : List TypeParameter} {arguments : List String}
    (shaped : List.Forall₂ Shape params arguments) :
    (∃ valued : List (String × AttributeValue), valued.map Prod.fst = arguments ∧
      AllDenote params valued) ∨
    ∃ param argument, (param, argument) ∈ params.zip arguments ∧
      ∀ value, ¬ param.Denotes argument value := by
  induction shaped with
  | nil => exact .inl ⟨[], rfl, .nil⟩
  | @cons param argument params arguments _ _ ih =>
      by_cases here : ∃ value, param.Denotes argument value
      · obtain ⟨value, denotes⟩ := here
        rcases ih with ⟨valued, rfl, denoted⟩ | ⟨other, text, paired, refused⟩
        · exact .inl ⟨(argument, value) :: valued, rfl, .cons denotes denoted⟩
        · exact .inr ⟨other, text, List.mem_cons_of_mem _ paired, refused⟩
      · exact .inr ⟨param, argument, List.mem_cons_self, not_exists.mp here⟩

end TypeParameter

/-! The type strings of a kind. -/

namespace CatalogueEntry

variable {entry : CatalogueEntry} {params : List TypeParameter} {arguments : List String}

/-- The type string with the given texts for the parameters. -/
def typeString (entry : CatalogueEntry) (arguments : List String) : String :=
  if entry.params = [] then entry.name
  else entry.name ++ "[" ++ ";".intercalate arguments ++ "]"

/-- A text is a type string whose arguments have the shape of the parameters. -/
structure Matches (entry : CatalogueEntry) (text : String) (arguments : List String) : Prop where
  shaped : List.Forall₂ TypeParameter.Shape entry.params arguments
  text_eq : text = entry.typeString arguments

private theorem typeString_of_nil (none : entry.params = []) (arguments : List String) :
    entry.typeString arguments = entry.name :=
  if_pos none

private theorem toList_typeString_of_ne_nil (filled : entry.params ≠ []) (arguments : List String) :
    (entry.typeString arguments).toList = entry.name.toList ++
      '[' :: ([';'].intercalate (arguments.map String.toList) ++ [']']) := by
  rw [typeString, if_neg filled]
  simp [String.toList_intercalate]

private theorem forall₂_shape_iff :
    List.Forall₂ TypeParameter.Shape params arguments ↔
      (arguments.map String.toList).length = params.length ∧
        (params.zip (arguments.map String.toList)).all fun (param, part) => param.admits part := by
  have admitted : List.Forall₂ TypeParameter.Shape params arguments ↔
      List.Forall₂ (fun param part => param.admits part = true) params
        (arguments.map String.toList) := by
    simp only [List.forall₂_map_right_iff, TypeParameter.admits_iff]
  rw [admitted, List.forall₂_iff_zip, eq_comm, List.all_eq_true]
  simp only [Prod.forall]

private theorem admittedParts?_eq_some_iff {inside : List Char} (filled : params ≠ []) :
    admittedParts? params inside = some (arguments.map String.toList) ↔
      List.Forall₂ TypeParameter.Shape params arguments ∧
        inside = [';'].intercalate (arguments.map String.toList) := by
  rw [admittedParts?, Text.splitAtChar_eq_splitOn]
  simp only [Option.ite_none_right_eq_some, Option.some.injEq]
  constructor
  · rintro ⟨checked, parts⟩
    rw [parts] at checked
    exact ⟨forall₂_shape_iff.mpr checked, by rw [← parts, List.intercalate_splitOn]⟩
  · rintro ⟨shaped, rfl⟩
    have uncut : ∀ part ∈ arguments.map String.toList, ';' ∉ part := by
      simp only [List.forall_mem_map]
      intro argument member
      obtain ⟨param, -, shape⟩ := exists_left_of_mem shaped member
      exact shape.semicolon_notMem
    have some : arguments.map String.toList ≠ [] := by
      rintro empty
      rw [List.map_eq_nil_iff.mp empty, List.forall₂_nil_right_iff] at shaped
      exact filled shaped
    rw [List.splitOn_intercalate _ uncut some]
    exact ⟨forall₂_shape_iff.mp shaped, rfl⟩

private theorem captures?_eq_some_iff {text : String} :
    entry.captures? text.toList = some (arguments.map String.toList) ↔
      entry.Matches text arguments := by
  rw [captures?, Option.bind_eq_some_iff]
  simp only [Text.afterStart?_eq_some_iff]
  constructor
  · rintro ⟨rest, begins, captured⟩
    split at captured
    · rename_i none
      have empty : arguments = [] := by simpa using captured
      rw [List.append_nil, String.toList_inj] at begins
      exact ⟨by rw [none, empty]; exact .nil, by rw [begins, typeString_of_nil none]⟩
    · rename_i param params rest found
      obtain ⟨inside, ends, captured⟩ := Option.bind_eq_some_iff.mp captured
      rw [Text.beforeEnding?_eq_some_iff] at ends
      obtain ⟨shaped, rfl⟩ := (admittedParts?_eq_some_iff (List.cons_ne_nil _ _)).mp captured
      refine ⟨found ▸ shaped, String.toList_inj.mp ?_⟩
      rw [toList_typeString_of_ne_nil (by simp [found]), begins, ends]
    · cases captured
  · rintro ⟨shaped, rfl⟩
    cases found : entry.params with
    | nil =>
        rw [found, List.forall₂_nil_left_iff] at shaped
        subst shaped
        exact ⟨[], by rw [typeString_of_nil found, List.append_nil], rfl⟩
    | cons param params =>
        refine ⟨_, toList_typeString_of_ne_nil (by simp [found]) _, ?_⟩
        refine Option.bind_eq_some_iff.mpr ⟨_, Text.beforeEnding?_eq_some_iff.mpr rfl, ?_⟩
        exact (admittedParts?_eq_some_iff (List.cons_ne_nil _ _)).mpr ⟨found ▸ shaped, rfl⟩

private theorem matches_of_captures? {text : String} {parts : List (List Char)}
    (captured : entry.captures? text.toList = some parts) :
    entry.Matches text (parts.map String.ofList) := by
  rw [← captures?_eq_some_iff, captured]
  simp

private theorem matches_of_allDenote {arguments : List (String × AttributeValue)}
    (denoted : TypeParameter.AllDenote entry.params arguments) :
    entry.Matches (entry.typeString (arguments.map Prod.fst)) (arguments.map Prod.fst) :=
  ⟨List.forall₂_map_right_iff.mpr (denoted.imp fun _ _ denotes => denotes.shape), rfl⟩

private theorem takeWhile_typeString {entry : CatalogueEntry} (plain : '[' ∉ entry.name.toList)
    (arguments : List String) :
    (entry.typeString arguments).toList.takeWhile (· ≠ '[') = entry.name.toList := by
  have inName : ∀ c ∈ entry.name.toList, decide (c ≠ '[') = true := fun c inside =>
    decide_eq_true fun same => plain (same ▸ inside)
  by_cases none : entry.params = []
  · rw [typeString_of_nil none, List.takeWhile_eq_self_iff.mpr inName]
  · rw [toList_typeString_of_ne_nil none, List.takeWhile_append_of_pos inName,
      List.takeWhile_cons_of_neg (by simp), List.append_nil]

end CatalogueEntry

namespace Kind

/-- No two kinds have the same name. -/
theorem name_injective : Function.Injective name := by
  intro first second same
  have distinct : (all.map name).Nodup := by decide
  exact List.inj_on_of_nodup_map distinct (mem_all first) (mem_all second) same

private theorem bracket_notMem_name (kind : Kind) : '[' ∉ kind.name.toList := by
  cases kind <;> decide

/-- No text matches two kinds, or one kind in two ways. -/
theorem matches_unique {first second : Kind} {text : String} {arguments others : List String}
    (left : first.entry.Matches text arguments) (right : second.entry.Matches text others) :
    first = second ∧ arguments = others := by
  have names : first.name.toList = second.name.toList := by
    rw [name, name, ← CatalogueEntry.takeWhile_typeString first.bracket_notMem_name arguments,
      ← CatalogueEntry.takeWhile_typeString second.bracket_notMem_name others,
      ← left.text_eq, ← right.text_eq]
  obtain rfl := name_injective (String.toList_inj.mp names)
  have captured := CatalogueEntry.captures?_eq_some_iff.mpr left
  rw [CatalogueEntry.captures?_eq_some_iff.mpr right, Option.some.injEq] at captured
  have injective : Function.Injective String.toList := fun _ _ same => String.toList_injective same
  exact ⟨rfl, (List.map_injective_iff.mpr injective captured).symm⟩

private theorem attribute_names_nodup (kind : Kind) :
    ("type" :: kind.entry.params.map TypeParameter.name).Nodup := by
  cases kind <;> decide

private theorem size_name {kind : Kind} {name : String} (member : .size name ∈ kind.entry.params) :
    name = "size" := by
  have known : ∀ param ∈ kind.entry.params,
      param = .literal param.name ∨ param = .size "size" := by
    cases kind <;> decide
  rcases known _ member with literal | size
  · cases literal
  · exact TypeParameter.size.inj size

/-- A kind has one size at most. -/
theorem size_unique (kind : Kind) {name other size text : String} {arguments : List String}
    (length : kind.entry.params.length = arguments.length)
    (first : (.size name, size) ∈ kind.entry.params.zip arguments)
    (second : (.size other, text) ∈ kind.entry.params.zip arguments) : size = text := by
  obtain rfl := size_name (List.of_mem_zip first).1
  obtain rfl := size_name (List.of_mem_zip second).1
  have distinct : ((kind.entry.params.zip arguments).map Prod.fst).Nodup := by
    rw [List.map_fst_zip (Nat.le_of_eq length)]
    exact kind.parameter_names_nodup.of_map
  have found := lookup_eq_some_of_mem distinct first
  rw [lookup_eq_some_of_mem distinct second] at found
  exact (Option.some.inj found).symm

end Kind

/-! The attributes of a type string. -/

private theorem Attributes.setIn_of_notMem {key : String} {entries : List (String × AttributeValue)}
    (absent : key ∉ entries.map Prod.fst) (value : AttributeValue) :
    setIn key value entries = entries ++ [(key, value)] := by
  induction entries with
  | nil => rfl
  | cons entry entries ih =>
      rw [List.map_cons, List.mem_cons, not_or] at absent
      rw [setIn, if_neg (Ne.symm absent.1), ih absent.2, List.cons_append]

/-- The attributes with the value of one more parameter. -/
def keepParameter (typeText : String) (attributes : Attributes) (pair : TypeParameter × List Char) :
    Except CompileError Attributes := do
  return attributes.set pair.1.name (← pair.1.value typeText pair.2)

private theorem kindAttributes_eq (typeText : String) (pairs : List (TypeParameter × List Char)) :
    kindAttributes typeText pairs =
      pairs.foldlM (keepParameter typeText) ⟨[("type", .text typeText)]⟩ :=
  rfl

private theorem foldlM_keepParameter_of_denotes {params : List TypeParameter}
    (denoted : TypeParameter.AllDenote params arguments) {start : Attributes} (typeText : String)
    (distinct : (start.entries.map Prod.fst ++ params.map TypeParameter.name).Nodup) :
    (params.zip ((arguments.map Prod.fst).map String.toList)).foldlM
        (keepParameter typeText) start =
      .ok ⟨start.entries ++ (params.map TypeParameter.name).zip (arguments.map Prod.snd)⟩ := by
  induction denoted generalizing start with
  | nil => simp [pure, Except.pure]
  | @cons param argument params arguments here _ ih =>
      have absent : param.name ∉ start.entries.map Prod.fst := fun inside =>
        (List.nodup_append.mp distinct).2.2 _ inside _ List.mem_cons_self rfl
      have kept := (TypeParameter.value_eq_ok_iff here.shape typeText).mpr here
      have stepped : keepParameter typeText start (param, argument.1.toList) =
          .ok ⟨start.entries ++ [(param.name, argument.2)]⟩ := by
        rw [keepParameter, kept, ← Attributes.setIn_of_notMem absent]
        rfl
      have distinctLater : ((start.entries ++ [(param.name, argument.2)]).map Prod.fst ++
          params.map TypeParameter.name).Nodup := by
        simpa using distinct
      have later := @ih ⟨start.entries ++ [(param.name, argument.2)]⟩ distinctLater
      simp only [List.map_cons, List.zip_cons_cons, List.foldlM_cons, stepped]
      refine later.trans ?_
      rw [List.append_assoc]
      rfl

private theorem foldlM_keepParameter_of_error {pairs : List (TypeParameter × List Char)}
    {start : Attributes} {typeText : String} {fault : CompileError}
    (fails : ∃ pair ∈ pairs, pair.1.value typeText pair.2 = .error fault)
    (only : ∀ pair ∈ pairs, ∀ other, pair.1.value typeText pair.2 = .error other → other = fault) :
    pairs.foldlM (keepParameter typeText) start = .error fault := by
  induction pairs generalizing start with
  | nil => simp at fails
  | cons pair pairs ih =>
      rw [List.foldlM_cons, bind_eq_error_iff]
      cases here : pair.1.value typeText pair.2 with
      | error other =>
          left
          rw [keepParameter, here, only pair List.mem_cons_self other here]
          rfl
      | ok value =>
          right
          refine ⟨start.set pair.1.name value, by rw [keepParameter, here]; rfl, ih ?_ ?_⟩
          · obtain ⟨failing, member, failed⟩ := fails
            rcases List.mem_cons.mp member with rfl | member
            · rw [here] at failed
              cases failed
            · exact ⟨failing, member, failed⟩
          · exact fun pair member => only pair (List.mem_cons_of_mem _ member)

private theorem kindAttributes_of_denotes {kind : Kind}
    (denoted : TypeParameter.AllDenote kind.entry.params arguments) (typeText : String) :
    kindAttributes typeText
        (kind.entry.params.zip ((arguments.map Prod.fst).map String.toList)) =
      .ok ⟨("type", .text typeText) ::
        (kind.entry.params.map TypeParameter.name).zip (arguments.map Prod.snd)⟩ := by
  rw [kindAttributes_eq]
  exact foldlM_keepParameter_of_denotes denoted typeText kind.attribute_names_nodup

/-- The size that stands for no value is the only parameter that can be blamed. -/
theorem kindAttributes_of_not_denotes {kind : Kind} {arguments : List String}
    {param : TypeParameter} {argument : String}
    (shaped : List.Forall₂ TypeParameter.Shape kind.entry.params arguments)
    (paired : (param, argument) ∈ kind.entry.params.zip arguments)
    (refused : ∀ value, ¬ param.Denotes argument value) (typeText : String) :
    kindAttributes typeText (kind.entry.params.zip (arguments.map String.toList)) =
      .error (.malformed (.sizeOutOfRange argument typeText)) := by
  obtain ⟨length, shapes⟩ := List.forall₂_iff_zip.mp shaped
  rw [kindAttributes_eq, List.zip_map_right]
  refine foldlM_keepParameter_of_error ⟨_, List.mem_map_of_mem paired,
    TypeParameter.value_of_not_denotes (shapes paired) refused typeText⟩ ?_
  simp only [List.forall_mem_map]
  rintro ⟨other, text⟩ member fault failed
  have otherRefused : ∀ value, ¬ other.Denotes text value := by
    intro value denotes
    have kept := (TypeParameter.value_eq_ok_iff (shapes member) typeText).mpr denotes
    rw [Prod.map_apply, id_eq, kept] at failed
    cases failed
  have failedToo := TypeParameter.value_of_not_denotes (shapes member) otherRefused typeText
  obtain ⟨name, rfl⟩ := TypeParameter.exists_name_of_not_denotes (shapes paired) refused
  obtain ⟨name, rfl⟩ := TypeParameter.exists_name_of_not_denotes (shapes member) otherRefused
  rw [kind.size_unique length paired member]
  exact Except.error.inj (failed.symm.trans failedToo)

/-! Dispatch. -/

namespace Category

/-- What becomes of a type string in a category. It is accepted if every argument stands for a
value. A text that matches a kind but has a size that stands for no number is malformed, and a text
that matches no kind is not supported. -/
inductive Dispatches (category : Category) (text : String) :
    Except CompileError KindMatch → Prop
  | accepted {kind : Kind} {arguments : List (String × AttributeValue)}
      (candidate : kind ∈ category.candidates)
      (denoted : TypeParameter.AllDenote kind.entry.params arguments)
      (text_eq : text = kind.entry.typeString (arguments.map Prod.fst)) :
      Dispatches category text (.ok ⟨kind, ⟨("type", .text text) ::
        (kind.entry.params.map TypeParameter.name).zip (arguments.map Prod.snd)⟩⟩)
  | outOfRange {kind : Kind} {arguments : List String} {param : TypeParameter} {argument : String}
      (candidate : kind ∈ category.candidates) (matched : kind.entry.Matches text arguments)
      (paired : (param, argument) ∈ kind.entry.params.zip arguments)
      (refused : ∀ value, ¬ param.Denotes argument value) :
      Dispatches category text (.error (.malformed (.sizeOutOfRange argument text)))
  | unsupported
      (unmatched : ∀ kind ∈ category.candidates, ∀ arguments, ¬ kind.entry.Matches text arguments) :
      Dispatches category text (.error (.unsupportedType text category.name
        (category.candidates.map fun kind => kind.entry.signature)))

private theorem exists_dispatches (category : Category) (text : String) :
    ∃ outcome, category.Dispatches text outcome := by
  by_cases matched : ∃ kind ∈ category.candidates, ∃ arguments, kind.entry.Matches text arguments
  · obtain ⟨kind, candidate, arguments, matched⟩ := matched
    rcases TypeParameter.denoted_or_refused matched.shaped with
      ⟨valued, rfl, denoted⟩ | ⟨param, argument, paired, refused⟩
    · exact ⟨_, .accepted candidate denoted matched.text_eq⟩
    · exact ⟨_, .outOfRange candidate matched paired refused⟩
  · refine ⟨_, .unsupported fun kind candidate arguments found => matched ?_⟩
    exact ⟨kind, candidate, arguments, found⟩

private theorem Dispatches.matches_of_ok {category : Category} {text : String} {found : KindMatch}
    (dispatches : category.Dispatches text (.ok found)) :
    found.kind ∈ category.candidates ∧ ∃ arguments, found.kind.entry.Matches text arguments := by
  cases dispatches with
  | accepted candidate denoted text_eq =>
      exact ⟨candidate, _, text_eq ▸ CatalogueEntry.matches_of_allDenote denoted⟩

/-- Dispatch that tries the kinds of a category in a given order. -/
def dispatchIn (category : Category) (order : List Kind) (text : String) :
    Except CompileError KindMatch :=
  let typeText := Text.trim text
  let found := order.findSome? fun kind =>
    (kind.entry.captures? typeText.toList).map fun parts => (kind, parts)
  match found with
  | some (kind, parts) => do
    return ⟨kind, ← kindAttributes typeText (kind.entry.params.zip parts)⟩
  | none =>
    .error (.unsupportedType typeText category.name
      (category.candidates.map fun kind => kind.entry.signature))

private theorem dispatchIn_candidates (category : Category) (text : String) :
    category.dispatchIn category.candidates text = category.dispatch text :=
  rfl

section Order

variable {category : Category} {order : List Kind} {text : String} {arguments : List String}
  {outcome : Except CompileError KindMatch}

/-- The search finds the kind that matches, wherever it stands. -/
theorem findSome?_captures {kind : Kind} (member : kind ∈ order)
    (matched : kind.entry.Matches text arguments) :
    (order.findSome? fun kind =>
      (kind.entry.captures? text.toList).map fun parts => (kind, parts)) =
      some (kind, arguments.map String.toList) := by
  have captured := CatalogueEntry.captures?_eq_some_iff.mpr matched
  cases found : order.findSome? fun kind =>
      (kind.entry.captures? text.toList).map fun parts => (kind, parts) with
  | none =>
      have missed := List.findSome?_eq_none_iff.mp found kind member
      rw [captured] at missed
      cases missed
  | some result =>
      obtain ⟨other, -, here⟩ := List.exists_of_findSome?_eq_some found
      obtain ⟨parts, otherCaptured, rfl⟩ := Option.map_eq_some_iff.mp here
      obtain ⟨rfl, rfl⟩ :=
        Kind.matches_unique matched (CatalogueEntry.matches_of_captures? otherCaptured)
      simp

private theorem dispatchIn_of_matches {kind : Kind} (member : kind ∈ order)
    (matched : kind.entry.Matches (Text.trim text) arguments) :
    category.dispatchIn order text = do
      return ⟨kind, ← kindAttributes (Text.trim text)
        (kind.entry.params.zip (arguments.map String.toList))⟩ := by
  simp only [dispatchIn, findSome?_captures member matched]

private theorem dispatchIn_of_unmatched
    (unmatched : ∀ kind ∈ order, ∀ arguments, ¬ kind.entry.Matches (Text.trim text) arguments) :
    category.dispatchIn order text = .error (.unsupportedType (Text.trim text) category.name
      (category.candidates.map fun kind => kind.entry.signature)) := by
  have missed : (order.findSome? fun kind =>
      (kind.entry.captures? (Text.trim text).toList).map fun parts => (kind, parts)) = none := by
    refine List.findSome?_eq_none_iff.mpr fun kind member => ?_
    cases captured : kind.entry.captures? (Text.trim text).toList with
    | none => rfl
    | some parts =>
        exact absurd (CatalogueEntry.matches_of_captures? captured) (unmatched kind member _)
  simp only [dispatchIn, missed]

private theorem Dispatches.dispatchIn_eq (permuted : order.Perm category.candidates)
    (dispatches : category.Dispatches (Text.trim text) outcome) :
    category.dispatchIn order text = outcome := by
  cases dispatches with
  | accepted candidate denoted text_eq =>
      have matched := text_eq ▸ CatalogueEntry.matches_of_allDenote denoted
      rw [dispatchIn_of_matches (permuted.mem_iff.mpr candidate) matched,
        kindAttributes_of_denotes denoted]
      rfl
  | outOfRange candidate matched paired refused =>
      rw [dispatchIn_of_matches (permuted.mem_iff.mpr candidate) matched,
        kindAttributes_of_not_denotes matched.shaped paired refused]
      rfl
  | unsupported unmatched =>
      exact dispatchIn_of_unmatched fun kind member =>
        unmatched kind (permuted.mem_iff.mp member)

private theorem dispatchIn_eq_iff (permuted : order.Perm category.candidates) :
    category.dispatchIn order text = outcome ↔ category.Dispatches (Text.trim text) outcome := by
  constructor
  · rintro rfl
    obtain ⟨outcome, dispatches⟩ := category.exists_dispatches (Text.trim text)
    rw [dispatches.dispatchIn_eq permuted]
    exact dispatches
  · exact Dispatches.dispatchIn_eq permuted

end Order

/-- **Type strings.** Dispatch follows the grammar of the catalogue, in whichever order the kinds
are tried. No text matches two kinds or one kind in two ways, and none is accepted in two
categories. -/
theorem dispatch_follows_grammar (category : Category) (text : String) :
    (∀ outcome, category.dispatch text = outcome ↔
      category.Dispatches (Text.trim text) outcome) ∧
    (∀ order, order.Perm category.candidates →
      category.dispatchIn order text = category.dispatch text) ∧
    (∀ (first second : Kind) (arguments others : List String),
      first.entry.Matches (Text.trim text) arguments →
      second.entry.Matches (Text.trim text) others → first = second ∧ arguments = others) ∧
    ∀ (other : Category) (found also : KindMatch), category.dispatch text = .ok found →
      other.dispatch text = .ok also → other = category := by
  have follows : ∀ (category : Category) outcome, category.dispatch text = outcome ↔
      category.Dispatches (Text.trim text) outcome := fun category outcome => by
    rw [← dispatchIn_candidates, dispatchIn_eq_iff (.refl _)]
  refine ⟨follows category, ?_, fun _ _ _ _ => Kind.matches_unique, ?_⟩
  · intro order permuted
    rw [dispatchIn_eq_iff permuted, ← follows]
  · intro other found also here there
    obtain ⟨candidate, arguments, matched⟩ := ((follows category _).mp here).matches_of_ok
    obtain ⟨otherCandidate, others, otherMatched⟩ := ((follows other _).mp there).matches_of_ok
    obtain ⟨same, -⟩ := Kind.matches_unique matched otherMatched
    rw [← other.category_of_mem_candidates _ otherCandidate, ← same,
      category.category_of_mem_candidates _ candidate]

example : Category.valueProvider.dispatch " element_wise_value_provider[I16u;12]" =
    .ok ⟨.elementWiseValueProvider, ⟨[("type", .text "element_wise_value_provider[I16u;12]"),
      ("value_type", .text "I16u"), ("size", .integer 12)]⟩⟩ := by
  decide +kernel

example : Category.valueProvider.dispatch "element_wise_value_provider[I16u;9223372036854775808]" =
    .error (.malformed (.sizeOutOfRange "9223372036854775808"
      "element_wise_value_provider[I16u;9223372036854775808]")) := by
  decide +kernel

end Category

end Recordgen

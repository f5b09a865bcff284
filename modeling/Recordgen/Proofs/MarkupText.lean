import Recordgen.Markup.Document
import Recordgen.Proofs.Outcome
import Recordgen.Proofs.TagText

/-! # Reading a written document

A tree that is written as a document is read back (`Element.parse_print`). A `Spelling` is a tree as a
document may spell it: every element may carry a qualifier in front of its name, and namespace
bindings stand among its attributes. Reading drops both, so every spelling of a tree is read as that
tree (`Spelling.parse_print`). The scanner is followed element by element: over a written element it
gives events that attach the element to whatever is under construction, and goes on behind it
(`Spells`).
-/

namespace Recordgen.Markup

/-! Names. -/

/-- Whether a name can begin with `c`. -/
def startsName (c : Char) : Bool :=
  c.isAlpha || c = '_'

/-- Whether `c` can stand in a name. -/
def continuesName (c : Char) : Bool :=
  c.isAlphanum || c = '_' || c = '-' || c = '.'

/-- Whether a text is a name of ASCII letters, digits, `_`, `-` and `.`. -/
def isName (name : String) : Bool :=
  name.toList.head?.any startsName && name.toList.all continuesName

/-- Whether a text can qualify the name of an element. -/
def isQualifier (qualifier : String) : Bool :=
  qualifier.toList.head?.any (fun c => c ∉ ['!', '?', '/']) &&
    qualifier.toList.all fun c => c ∉ ':' :: tagMarks

/-- Whether a key names an attribute or binds a namespace. -/
def isKey (key : String) : Bool :=
  if isBinding key then key.toList.all fun c => c ∉ tagMarks else isName key

private theorem IsWord.of_all {text : List Char} (filled : text ≠ [])
    (plain : text.all (fun c => c ∉ tagMarks) = true) : IsWord text := by
  refine ⟨filled, ?_⟩
  simpa using plain

/-- The characters of a name divide nothing. -/
theorem ne_of_continuesName {c : Char} (continues : continuesName c = true) :
    c ∉ tagMarks ∧ c ∉ [':', '!', '?', '/'] := by
  have apart : (tagMarks ++ [':', '!', '?', '/']).all (fun mark => !continuesName mark) = true := by
    decide
  have unlisted : c ∉ tagMarks ++ [':', '!', '?', '/'] := fun listed => by
    simpa [continues] using List.all_eq_true.mp apart c listed
  simpa only [List.mem_append, not_or] using unlisted

namespace Name

variable {name : String} (named : isName name = true)

include named

theorem plain {c : Char} (inside : c ∈ name.toList) :
    c ∉ tagMarks ∧ c ∉ [':', '!', '?', '/'] := by
  rw [isName, Bool.and_eq_true, List.all_eq_true] at named
  exact ne_of_continuesName (named.2 c inside)

theorem isWord : IsWord name.toList := by
  refine ⟨?_, fun c inside => (plain named inside).1⟩
  intro empty
  simp [isName, empty] at named

end Name

private theorem IsKey.of_isKey {key : String} (valid : isKey key = true) : IsKey key := by
  unfold isKey at valid
  split_ifs at valid with binds
  · refine ⟨IsWord.of_all ?_ valid, fun free => absurd (binds.symm.trans free) (by decide)⟩
    intro empty
    simp [isBinding, empty] at binds
  · exact ⟨Name.isWord valid, fun _ listed => (Name.plain valid listed).2 (by simp)⟩

/-! Spellings of a tree. -/

mutual

/-- Whether all names in a tree are names, no attribute looks like a namespace binding, and the
attributes of every element differ. -/
def Element.isWellNamed : Element → Bool
  | ⟨name, attributes, children⟩ =>
    isName name && attributes.all (fun pair => isName pair.1 && !isBinding pair.1) &&
      decide (attributes.map Prod.fst).Nodup && areWellNamed children

/-- Whether this is so for several trees. -/
def areWellNamed : List Element → Bool
  | [] => true
  | element :: rest => element.isWellNamed && areWellNamed rest

end

/-- An element as a document may spell it: with a qualifier in front of its name, and with
namespace bindings among its attributes. -/
structure Spelling where
  qualifier : Option String
  name : String
  attributes : List (String × String)
  children : List Spelling

/-- A name behind its qualifier. -/
def qualifiedName : Option String → String → String
  | none, name => name
  | some qualifier, name => qualifier ++ ":" ++ name

mutual

/-- Writes a spelling. -/
def Spelling.print : Spelling → List Char
  | ⟨qualifier, name, attributes, []⟩ =>
    '<' :: printTag (qualifiedName qualifier name) attributes ++ ['/', '>']
  | ⟨qualifier, name, attributes, child :: children⟩ =>
    '<' :: printTag (qualifiedName qualifier name) attributes ++
      '>' :: printSpellings (child :: children) ++
      '<' :: '/' :: (qualifiedName qualifier name).toList ++ ['>']

/-- Writes several spellings, one after the other. -/
def printSpellings : List Spelling → List Char
  | [] => []
  | spelling :: rest => spelling.print ++ printSpellings rest

end

mutual

/-- The tree that is spelled: without qualifiers and bindings. -/
def Spelling.element : Spelling → Element
  | ⟨_, name, attributes, children⟩ => ⟨name, keptAttributes attributes, spelledElements children⟩

/-- The trees that are spelled one after the other. -/
def spelledElements : List Spelling → List Element
  | [] => []
  | spelling :: rest => spelling.element :: spelledElements rest

end

mutual

/-- Whether a spelling uses names, qualifiers and bindings only where they belong, and no key twice
in one tag. -/
def Spelling.isWellFormed : Spelling → Bool
  | ⟨qualifier, name, attributes, children⟩ =>
    qualifier.all isQualifier && isName name && attributes.all (fun pair => isKey pair.1) &&
      decide (attributes.map Prod.fst).Nodup && areWellFormed children

/-- Whether this is so for several spellings. -/
def areWellFormed : List Spelling → Bool
  | [] => true
  | spelling :: rest => spelling.isWellFormed && areWellFormed rest

end

mutual

/-- The spelling without qualifiers and bindings. -/
def Element.spelling : Element → Spelling
  | ⟨name, attributes, children⟩ => ⟨none, name, attributes, spellings children⟩

/-- The plain spellings of several trees. -/
def spellings : List Element → List Spelling
  | [] => []
  | element :: rest => element.spelling :: spellings rest

end

mutual

private theorem Element.print_spelling : ∀ element : Element, element.spelling.print = element.print
  | ⟨name, attributes, []⟩ => by
    simp only [Element.spelling, spellings, Spelling.print, Element.print, qualifiedName]
  | ⟨name, attributes, child :: children⟩ => by
    have inner := print_spellings (child :: children)
    simp only [spellings] at inner
    simp only [Element.spelling, spellings, Spelling.print, Element.print, qualifiedName, inner]

private theorem print_spellings :
    ∀ elements, printSpellings (spellings elements) = printAll elements
  | [] => by simp only [spellings, printSpellings, printAll]
  | element :: rest => by
    simp only [spellings, printSpellings, printAll, element.print_spelling, print_spellings rest]

end

mutual

private theorem Element.element_spelling : ∀ {element : Element}, element.isWellNamed = true →
    element.spelling.element = element
  | ⟨name, attributes, children⟩, wellNamed => by
    simp only [Element.isWellNamed, Bool.and_eq_true, List.all_eq_true] at wellNamed
    obtain ⟨⟨⟨-, keys⟩, -⟩, inner⟩ := wellNamed
    have kept : keptAttributes attributes = attributes :=
      List.filter_eq_self.mpr fun pair listed => (keys pair listed).2
    simp only [Element.spelling, Spelling.element, kept, spelledElements_spellings inner]

private theorem spelledElements_spellings :
    ∀ {elements : List Element}, areWellNamed elements = true →
    spelledElements (spellings elements) = elements
  | [], _ => by simp only [spellings, spelledElements]
  | element :: rest, wellNamed => by
    simp only [areWellNamed, Bool.and_eq_true] at wellNamed
    simp only [spellings, spelledElements, element.element_spelling wellNamed.1,
      spelledElements_spellings wellNamed.2]

end

mutual

private theorem Element.isWellFormed_spelling : ∀ {element : Element}, element.isWellNamed = true →
    element.spelling.isWellFormed = true
  | ⟨name, attributes, children⟩, wellNamed => by
    simp only [Element.isWellNamed, Bool.and_eq_true, List.all_eq_true,
      Bool.not_eq_eq_eq_not, Bool.not_true] at wellNamed
    obtain ⟨⟨⟨named, keys⟩, distinct⟩, inner⟩ := wellNamed
    have valid : ∀ pair ∈ attributes, isKey pair.1 = true := by
      intro pair listed
      rw [isKey, (keys pair listed).2, if_neg (by decide), (keys pair listed).1]
    simp only [Element.spelling, Spelling.isWellFormed, Option.all_none, named, distinct,
      areWellFormed_spellings inner, List.all_eq_true.mpr valid, Bool.and_self]

private theorem areWellFormed_spellings :
    ∀ {elements : List Element}, areWellNamed elements = true →
    areWellFormed (spellings elements) = true
  | [], _ => by simp only [spellings, areWellFormed]
  | element :: rest, wellNamed => by
    simp only [areWellNamed, Bool.and_eq_true] at wellNamed
    simp only [spellings, areWellFormed, element.isWellFormed_spelling wellNamed.1,
      areWellFormed_spellings wellNamed.2, Bool.and_self]

end

/-! The tag of a spelled element. -/

/-- The name that stands in the tags of an element: what reading makes of it, and what tells it from
other marks. -/
structure Tagged (qualified name : String) : Prop where
  word : IsWord qualified.toList
  local_name : localName qualified.toList = name.toList
  first : ∀ c ∈ qualified.toList.head?, c ≠ '!' ∧ c ≠ '?' ∧ c ≠ '/'
  last : qualified.toList.getLast? ≠ some '/'

private theorem localName_append {qualifier : List Char} (plain : ':' ∉ qualifier)
    (name : List Char) :
    localName (qualifier ++ ':' :: name) = name := by
  have all : ∀ c ∈ qualifier, decide (c ≠ ':') = true := by
    intro c inside
    simp only [decide_eq_true_eq]
    exact fun same => plain (same ▸ inside)
  rw [localName, Text.dropWhile_run all (by decide)]

private theorem getLast?_name_ne {name : String} (named : isName name = true) :
    name.toList.getLast? ≠ some '/' := fun found =>
  (Name.plain named (List.mem_of_getLast? found)).2 (by simp)

private theorem tagged_qualifiedName {qualifier : Option String} {name : String}
    (qualified : qualifier.all isQualifier = true) (named : isName name = true) :
    Tagged (qualifiedName qualifier name) name := by
  have word := Name.isWord named
  have last := getLast?_name_ne named
  cases qualifier with
  | none =>
      refine ⟨word, localName_of_notMem fun listed => (Name.plain named listed).2 (by simp), ?_,
        last⟩
      intro c found
      have plain := (Name.plain named (List.mem_of_mem_head? found)).2
      simp only [List.mem_cons, List.not_mem_nil, or_false, not_or] at plain
      exact plain.2
  | some qualifier =>
      simp only [Option.all_some, isQualifier, Bool.and_eq_true, List.all_eq_true,
        decide_eq_true_eq, List.mem_cons, not_or] at qualified
      obtain ⟨first, plain⟩ := qualified
      have spelled : (qualifiedName (some qualifier) name).toList =
          qualifier.toList ++ ':' :: name.toList := by
        simp [qualifiedName]
      refine ⟨⟨?_, ?_⟩, ?_, ?_, ?_⟩
      · simp [spelled]
      · intro c inside
        rw [spelled, List.mem_append, List.mem_cons] at inside
        rcases inside with inside | rfl | inside
        · exact (plain c inside).2
        · decide
        · exact word.2 c inside
      · rw [spelled]
        exact localName_append (fun listed => (plain ':' listed).1 rfl) name.toList
      · intro c found
        cases start : qualifier.toList with
        | nil => simp [start] at first
        | cons head tail =>
            rw [start] at first
            rw [spelled, start, List.cons_append, List.head?_cons, Option.mem_def,
              Option.some.injEq] at found
            subst found
            simpa using first
      · rwa [spelled, List.append_cons, List.getLast?_append_of_ne_nil _ word.1]

/-- A tag ends in a quote or in the end of its name. -/
theorem getLast?_printTag_ne {name : String} (attributes : List (String × String))
    (last : name.toList.getLast? ≠ some '/') : (printTag name attributes).getLast? ≠ some '/' := by
  rcases List.eq_nil_or_concat attributes with rfl | ⟨attributes, pair, rfl⟩
  · simpa [printTag] using last
  · have quoted : (printTag name (attributes ++ [pair])).getLast? = some '"' := by
      rw [printTag, List.flatMap_append, List.flatMap_singleton, printAttribute,
        ← List.append_assoc, ← List.append_assoc, List.getLast?_concat]
    simp [quoted]

private theorem endTagName_of_isWord {name : List Char} (word : IsWord name) :
    endTagName name = name := by
  cases spelled : name.reverse with
  | nil => exact absurd (List.reverse_eq_nil_iff.mp spelled) word.1
  | cons last others =>
      have solid : isSpace last = false := by
        apply isSpace_of_notMem_tagMarks
        apply word.2
        rw [← List.mem_reverse, spelled]
        exact List.mem_cons_self
      rw [endTagName, spelled, List.dropWhile_cons_of_neg (by simp [solid])]
      simp [← spelled]

/-! Scanning. -/

private theorem scanFrom_taken (opened : List (List Char)) (offset : Nat) (text rest : List Char) :
    scanFrom opened offset text.length (text ++ rest) =
      scanFrom opened (offset + Text.byteSize text) 0 rest := by
  induction text generalizing offset with
  | nil => simp
  | cons c text ih =>
      rw [List.length_cons, List.cons_append, scanFrom, ih, Text.byteSize_cons, Nat.add_assoc]

/-- A mark that gives an event is passed over. -/
theorem scanFrom_mark {opened opened' : List (List Char)} (text rest : List Char) {mark : Mark}
    {event : Event} (read : readMark (text ++ rest) = .ok (mark, text.length))
    (means : ∀ position, markEvent opened position mark = .ok (event, opened')) (offset : Nat) :
    ∃ later, scanFrom opened offset 0 ('<' :: (text ++ rest)) =
      (scanFrom opened' later 0 rest).cons event := by
  refine ⟨offset + 1 + Text.byteSize text, ?_⟩
  rw [scanFrom, if_pos rfl, read]
  simp only [means, scanFrom_taken]

section Marks

variable {qualified name : String} {attributes : List (String × String)}
  (tagged : Tagged qualified name) (valid : IsTag qualified attributes) (opened : List (List Char))
  (offset : Nat) (rest : List Char)

include tagged valid

/-- A tag is told from other marks by its first character; a slash may stand at its end. -/
theorem readMark_tag {close : List Char} (closing : close = [] ∨ close = ['/']) :
    readMark (printTag qualified attributes ++ (close ++ '>' :: rest)) =
      .ok (.startTag (printTag qualified attributes ++ close),
        (printTag qualified attributes ++ close).length + 1) := by
  have plain : IsContent close := by
    apply IsContent.of_unquoted
    rcases closing with rfl | rfl <;> simp
  have content := (IsContent.printTag valid).append plain
  cases spelled : qualified.toList with
  | nil => exact absurd spelled tagged.word.1
  | cons first tail =>
      have begins : printTag qualified attributes ++ close =
          first :: (tail ++ (attributes.flatMap printAttribute ++ close)) := by
        simp [printTag, spelled]
      have other := tagged.first first (by simp [spelled])
      rw [begins] at content
      rw [← List.append_assoc, begins]
      exact readMark_startTag content other rest

private theorem readTag_tagged :
    readTag (printTag qualified attributes) = .ok ⟨name, keptAttributes attributes⟩ := by
  rw [readTag_printTag valid, tagged.local_name, String.ofList_toList]

/-- A start tag opens its element. -/
theorem scanFrom_startTag :
    ∃ later, scanFrom opened offset 0 ('<' :: (printTag qualified attributes ++ '>' :: rest)) =
      (scanFrom (qualified.toList :: opened) later 0 rest).cons
        (.start ⟨name, keptAttributes attributes⟩) := by
  have read := readMark_tag tagged valid rest (.inl rfl)
  have last := getLast?_printTag_ne attributes tagged.last
  have means : ∀ position, markEvent opened position (.startTag (printTag qualified attributes)) =
      .ok (.start ⟨name, keptAttributes attributes⟩, qualified.toList :: opened) := by
    intro position
    rw [markEvent]
    split
    · next slash => exact absurd slash last
    · rw [readTag_tagged tagged valid, tagName_printTag tagged.word]
      rfl
  obtain ⟨later, step⟩ := scanFrom_mark (printTag qualified attributes ++ ['>']) rest
    (by simpa using read) means offset
  exact ⟨later, by simpa using step⟩

/-- An empty element is told by the slash at the end of its tag. -/
theorem scanFrom_emptyTag :
    ∃ later, scanFrom opened offset 0
        ('<' :: (printTag qualified attributes ++ '/' :: '>' :: rest)) =
      (scanFrom opened later 0 rest).cons (.empty ⟨name, keptAttributes attributes⟩) := by
  have read := readMark_tag tagged valid rest (.inr rfl)
  have means : ∀ position, markEvent opened position
      (.startTag (printTag qualified attributes ++ ['/'])) =
      .ok (.empty ⟨name, keptAttributes attributes⟩, opened) := by
    intro position
    rw [markEvent, List.getLast?_concat, List.dropLast_concat]
    simp only [readTag_tagged tagged valid]
    rfl
  obtain ⟨later, step⟩ := scanFrom_mark (printTag qualified attributes ++ ['/', '>']) rest
    (by simpa using read) means offset
  exact ⟨later, by simpa using step⟩

omit valid in
/-- An end tag closes the element that it names. -/
theorem scanFrom_endTag :
    ∃ later, scanFrom (qualified.toList :: opened) offset 0
        ('<' :: '/' :: (qualified.toList ++ '>' :: rest)) =
      (scanFrom opened later 0 rest).cons .stop := by
  have read := readMark_endTag (IsContent.of_isWord tagged.word) rest
  have means : ∀ position, markEvent (qualified.toList :: opened) position
      (.endTag qualified.toList) = .ok (.stop, opened) := by
    intro position
    simp only [markEvent, endTagName_of_isWord tagged.word, if_true]
  obtain ⟨later, step⟩ := scanFrom_mark ('/' :: qualified.toList ++ ['>']) rest
    (by simpa using read) means offset
  exact ⟨later, by simpa using step⟩

end Marks

/-! From the events to the tree. -/

/-- Events in front of what follows them. -/
def Scan.after (events : List Event) (scan : Scan) : Scan :=
  { scan with events := events ++ scan.events }

private theorem Scan.after_after (first second : List Event) (scan : Scan) :
    (scan.after second).after first = scan.after (first ++ second) := by
  simp [Scan.after]

private theorem Scan.after_singleton (event : Event) (scan : Scan) :
    scan.cons event = scan.after [event] :=
  rfl

theorem Builder.run_append (builder : Builder) (first second : List Event) :
    builder.run (first ++ second) = builder.run first >>= fun next => next.run second :=
  List.foldlM_append

/-- Finished elements go into the innermost open element, in order. -/
theorem Builder.foldlM_attach (name : String) (attributes : List (String × String))
    (before : List Element) (outer : List Element) (root : Option Element)
    (elements : List Element) :
    elements.foldlM Builder.attach ⟨⟨name, attributes, before⟩ :: outer, root⟩ =
      .ok ⟨⟨name, attributes, before ++ elements⟩ :: outer, root⟩ := by
  induction elements generalizing before with
  | nil =>
      rw [List.append_nil]
      rfl
  | cons element elements ih =>
      rw [List.foldlM_cons, List.append_cons]
      exact ih (before ++ [element])

/-- Over `text` the scanner gives events that have the given effect on the tree under construction,
whatever is open, and goes on behind it. -/
def Spells (text : List Char) (effect : Builder → Except Fault Builder) : Prop :=
  ∀ opened offset rest, ∃ events later,
    scanFrom opened offset 0 (text ++ rest) = (scanFrom opened later 0 rest).after events ∧
      ∀ builder : Builder, builder.run events = effect builder

namespace Spells

theorem nil : Spells [] .ok := fun _ offset _ => ⟨[], offset, rfl, fun _ => rfl⟩

/-- Texts that are scanned one behind the other run their builders in turn. -/
theorem append {first second : List Char} {before after : Builder → Except Fault Builder}
    (left : Spells first before) (right : Spells second after) :
    Spells (first ++ second) fun builder => before builder >>= after := by
  intro opened offset rest
  obtain ⟨events, middle, scanned, ran⟩ := left opened offset (second ++ rest)
  obtain ⟨events', later, scanned', ran'⟩ := right opened middle rest
  refine ⟨events ++ events', later, ?_, fun builder => ?_⟩
  · rw [List.append_assoc, scanned, scanned', Scan.after_after]
  · rw [Builder.run_append, ran]
    exact congrArg _ (funext ran')

section Tags

variable {qualified name : String} {attributes : List (String × String)}
  (tagged : Tagged qualified name) (valid : IsTag qualified attributes)

include tagged valid

/-- An empty element is attached. -/
theorem empty :
    Spells ('<' :: printTag qualified attributes ++ ['/', '>'])
      (·.attach ⟨name, keptAttributes attributes, []⟩) := by
  intro opened offset rest
  obtain ⟨later, scanned⟩ := scanFrom_emptyTag tagged valid opened offset rest
  refine ⟨[.empty ⟨name, keptAttributes attributes⟩], later, ?_, fun builder => ?_⟩
  · rw [← Scan.after_singleton, ← scanned]
    simp
  · exact bind_pure _

/-- An element around others is attached together with them. -/
theorem filled {inner : List Char} {children : List Element}
    (spelled : Spells inner fun builder => children.foldlM Builder.attach builder) :
    Spells ('<' :: printTag qualified attributes ++ '>' :: inner ++
        '<' :: '/' :: qualified.toList ++ ['>'])
      (·.attach ⟨name, keptAttributes attributes, children⟩) := by
  intro opened offset rest
  have text : '<' :: printTag qualified attributes ++ '>' :: inner ++
      '<' :: '/' :: qualified.toList ++ ['>'] ++ rest =
      '<' :: (printTag qualified attributes ++ '>' ::
        (inner ++ '<' :: '/' :: (qualified.toList ++ '>' :: rest))) := by
    simp
  obtain ⟨entered, started⟩ := scanFrom_startTag tagged valid opened offset
    (inner ++ '<' :: '/' :: (qualified.toList ++ '>' :: rest))
  obtain ⟨events, left, scanned, ran⟩ := spelled (qualified.toList :: opened) entered
    ('<' :: '/' :: (qualified.toList ++ '>' :: rest))
  obtain ⟨later, stopped⟩ := scanFrom_endTag tagged opened left rest
  refine ⟨[.start ⟨name, keptAttributes attributes⟩] ++ (events ++ [.stop]), later, ?_,
    fun builder => ?_⟩
  · rw [text, started, scanned, stopped]
    simp only [Scan.after_singleton, Scan.after_after]
  · have entering : builder.run [.start ⟨name, keptAttributes attributes⟩] =
        .ok ⟨⟨name, keptAttributes attributes, []⟩ :: builder.opened, builder.root⟩ := rfl
    have inside := (ran ⟨⟨name, keptAttributes attributes, []⟩ :: builder.opened, builder.root⟩).trans
      (Builder.foldlM_attach name (keptAttributes attributes) [] builder.opened builder.root children)
    have leaving : Builder.run
        ⟨⟨name, keptAttributes attributes, children⟩ :: builder.opened, builder.root⟩ [.stop] =
        builder.attach ⟨name, keptAttributes attributes, children⟩ := bind_pure _
    rw [Builder.run_append, entering]
    change Builder.run _ (events ++ [.stop]) = _
    rw [Builder.run_append, inside]
    exact leaving

end Tags

end Spells

private theorem IsTag.of_keys {qualified name : String} (tagged : Tagged qualified name)
    {attributes : List (String × String)} (keys : ∀ pair ∈ attributes, isKey pair.1 = true)
    (distinct : (attributes.map Prod.fst).Nodup) : IsTag qualified attributes :=
  ⟨tagged.word, fun pair listed => IsKey.of_isKey (keys pair listed), distinct⟩

mutual

/-- A written spelling attaches the tree that it spells. -/
theorem Spelling.spells_print : ∀ {spelling : Spelling}, spelling.isWellFormed = true →
    Spells spelling.print (·.attach spelling.element)
  | ⟨qualifier, name, attributes, []⟩, wellFormed => by
    simp only [Spelling.isWellFormed, Bool.and_eq_true, List.all_eq_true,
      decide_eq_true_eq] at wellFormed
    obtain ⟨⟨⟨⟨qualified, named⟩, keys⟩, distinct⟩, -⟩ := wellFormed
    have tagged := tagged_qualifiedName qualified named
    simpa only [Spelling.print, Spelling.element, spelledElements] using
      Spells.empty tagged (.of_keys tagged keys distinct)
  | ⟨qualifier, name, attributes, child :: children⟩, wellFormed => by
    simp only [Spelling.isWellFormed, Bool.and_eq_true, List.all_eq_true,
      decide_eq_true_eq] at wellFormed
    obtain ⟨⟨⟨⟨qualified, named⟩, keys⟩, distinct⟩, inner⟩ := wellFormed
    have tagged := tagged_qualifiedName qualified named
    rw [Spelling.print, Spelling.element]
    exact Spells.filled tagged (.of_keys tagged keys distinct) (spells_printSpellings inner)

/-- Written spellings attach the trees that they spell, in order. -/
theorem spells_printSpellings : ∀ {spellings : List Spelling}, areWellFormed spellings = true →
    Spells (printSpellings spellings)
      fun builder => (spelledElements spellings).foldlM Builder.attach builder
  | [], _ => by
    rw [printSpellings, spelledElements]
    exact Spells.nil
  | spelling :: rest, wellFormed => by
    simp only [areWellFormed, Bool.and_eq_true] at wellFormed
    rw [printSpellings, spelledElements]
    simp only [List.foldlM_cons]
    exact (Spelling.spells_print wellFormed.1).append (spells_printSpellings wellFormed.2)

end

private theorem Spelling.print_eq_cons : ∀ spelling : Spelling, ∃ rest, spelling.print = '<' :: rest
  | ⟨_, _, _, []⟩ => ⟨_, by rw [Spelling.print, List.cons_append]⟩
  | ⟨_, _, _, _ :: _⟩ => ⟨_, by rw [Spelling.print]; rfl⟩

/-- A spelling of a tree is read as that tree. -/
theorem Spelling.parse_print {spelling : Spelling} (wellFormed : spelling.isWellFormed = true) :
    parse (String.ofList spelling.print) = .ok spelling.element := by
  obtain ⟨events, later, scanned, ran⟩ := spells_print wellFormed [] 0 []
  have marked : dropByteOrderMark spelling.print = spelling.print := by
    obtain ⟨rest, begins⟩ := spelling.print_eq_cons
    rw [begins]
    rfl
  have whole : scan (String.ofList spelling.print) = ⟨events, none⟩ := by
    rw [scan, String.toList_ofList, marked, ← List.append_nil spelling.print, scanned]
    simp [Scan.after, scanFrom]
  rw [parse, whole, Scan.tree, ran]
  rfl

/-- A written tree is read back. -/
theorem Element.parse_print {element : Element} (wellNamed : element.isWellNamed = true) :
    parse (String.ofList element.print) = .ok element := by
  rw [← element.print_spelling, Spelling.parse_print (element.isWellFormed_spelling wellNamed),
    element.element_spelling wellNamed]

/-- **Round trip.** A tree whose names are names, whose attributes look like no namespace binding and
differ in every element is read back from the document that writes it, and from every document that
spells it with qualifiers and namespace bindings. -/
theorem parse_written {element : Element} (wellNamed : element.isWellNamed = true) :
    parse (String.ofList element.print) = .ok element ∧
      ∀ spelling : Spelling, spelling.isWellFormed = true → spelling.element = element →
        parse (String.ofList spelling.print) = .ok element :=
  ⟨Element.parse_print wellNamed, fun _ wellFormed same => same ▸ Spelling.parse_print wellFormed⟩

/-- A tree with an empty element between filled ones and a value that needs every reference. -/
def quotingElement : Element :=
  ⟨"spec", [("_x-1.a", "<'é' & \"☃\">/>\n")],
    [⟨"a", [], [⟨"b", [("k", ""), ("l", "&amp;")], []⟩]⟩, ⟨"a", [], []⟩, ⟨"c", [], [⟨"a", [], []⟩]⟩]⟩

/-- The same tree with qualifiers and namespace bindings. -/
def quotingSpelling : Spelling :=
  ⟨some "p", "spec", [("xmlns:p", "urn:\"p\""), ("_x-1.a", "<'é' & \"☃\">/>\n"), ("xmlns", ">")],
    [⟨none, "a", [], [⟨some "ü", "b", [("k", ""), ("xmlns:ü", "/"), ("l", "&amp;")], []⟩]⟩,
      ⟨some "p", "a", [], []⟩, ⟨some "q", "c", [], [⟨some "p", "a", [], []⟩]⟩]⟩

theorem quoting_written :
    quotingElement.isWellNamed = true ∧ quotingSpelling.isWellFormed = true ∧
      parse (String.ofList quotingElement.print) = .ok quotingElement ∧
        parse (String.ofList quotingSpelling.print) = .ok quotingElement :=
  ⟨by decide, by decide, (parse_written (by decide)).1,
    (parse_written (by decide)).2 quotingSpelling (by decide) rfl⟩

end Recordgen.Markup

import Recordgen.Proofs.DeclarationOrder
import Recordgen.Proofs.SetterTargets

/-! # How functions are registered and looked up

The configuration registers every function under its key, and a setter chain looks up the functions
that its members refer to. Both write the same class. The registration quotes the key, whereas the
look-up sets it between quotation marks as it is, so both write the same string constant exactly if
the key holds no character that has to be quoted (`compile_function_keys`).
-/

namespace Recordgen

open Outcome

variable {component : Component .resolved} {key : String} {function : ComponentId}

namespace Text.Quoted

/-- The characters that have to be quoted in a string constant. -/
def specials : List Char :=
  ['"', '\\', '\n', '\t']

/-- Whether every character of a text stands for itself in a string constant. -/
def isVerbatim (text : String) : Bool :=
  text.toList.all fun c => !specials.contains c

private theorem length_le_encode (quote : Char) (text : List Char) :
    text.length ≤ (encode quote text).length := by
  fun_induction encode quote text with
  | case1 => exact Nat.le_refl 0
  | case2 rest ih | case3 rest ih | case4 rest ih | case5 rest _ _ _ ih | case6 c rest _ _ _ _ ih =>
      simp only [List.length_cons]
      omega

/-- A text is its own inside of a constant exactly if none of its characters has to be quoted. -/
theorem encode_eq_self_iff (text : List Char) :
    encode '"' text = text ↔ ∀ c ∈ text, c ∉ specials := by
  -- What is quoted gets longer.
  have longer : ∀ (rest : List Char) (first second c : Char),
      first :: second :: encode '"' rest ≠ c :: rest := by
    intro rest first second c same
    have lengths := congrArg List.length same
    have grown := length_le_encode '"' rest
    simp only [List.length_cons] at lengths
    omega
  fun_induction encode '"' text with
  | case1 => simp
  | case2 rest ih | case3 rest ih | case4 rest ih | case5 rest _ _ _ ih =>
      refine iff_of_false (longer _ _ _ _) fun verbatim => ?_
      exact verbatim _ List.mem_cons_self (by decide)
  | case6 c rest backslash feed tab quote ih =>
      have plain : c ∉ specials := by
        simp only [specials, List.mem_cons, List.not_mem_nil, or_false, not_or]
        exact ⟨quote, backslash, feed, tab⟩
      rw [List.forall_mem_cons, and_iff_right plain, List.cons_inj_right]
      exact ih

/-- **String constants.** A text between quotation marks is its own constant exactly if none of its
characters has to be quoted. -/
theorem string_eq_iff (text : String) :
    "\"" ++ text ++ "\"" = string text ↔ isVerbatim text = true := by
  have inside : "\"" ++ text ++ "\"" = string text ↔ encode '"' text.toList = text.toList := by
    rw [← String.toList_inj, string, wrap, String.toList_ofList, eq_comm]
    simp
  rw [inside, encode_eq_self_iff, isVerbatim, List.all_eq_true]
  simp

end Text.Quoted

/-- Every function that a schema asks for is looked up. -/
theorem Kind.function_mem_directives (kind : Kind) : ∀ entry ∈ kind.entry.schema,
    entry.kind = .single .functionRef → .function entry.key ∈ kind.entry.directives := by
  cases kind <;> decide

/-- An argument that refers to a function is one that is looked up. -/
theorem Component.Conforms.function_mem_directives {arena : List (Component .resolved)}
    (conforms : component.Conforms arena)
    (held : component.argument? key = some (@Argument.functionRef .resolved function)) :
    .function key ∈ component.kind.entry.directives := by
  have known : key ∈ component.kind.entry.schema.map SchemaEntry.key := by
    rw [← conforms.keys]
    exact List.mem_map_of_mem (Component.mem_arguments_of_argument? held)
  obtain ⟨entry, listed, rfl⟩ := List.mem_map.mp known
  obtain ⟨argument, found, fits⟩ := conforms.argument?_of_mem listed
  obtain rfl := Option.some.inj (held.symm.trans found)
  refine component.kind.function_mem_directives entry listed ?_
  generalize entry.kind = kind at fits
  cases fits with
  | single item _ holds =>
      cases holds
      rfl

/-- The look-up of a function of the given class in a setter chain, by a string constant. -/
def lookupText (className constant : String) : ConstructorArgument :=
  .text s!"config.function<{className}>({constant})"

/-- The registration of a function of the given class, with its constructor arguments. -/
def registrationLine (className : String) (arguments : List String) : Step :=
  let list := ", ".intercalate arguments
  .line s!"function(new {className}({list}));"

/-- A chain member looks up every function that it refers to. -/
theorem RecordContext.lookup_mem_arguments {context : RecordContext} {names : ChainNames}
    {arguments : List ConstructorArgument}
    (called : (context.chainScope names).constructorArguments component = .ok arguments)
    (asked : .function key ∈ component.kind.entry.directives)
    (held : component.argument? key = some (@Argument.functionRef .resolved function)) :
    ∃ className, (context.spec.component function).functionClass = .ok className ∧
      lookupText className ("\"" ++ (context.spec.component function).key ++ "\"") ∈ arguments := by
  obtain ⟨all, followed, rfl⟩ := bind_pure_eq_ok_iff.mp called
  obtain ⟨some, listed, made⟩ := exists_right_of_mem (mapM_eq_ok_iff.mp followed) asked
  obtain ⟨lookup, looked, rfl⟩ := bind_pure_eq_ok_iff.mp made
  obtain ⟨found, meant, looked⟩ := bind_eq_ok_iff.mp looked
  have target : component.functionArgument key = .ok function :=
    Component.argumentAs_eq_ok held rfl
  obtain rfl : function = found := Except.ok.inj (target.symm.trans meant)
  obtain ⟨className, classed, same⟩ := bind_eq_ok_iff.mp looked
  refine ⟨className, classed, List.mem_flatten.mpr ⟨_, listed, List.mem_singleton.mpr ?_⟩⟩
  rw [← pure_eq_ok_iff.mp same, lookupText]
  congr 1
  apply String.toList_inj.mp
  simp [RecordContext.chainScope, toString]

namespace Specification

variable {spec : Specification .resolved} {targetNamespace : String} {function : ComponentId}

/-- The configuration registers every function under its key. -/
theorem registration_mem_config {config : HeaderPair}
    (rendered : spec.configHeaders targetNamespace = .ok config)
    (listed : function ∈ spec.functions.values) {className : String}
    (classed : (spec.component function).functionClass = .ok className) :
    ∃ arguments,
      spec.functionRegistration function = .ok (registrationLine className
        (Text.Quoted.string (spec.component function).key :: arguments)) ∧
      registrationLine className (Text.Quoted.string (spec.component function).key :: arguments) ∈
        config.base.body := by
  obtain ⟨functions, registered, rendered⟩ := bind_eq_ok_iff.mp rendered
  obtain ⟨_, -, rfl⟩ := bind_pure_eq_ok_iff.mp rendered
  obtain ⟨step, inside, made⟩ := exists_right_of_mem (mapM_eq_ok_iff.mp registered) listed
  have whole := made
  obtain ⟨texts, written, made⟩ := bind_eq_ok_iff.mp made
  obtain ⟨other, again, same⟩ := bind_eq_ok_iff.mp made
  obtain rfl : className = other := Except.ok.inj (classed.symm.trans again)
  obtain ⟨arguments, -, rfl⟩ := bind_pure_eq_ok_iff.mp written
  have line : step = registrationLine className
      (Text.Quoted.string (spec.component function).key :: arguments) :=
    (pure_eq_ok_iff.mp same).symm
  refine ⟨arguments, line ▸ whole, line ▸ ?_⟩
  simp [Step.declarationBraces, Step.function, Step.braces, inside]

end Specification

/-- A member of a setter chain refers to a function. The headers register the function by one string
constant and look it up by another, with the same class. -/
def RecordContext.UsesFunction (context : RecordContext) (headers : List HeaderPair)
    (id function : ComponentId) (registration lookup : String) : Prop :=
  ∃ className,
    (∃ config ∈ headers, context.spec.configHeaders context.targetNamespace = .ok config ∧
      ∃ arguments,
        context.spec.functionRegistration function =
          .ok (registrationLine className (registration :: arguments)) ∧
        registrationLine className (registration :: arguments) ∈ config.base.body) ∧
    ∃ chain ∈ headers, ∃ declarations types,
      context.chainHeaders (ChainNames.assign context.spec context.sequence) = .ok chain ∧
      context.chainDeclarations (ChainNames.assign context.spec context.sequence) default
        (ChainNames.assign context.spec context.sequence).postOrder = .ok (declarations, types) ∧
      context.chainConstructor declarations <:+: chain.base.body ∧
      ∃ declaration ∈ declarations, declaration.member.id = id ∧
        lookupText className lookup ∈ declaration.arguments

/-- Every function that a chain refers to is registered by its quoted key and looked up by its key as
it is. -/
theorem Specification.usesFunction_of_chain {spec : Specification .resolved}
    {targetNamespace : String} (linked : spec.Linked)
    (complete : (spec.plan targetNamespace).failure = none) {sequence : RecordSequence}
    (member : sequence ∈ spec.sequences.toList) (random : sequence.kind = .random)
    {id : ComponentId} (inside : id ∈ spec.chain sequence)
    (held : (spec.component id).argument? key = some (@Argument.functionRef .resolved function)) :
    RecordContext.UsesFunction ⟨spec, sequence, targetNamespace⟩ (spec.plan targetNamespace).headers
      id function (Text.Quoted.string (spec.component function).key)
      ("\"" ++ (spec.component function).key ++ "\"") := by
  have wellFormed := linked.wellFormed
  obtain ⟨present, -⟩ := wellFormed.chain_member member inside
  have listed : function ∈ spec.functions.values := by
    apply linked.functions _ present function
    exact List.mem_flatMap.mpr
      ⟨_, Component.mem_arguments_of_argument? held, List.mem_singleton_self _⟩
  have asked := (wellFormed.conform _ present).function_mem_directives held
  obtain ⟨pairs, rendered, planned⟩ := exists_headers_of_plan linked complete member random
  obtain ⟨chain, written, chained⟩ := RecordContext.exists_chainHeaders rendered
  obtain ⟨declarations, types, declared, -, constructed, -⟩ :=
    RecordContext.parts_of_chainHeaders chained
  have placed := (ChainNames.postOrder_perm wellFormed member).mem_iff.mpr inside
  obtain ⟨declaration, made, here⟩ :=
    exists_right_of_mem (RecordContext.forall₂_of_chainDeclarations declared) placed
  obtain ⟨called, -, found, -⟩ := RecordContext.chainDeclaration_eq_ok here
  obtain ⟨className, classed, looked⟩ := RecordContext.lookup_mem_arguments called asked held
  obtain ⟨config, configured⟩ := exists_configHeaders linked targetNamespace
  refine ⟨className, ⟨config, config_mem_headers configured, configured,
    registration_mem_config configured listed classed⟩, chain, planned written, declarations, types,
    chained, declared, constructed, declaration, made, ?_, looked⟩
  exact (ChainNames.find?_eq_some found).2

/-- **Registration and look-up.** In a document that is compiled, every function that a setter chain
refers to is registered by its quoted key and looked up by its key between quotation marks, with the
same class. The two string constants are the same exactly if every character of the key stands for
itself in one. -/
theorem compile_function_keys {store after : MemoryStore} {targetNamespace text : String}
    {report : Report} (compiled : compileInMemory store targetNamespace text = (.ok report, after)) :
    ∃ spec, readDocument text = .ok spec ∧
      ∀ sequence ∈ spec.sequences.toList, sequence.kind = .random →
        ∀ id ∈ spec.chain sequence, ∀ (key : String) (function : ComponentId),
          (spec.component id).argument? key = some (@Argument.functionRef .resolved function) →
            ∃ registration lookup,
              RecordContext.UsesFunction ⟨spec, sequence, targetNamespace⟩
                (spec.plan targetNamespace).headers id function registration lookup ∧
              registration = Text.Quoted.string (spec.component function).key ∧
              lookup = "\"" ++ (spec.component function).key ++ "\"" ∧
              (lookup = registration ↔
                Text.Quoted.isVerbatim (spec.component function).key = true) := by
  obtain ⟨spec, read, complete, -⟩ := exists_complete_of_compiled compiled
  refine ⟨spec, read, fun sequence member random id inside key function held => ?_⟩
  exact ⟨_, _, Specification.usesFunction_of_chain (linked_of_readDocument read) complete member
    random inside held, rfl, rfl, Text.Quoted.string_eq_iff _⟩

namespace Prototype.Sample

open Markup (Element)

/-- A document in which a value has the probabilities of a function whose key holds a quotation
mark. -/
def quotedRoot : Element :=
  { name := rootName
    children := [
      { name := "functions"
        children := [keyed "function" "a\"b" "normal_probability" [
          literal "mean" "Decimal" "0", literal "stddev" "Decimal" "1"]] },
      { name := "record_sequences"
        children := [
          randomSequence "a" [{ name := "field", attributes := [("name", "x"), ("type", "Decimal")] }]
            [keyed "setter" "s" "field_setter" [
              link "field" "x",
              nested "value" "random_value_provider[Decimal]" [link "probability" "a\"b"]]]] }] }

/-- The text of the document. -/
def quotedText : String :=
  String.ofList quotedRoot.print

private theorem parse_quotedText : Markup.parse quotedText = .ok quotedRoot :=
  Markup.Element.parse_print (by decide +kernel)

/-- Whether the chain of a random sequence has a probability of the function with the given key. -/
def hasProbability (key : String) (spec : Specification .resolved) : Bool :=
  spec.sequences.toList.any fun sequence => sequence.kind == .random &&
    (spec.chain sequence).any fun id =>
      (((spec.component id).argument? "probability").bind Argument.functionRef?).any fun function =>
        (spec.component function).key == key

private theorem exists_probability {key : String} {spec : Specification .resolved}
    (found : hasProbability key spec = true) :
    ∃ sequence ∈ spec.sequences.toList, sequence.kind = .random ∧
      ∃ id ∈ spec.chain sequence, ∃ function : ComponentId,
        (spec.component id).argument? "probability" =
            some (@Argument.functionRef .resolved function) ∧
          (spec.component function).key = key := by
  obtain ⟨sequence, member, found⟩ := List.any_eq_true.mp found
  obtain ⟨random, found⟩ := Bool.and_eq_true_iff.mp found
  obtain ⟨id, inside, found⟩ := List.any_eq_true.mp found
  rw [Option.any_eq_true] at found
  obtain ⟨function, picked, keyed⟩ := found
  obtain ⟨argument, held, picked⟩ := Option.bind_eq_some_iff.mp picked
  rw [Argument.eq_functionRef picked] at held
  exact ⟨sequence, member, beq_iff_eq.mp random, id, inside, function, held, beq_iff_eq.mp keyed⟩

set_option maxRecDepth 100000 in
private theorem exists_compiled_quoted :
    ∃ spec report after, readDocument quotedText = .ok spec ∧
      hasProbability "a\"b" spec = true ∧ (spec.plan "Shop").failure = none ∧
      compileInMemory {} "Shop" quotedText = (.ok report, after) := by
  refine exists_compiled_of_isRenderable parse_quotedText ?_ {} "Shop"
  cbv

set_option maxRecDepth 100000 in
private theorem exists_compiled_probability :
    ∃ spec report after, readDocument forwardText = .ok spec ∧ hasProbability "f" spec = true ∧
      (spec.plan "Shop").failure = none ∧
      compileInMemory {} "Shop" forwardText = (.ok report, after) := by
  refine exists_compiled_of_isRenderable parse_forwardText ?_ {} "Shop"
  cbv

end Prototype.Sample

section

open Prototype.Sample

/-- A function with the key `f` is registered and looked up by the same constant. -/
theorem plain_function_key_agrees :
    ∃ spec report after, readDocument forwardText = .ok spec ∧
      compileInMemory {} "Shop" forwardText = (.ok report, after) ∧
      ∃ sequence ∈ spec.sequences.toList, ∃ id function,
        RecordContext.UsesFunction ⟨spec, sequence, "Shop"⟩ (spec.plan "Shop").headers id function
          "\"f\"" "\"f\"" := by
  obtain ⟨spec, report, after, read, found, -, compiled⟩ := exists_compiled_probability
  obtain ⟨sequence, member, random, id, inside, function, held, keyed⟩ := exists_probability found
  obtain ⟨other, again, uses⟩ := compile_function_keys compiled
  obtain rfl := Except.ok.inj (read.symm.trans again)
  obtain ⟨registration, lookup, used, rfl, -, agree⟩ :=
    uses sequence member random id inside "probability" function held
  rw [keyed] at used agree
  have quoted : Text.Quoted.string "f" = "\"f\"" := by decide
  rw [agree.mpr (by decide), quoted] at used
  exact ⟨spec, report, after, read, compiled, sequence, member, id, function, used⟩

/-- A function with the key `a"b` is registered by a quoted constant, but not looked up by it. -/
theorem quoted_function_key_differs :
    ∃ spec report after, readDocument quotedText = .ok spec ∧
      compileInMemory {} "Shop" quotedText = (.ok report, after) ∧
      ∃ sequence ∈ spec.sequences.toList, ∃ id function,
        RecordContext.UsesFunction ⟨spec, sequence, "Shop"⟩ (spec.plan "Shop").headers id function
          "\"a\\\"b\"" "\"a\"b\"" := by
  obtain ⟨spec, report, after, read, found, complete, compiled⟩ := exists_compiled_quoted
  obtain ⟨sequence, member, random, id, inside, function, held, keyed⟩ := exists_probability found
  have used := Specification.usesFunction_of_chain (linked_of_readDocument read) complete member
    random inside held
  have quoted : Text.Quoted.string "a\"b" = "\"a\\\"b\"" := by decide
  have verbatim : "\"" ++ "a\"b" ++ "\"" = "\"a\"b\"" := by decide
  rw [keyed, quoted, verbatim] at used
  exact ⟨spec, report, after, read, compiled, sequence, member, id, function, used⟩

end

end Recordgen

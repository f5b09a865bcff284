import Recordgen.Proofs.DeclarationOrder
import Recordgen.Proofs.SetterTargets

/-! # The identifiers of a setter chain

Beside the type names and variables of its members, the class of a setter chain declares the variable
`_sequenceCardinality`, the function `filter` and one function for each callback, whose name is
written in the document. Type names end in a number and so do the variables of nested members, but
the variable of a setter is formed from its key (`ChainNames.mem_taken_assign_iff`). So the variable
`_sequenceCardinality` is declared twice exactly if a setter has a key of that form, and a callback
clashes exactly if its name is one of the others (`compile_chain_identifiers_iff`). A callback whose
name starts with a small letter can only clash with `filter` (`ChainNames.notMem_of_small`).
-/

namespace Recordgen

open Outcome

open Naming (lowerCamel)

/-- Whether a name ends in a digit. -/
def endsInDigit (name : String) : Bool :=
  name.toList.getLast?.any Char.isDigit

private theorem endsInDigit_append_padTwo (start : String) (number : Nat) :
    endsInDigit (start ++ Text.padTwo number) = true := by
  have filled : (Text.padTwo number).toList ≠ [] := by
    rw [Text.toList_padTwo]
    split
    · exact List.cons_ne_nil _ _
    · exact Nat.toDigits_ne_nil
  rw [endsInDigit, String.toList_append, List.getLast?_append_of_ne_nil _ filled,
    List.getLast?_eq_some_getLast filled, Option.any_some]
  exact Text.isDigit_of_mem_padTwo (List.getLast_mem filled)

namespace ChainNames

/-- The type names given out. -/
def aliases (names : ChainNames) : List String :=
  names.members.map ChainMember.typeName

private theorem numberedType_eq (className : String) (number : Nat) :
    numberedType className number = className ++ "Type" ++ Text.padTwo number := by
  simp [numberedType, toString]

theorem numberedVariable_eq (className : String) (number : Nat) :
    numberedVariable className number = Naming.member className ++ Text.padTwo number := by
  simp [numberedVariable, Naming.member, toString]

section Push

variable (names : ChainNames) (className : String) (number : Nat) (member : ChainMember)

@[simp]
private theorem aliases_push :
    (names.push className number member).aliases = names.aliases ++ [member.typeName] :=
  List.map_append

@[simp]
theorem taken_push :
    (names.push className number member).taken = names.taken ++ [member.memberName] :=
  List.map_append

end Push

variable {spec : Specification .resolved} {setters : List ComponentId} {names : ChainNames}

/-- The variable of a setter is the one of its key, or has a number behind it. In the second case
the one of its key is taken. -/
theorem setterVariable_cases (names : ChainNames) (key : String) :
    names.setterVariable key = Naming.member key ∨
      Naming.member key ∈ names.taken ∧
        ∃ number, names.setterVariable key = Naming.member key ++ Text.padTwo number := by
  unfold setterVariable
  dsimp only
  split
  · rename_i taken
    exact .inr ⟨List.contains_iff_mem.mp taken, _, rfl⟩
  · exact .inl rfl

/-- The names given out have the form that members have: type names are those of a class with a
number, and a variable is that of one of the setters or has a number. -/
structure Spelled (spec : Specification .resolved) (setters : List ComponentId)
    (names : ChainNames) : Prop where
  types : ∀ name ∈ names.aliases, ∃ (kind : Kind) (number : Nat),
    name = numberedType kind.entry.className number
  vars : ∀ name ∈ names.taken,
    (∃ id ∈ setters, name = Naming.member (spec.component id).key) ∨
      ∃ key number, name = Naming.member key ++ Text.padTwo number

theorem Spelled.push (spelled : names.Spelled spec setters) {kind : Kind} {number : Nat}
    {id : ComponentId} {memberName : String}
    (written : (∃ id ∈ setters, memberName = Naming.member (spec.component id).key) ∨
      ∃ key number, memberName = Naming.member key ++ Text.padTwo number) :
    (names.push kind.entry.className number
      ⟨id, numberedType kind.entry.className number, memberName⟩).Spelled spec setters := by
  constructor
  · rw [aliases_push, List.forall_mem_append, List.forall_mem_singleton]
    exact ⟨spelled.types, kind, number, rfl⟩
  · rw [taken_push, List.forall_mem_append, List.forall_mem_singleton]
    exact ⟨spelled.vars, written⟩

/-- Each step of the walk spells its name in one of the two ways. -/
theorem Spelled.visit (spelled : names.Spelled spec setters) {event : WalkEvent}
    (known : ∀ id, event = .leave (.setter id) → id ∈ setters) :
    (visit spec names event).Spelled spec setters := by
  unfold ChainNames.visit
  split
  · rename_i id
    apply spelled.push
    rcases names.setterVariable_cases (spec.component id).key with same | ⟨-, number, same⟩
    · exact .inl ⟨id, known id rfl, same⟩
    · exact .inr ⟨_, number, same⟩
  · dsimp only
    split
    · apply spelled.push
      exact .inr ⟨_, _, numberedVariable_eq _ _⟩
    · exact spelled
  · exact spelled

private theorem taken_subset_visit (spec : Specification .resolved) (names : ChainNames)
    (event : WalkEvent) : names.taken ⊆ (visit spec names event).taken := by
  unfold visit
  split
  · rw [nameSetter, taken_push]
    exact List.subset_append_left _ _
  · dsimp only
    split
    · rw [nameNested, taken_push]
      exact List.subset_append_left _ _
    · exact List.Subset.refl _
  · exact List.Subset.refl _

/-- Once a setter is named, the variable of its key is taken, by this setter or by one before. -/
theorem member_mem_taken_visit (spec : Specification .resolved) (names : ChainNames)
    (id : ComponentId) :
    Naming.member (spec.component id).key ∈ (visit spec names (.leave (.setter id))).taken := by
  rw [visit, nameSetter, taken_push, List.mem_append, List.mem_singleton]
  rcases names.setterVariable_cases (spec.component id).key with same | ⟨taken, -⟩
  · exact .inr same.symm
  · exact .inl taken

/-- **Naming the members.** What is named in a walk has the form of members, and the variable of
every setter that is left is taken. -/
theorem spelled_foldl {events : List WalkEvent} (spelled : names.Spelled spec setters)
    (known : ∀ id, .leave (.setter id) ∈ events → id ∈ setters) :
    (events.foldl (visit spec) names).Spelled spec setters ∧
      names.taken ⊆ (events.foldl (visit spec) names).taken ∧
      ∀ id, .leave (.setter id) ∈ events →
        Naming.member (spec.component id).key ∈ (events.foldl (visit spec) names).taken := by
  induction events generalizing names with
  | nil => exact ⟨spelled, List.Subset.refl _, nofun⟩
  | cons event events ih =>
      have here := spelled.visit fun id same => known id (same ▸ List.mem_cons_self)
      obtain ⟨whole, kept, left⟩ := ih here fun id later => known id (List.mem_cons_of_mem _ later)
      rw [List.foldl_cons]
      refine ⟨whole, List.Subset.trans (taken_subset_visit spec names event) kept,
        fun id listed => ?_⟩
      rcases List.mem_cons.mp listed with rfl | later
      · exact kept (member_mem_taken_visit spec names id)
      · exact left id later

/-- The walk over a sequence leaves its setters, and no other setter. -/
theorem leave_setter_mem_walkSequence {sequence : RecordSequence} {id : ComponentId}
    (wellFormed : spec.WellFormed) (member : sequence ∈ spec.sequences.toList) :
    .leave (.setter id) ∈ spec.walkSequence sequence ↔ id ∈ sequence.setters := by
  have nested : ∀ inner, WalkEvent.leave (.setter id) ∉ spec.walkComponent inner := by
    intro inner inside
    have visited := (Specification.walkComponent_perm inner).mem_iff.mp inside
    simp [Specification.visits] at visited
  have ordered := (spec.orderedSetters_perm sequence).map Component.id
  rw [wellFormed.map_setters member] at ordered
  rw [← ordered.mem_iff, List.mem_map]
  simp [Specification.walkSequence, Specification.walkSetter, walkInside, nested, eq_comm]

variable {sequence : RecordSequence}

section

variable (wellFormed : spec.WellFormed) (member : sequence ∈ spec.sequences.toList)

include wellFormed member

private theorem spelled_assign :
    (assign spec sequence).Spelled spec sequence.setters ∧
      ∀ id ∈ sequence.setters,
        Naming.member (spec.component id).key ∈ (assign spec sequence).taken := by
  have walked : ∀ id, .leave (.setter id) ∈ spec.walkSequence sequence ↔ id ∈ sequence.setters :=
    fun _ => leave_setter_mem_walkSequence wellFormed member
  have start : ∀ reserved, ({ reserved := reserved } : ChainNames).Spelled spec sequence.setters :=
    fun _ => ⟨List.forall_mem_nil _, List.forall_mem_nil _⟩
  obtain ⟨spelled, -, left⟩ := spelled_foldl (start _) fun id => (walked id).mp
  exact ⟨spelled, fun id listed => left id ((walked id).mpr listed)⟩

/-- **Variables without a number** are those of the keys of setters. -/
theorem mem_taken_assign_iff {name : String}
    (unnumbered : endsInDigit name = false) :
    name ∈ (assign spec sequence).taken ↔
      ∃ id ∈ sequence.setters, Naming.member (spec.component id).key = name := by
  obtain ⟨spelled, setters⟩ := spelled_assign wellFormed member
  constructor
  · intro taken
    rcases spelled.vars name taken with ⟨id, listed, same⟩ | ⟨key, number, rfl⟩
    · exact ⟨id, listed, same.symm⟩
    · rw [endsInDigit_append_padTwo] at unnumbered
      cases unnumbered
  · rintro ⟨id, listed, rfl⟩
    exact setters id listed

/-- Type names end in a number. -/
theorem endsInDigit_of_mem_aliases {name : String}
    (listed : name ∈ (assign spec sequence).aliases) : endsInDigit name = true := by
  obtain ⟨kind, number, rfl⟩ := (spelled_assign wellFormed member).1.types name listed
  rw [numberedType_eq]
  exact endsInDigit_append_padTwo _ _

/-- Type names start with a capital. -/
theorem head?_of_mem_aliases {name : String}
    (listed : name ∈ (assign spec sequence).aliases) :
    name.toList.head?.any Char.isUpper = true := by
  obtain ⟨kind, number, rfl⟩ := (spelled_assign wellFormed member).1.types name listed
  have capital : kind.entry.className.toList.head?.any Char.isUpper = true := by
    cases kind <;> decide
  rw [numberedType_eq]
  cases start : kind.entry.className.toList with
  | nil =>
      rw [start] at capital
      cases capital
  | cons c rest =>
      rw [start] at capital
      simpa [start] using capital

/-- Variables start with an underscore. -/
theorem head?_of_mem_taken {name : String}
    (listed : name ∈ (assign spec sequence).taken) : name.toList.head? = some '_' := by
  rcases (spelled_assign wellFormed member).1.vars name listed with
    ⟨id, -, rfl⟩ | ⟨key, number, rfl⟩ <;> simp [Naming.member]

end

/-- What the class of a setter chain declares for itself. -/
def ownNames : List String :=
  ["_sequenceCardinality", "filter"]

/-- Members have names that the class does not use itself, exactly if no setter has a key that is
spelled `sequenceCardinality` in its variable. -/
theorem apart_ownNames_iff (wellFormed : spec.WellFormed)
    (member : sequence ∈ spec.sequences.toList) :
    (∀ name ∈ (assign spec sequence).aliases ++ (assign spec sequence).taken, name ∉ ownNames) ↔
      ∀ id ∈ sequence.setters, lowerCamel (spec.component id).key ≠ "sequenceCardinality" := by
  have spelled : "_sequenceCardinality" = "_" ++ "sequenceCardinality" := by decide
  have setter : "_sequenceCardinality" ∈ (assign spec sequence).taken ↔
      ∃ id ∈ sequence.setters, lowerCamel (spec.component id).key = "sequenceCardinality" := by
    rw [mem_taken_assign_iff wellFormed member (by decide), spelled]
    simp only [Naming.member, String.append_right_inj]
  constructor
  · intro apart id listed same
    apply apart "_sequenceCardinality"
    · exact List.mem_append_right _ (setter.mpr ⟨id, listed, same⟩)
    · exact List.mem_cons_self
  · intro free name listed reserved
    rcases List.mem_append.mp listed with listed | listed
    · have unnumbered : ∀ name ∈ ownNames, endsInDigit name = false := by decide
      have numbered := endsInDigit_of_mem_aliases wellFormed member listed
      rw [unnumbered name reserved] at numbered
      cases numbered
    · rcases List.mem_cons.mp reserved with rfl | same
      · obtain ⟨id, present, same⟩ := setter.mp listed
        exact free id present same
      · obtain rfl := List.mem_singleton.mp same
        exact absurd (head?_of_mem_taken wellFormed member listed) (by decide)

/-- No type name or variable is declared for something else, be it the class itself or a callback, and
no callback has a name that the class uses itself. -/
def Unambiguous (names : ChainNames) (hooks : List String) : Prop :=
  (∀ name ∈ names.aliases ++ names.taken, name ∉ ownNames ∧ name ∉ hooks) ∧
    ∀ hook ∈ hooks, hook ∉ ownNames

section

variable (wellFormed : spec.WellFormed) (member : sequence ∈ spec.sequences.toList)

include wellFormed member

/-- **When a chain is unambiguous:** no setter has a key that is spelled `sequenceCardinality` in its
variable, and no callback has a name that is declared otherwise. -/
theorem unambiguous_assign_iff {hooks : List String} :
    (assign spec sequence).Unambiguous hooks ↔
      (∀ id ∈ sequence.setters, lowerCamel (spec.component id).key ≠ "sequenceCardinality") ∧
        ∀ hook ∈ hooks, hook ∉ ownNames ∧
          hook ∉ (assign spec sequence).aliases ++ (assign spec sequence).taken := by
  rw [← apart_ownNames_iff wellFormed member, Unambiguous]
  constructor
  · intro ⟨names, hooks⟩
    refine ⟨fun name listed => (names name listed).1, fun hook called => ⟨hooks hook called, ?_⟩⟩
    exact fun listed => (names hook listed).2 called
  · intro ⟨names, hooks⟩
    refine ⟨fun name listed => ⟨names name listed, ?_⟩, fun hook called => (hooks hook called).1⟩
    exact fun called => (hooks name called).2 listed

/-- **A name without a number** is given to a member exactly if it is the variable of a setter's
key. -/
theorem mem_names_iff_of_unnumbered {name : String}
    (unnumbered : endsInDigit name = false) :
    name ∈ (assign spec sequence).aliases ++ (assign spec sequence).taken ↔
      ∃ id ∈ sequence.setters, Naming.member (spec.component id).key = name := by
  rw [List.mem_append, mem_taken_assign_iff wellFormed member unnumbered, or_iff_right]
  intro listed
  rw [endsInDigit_of_mem_aliases wellFormed member listed] at unnumbered
  cases unnumbered

/-- A name that starts with a small letter is given to no member. -/
theorem notMem_of_small {name : String}
    (small : name.toList.head?.any Char.isLower = true) :
    name ∉ (assign spec sequence).aliases ++ (assign spec sequence).taken := by
  intro listed
  obtain ⟨c, first, lower⟩ := (Option.any_eq_true ..).mp small
  rcases List.mem_append.mp listed with listed | listed
  · have capital := head?_of_mem_aliases wellFormed member listed
    rw [first, Option.any_some] at capital
    exact Char.not_isLower_of_isUpper capital lower
  · rw [head?_of_mem_taken wellFormed member listed] at small
    cases small

end

end ChainNames

namespace RecordContext

variable {context : RecordContext} {names : ChainNames}

/-- A callback that is collected is known afterwards, and nothing else changes. -/
theorem get?_of_collected {types after : KeyMap String} {callback : Option Callback}
    (collected : callback.elim (.ok types) (context.addCallback types) = .ok after)
    (name spelling : String) :
    after.get? name = some spelling ↔
      callback = some ⟨name, spelling⟩ ∨ types.get? name = some spelling := by
  cases callback with
  | none =>
      obtain rfl := Except.ok.inj collected
      exact (or_iff_right nofun).symm
  | some callback =>
      have agrees : ∀ type, types.get? callback.name = some type → type = callback.type := by
        intro type known
        by_contra different
        rw [Option.elim_some, addCallback_eq_error known different] at collected
        cases collected
      obtain ⟨other, again, knows⟩ := exists_addCallback agrees
      obtain rfl := Except.ok.inj (again.symm.trans collected)
      rw [knows, Option.some.injEq]

/-- The callbacks that are collected are those that the members declare. -/
theorem told_of_chainDeclarations {types after : KeyMap String} {ids : List ComponentId}
    {arena : List (Component .resolved)}
    (conform : ∀ id ∈ ids, (context.spec.component id).Conforms arena)
    {declarations : List ChainDeclaration}
    (declared : context.chainDeclarations names types ids = .ok (declarations, after))
    (name spelling : String) :
    after.get? name = some spelling ↔ Told context.spec types ids name spelling := by
  induction ids generalizing types declarations with
  | nil =>
      obtain ⟨-, rfl⟩ := Prod.mk.inj (Except.ok.inj declared)
      simp [Told]
  | cons id rest ih =>
      obtain ⟨here, later⟩ := List.forall_mem_cons.mp conform
      obtain ⟨callback, between, _, _, found, collected, -, rested, -⟩ :=
        chainDeclarations_cons_eq_ok declared
      rw [ih later rested]
      exact told_collected here found (get?_of_collected collected) rest name spelling

/-- What is declared are the members, in the order in which they are named. -/
theorem members_of_chainDeclarations {types after : KeyMap String}
    (distinct : names.postOrder.Nodup) {declarations : List ChainDeclaration}
    (declared : context.chainDeclarations names types names.postOrder = .ok (declarations, after)) :
    declarations.map ChainDeclaration.member = names.members := by
  have found : ∀ member ∈ names.members, names.find? member.id = some member := by
    intro member listed
    obtain ⟨other, known⟩ := ChainNames.exists_find? (List.mem_map_of_mem listed)
    obtain ⟨present, same⟩ := ChainNames.find?_eq_some known
    rw [known, List.inj_on_of_nodup_map distinct present listed same]
  have looked : names.postOrder.map names.find? =
      (declarations.map ChainDeclaration.member).map some := by
    rw [← List.forall₂_eq_eq_eq, List.forall₂_map_left_iff, List.forall₂_map_right_iff,
      List.forall₂_map_right_iff]
    exact (forall₂_of_chainDeclarations declared).imp fun _ _ here =>
      (chainDeclaration_eq_ok here).2.2.1
  have known : names.postOrder.map names.find? = names.members.map some := by
    rw [ChainNames.postOrder, List.map_map]
    exact List.map_congr_left found
  exact List.map_injective_iff.mpr (Option.some_injective _) (looked.symm.trans known)

/-- The names in the class of a setter chain: where headers declare them, and when each has one
meaning. -/
structure ChainIdentified (context : RecordContext) (headers : List HeaderPair)
    (callbacks : List Callback) : Prop where
  /-- The base class declares type names, callbacks, the filter and variables. -/
  declarations : ∃ chain ∈ headers, ∃ declarations setters,
    context.chainHeaders (ChainNames.assign context.spec context.sequence) = .ok chain ∧
    declarations.map ChainDeclaration.member =
      (ChainNames.assign context.spec context.sequence).members ∧
    chainTypes declarations <:+: chain.base.body ∧
    callbacks.flatMap context.callbackHook <:+: chain.base.body ∧
    context.chainFilter setters <:+: chain.base.body ∧
    .line "const I64u _sequenceCardinality;" :: declarations.map ChainDeclaration.variableStep <:+:
      chain.base.body
  /-- The callbacks are those that the members of the chain declare. -/
  hooks : ∀ name, name ∈ callbacks.map Callback.name ↔
    ∃ id ∈ context.spec.chain context.sequence, ∃ type,
      (context.spec.component id).Declares name type
  unambiguous : (ChainNames.assign context.spec context.sequence).Unambiguous
      (callbacks.map Callback.name) ↔
    (∀ id ∈ context.sequence.setters,
      lowerCamel (context.spec.component id).key ≠ "sequenceCardinality") ∧
    ∀ hook ∈ callbacks.map Callback.name, hook ∉ ChainNames.ownNames ∧
      hook ∉ (ChainNames.assign context.spec context.sequence).aliases ++
        (ChainNames.assign context.spec context.sequence).taken
  /-- A name that starts with a small letter is not that of a member. -/
  small : ∀ name, name.toList.head?.any Char.isLower = true →
    name ∉ (ChainNames.assign context.spec context.sequence).aliases ++
      (ChainNames.assign context.spec context.sequence).taken
  /-- A name without a number is that of a member only if it is formed from the key of a setter. -/
  unnumbered : ∀ name, endsInDigit name = false →
    (name ∈ (ChainNames.assign context.spec context.sequence).aliases ++
        (ChainNames.assign context.spec context.sequence).taken ↔
      ∃ id ∈ context.sequence.setters,
        Naming.member (context.spec.component id).key = name)

private theorem map_name_entries (types : KeyMap String) :
    (types.entries.map fun (name, type) => Callback.mk name type).map Callback.name =
      types.entries.map Prod.fst := by
  rw [List.map_map]
  rfl

private theorem chainIdentified {headers : List HeaderPair} (wellFormed : context.spec.WellFormed)
    (member : context.sequence ∈ context.spec.sequences.toList) {chain : HeaderPair}
    (listed : chain ∈ headers)
    (chained :
      context.chainHeaders (ChainNames.assign context.spec context.sequence) = .ok chain) :
    ∃ declarations types,
      context.chainDeclarations (ChainNames.assign context.spec context.sequence) {}
        (ChainNames.assign context.spec context.sequence).postOrder = .ok (declarations, types) ∧
      context.ChainIdentified headers
        (types.entries.map fun (name, type) => Callback.mk name type) := by
  obtain ⟨declarations, types, declared, typed, -, hooks, ⟨setters, filtered⟩, vars⟩ :=
    parts_of_chainHeaders chained
  have placed := ChainNames.postOrder_perm wellFormed member
  have conform : ∀ id ∈ (ChainNames.assign context.spec context.sequence).postOrder,
      (context.spec.component id).Conforms context.spec.components.toList := fun id inside =>
    wellFormed.conform _ (wellFormed.chain_member member (placed.mem_iff.mp inside)).1
  have named := members_of_chainDeclarations (ChainNames.postOrder_nodup wellFormed member) declared
  refine ⟨declarations, types, declared,
    ⟨chain, listed, declarations, setters, chained, named, typed, hooks, filtered, vars⟩,
    fun name => ?_, ChainNames.unambiguous_assign_iff wellFormed member,
    fun _ => ChainNames.notMem_of_small wellFormed member,
    fun _ => ChainNames.mem_names_iff_of_unnumbered wellFormed member⟩
  have told := told_of_chainDeclarations conform declared name
  rw [map_name_entries, KeyMap.mem_keys_iff]
  constructor
  · rintro ⟨spelling, known⟩
    rcases (told spelling).mp known with none | ⟨id, inside, type, declares, -⟩
    · cases none
    · exact ⟨id, placed.mem_iff.mp inside, type, declares⟩
  · rintro ⟨id, inside, type, declares⟩
    exact ⟨type.name, (told _).mpr (.inr ⟨id, placed.mem_iff.mpr inside, type, declares, rfl⟩)⟩

end RecordContext

/-- **The identifiers of a setter chain.** The chain of a random sequence in a document that is
compiled declares one function for each callback of its members, beside `_sequenceCardinality` and
`filter`. Its names have one meaning each exactly if no setter has a key that is spelled
`sequenceCardinality` in its variable, and no callback has a name that the class uses itself or that
is given to a member. No member has a name that starts with a small letter, and those without a
number are the variables of the setters' keys. -/
theorem compile_chain_identifiers_iff {store after : MemoryStore} {targetNamespace text : String}
    {report : Report} (compiled : compileInMemory store targetNamespace text = (.ok report, after)) :
    ∃ spec, readDocument text = .ok spec ∧
      ∀ sequence ∈ spec.sequences.toList, sequence.kind = .random →
        ∃ callbacks, RecordContext.ChainIdentified ⟨spec, sequence, targetNamespace⟩
          (spec.plan targetNamespace).headers callbacks := by
  obtain ⟨spec, read, complete, -⟩ := exists_complete_of_compiled compiled
  have linked := linked_of_readDocument read
  refine ⟨spec, read, fun sequence member random => ?_⟩
  obtain ⟨pairs, rendered, planned⟩ :=
    Specification.exists_headers_of_plan linked complete member random
  obtain ⟨chain, written, chained⟩ := RecordContext.exists_chainHeaders rendered
  obtain ⟨_, types, -, identified⟩ :=
    RecordContext.chainIdentified linked.wellFormed member (planned written) chained
  exact ⟨_, identified⟩

namespace Prototype.Sample

open Markup (Element)

/-- A setter of the field `x` by a callback. -/
def callbackSetter (key callback : String) : Element :=
  keyed "setter" key "field_setter" [
    link "field" "x",
    nested "value" "callback_value_provider[I32]" [literal "name" "String" callback]]

/-- A document with a chain whose names are all different, and one whose names are also those of the
class itself. -/
def hooksRoot : Element :=
  { name := rootName
    children := [
      { name := "record_sequences"
        children := [
          randomSequence "a" [numberField "x"] [callbackSetter "s" "pick"],
          randomSequence "b" [numberField "x"]
            [callbackSetter "sequence_cardinality" "filter"]] }] }

/-- The text of the document. -/
def hooksText : String :=
  String.ofList hooksRoot.print

private theorem parse_hooksText : Markup.parse hooksText = .ok hooksRoot :=
  Markup.Element.parse_print (by decide +kernel)

/-- Whether a sequence is random and has neither an output format nor ranges, with the keys of its
setters and the callbacks of its chain. -/
def chainKeys (spec : Specification .resolved) (sequence : RecordSequence) :
    Bool × List String × Option (List (Option Callback)) :=
  (sequence.kind == .random && sequence.outputFormat.isNone && (spec.chain sequence).all fun id =>
      (spec.component id).kind != .contextFieldRangeProvider,
    sequence.setters.map fun id => (spec.component id).key,
    ((spec.chain sequence).mapM fun id => RecordContext.callback? (spec.component id)).toOption)

section

variable {spec : Specification .resolved} {sequence : RecordSequence} {keys : List String}
  {callback : Callback}

section

variable (wellFormed : spec.WellFormed) (member : sequence ∈ spec.sequences.toList)
  (found : chainKeys spec sequence = (true, keys, some [none, some callback]))

include wellFormed member found

private theorem declares_iff_of_chainKeys (name spelling : String) :
    (∃ id ∈ spec.chain sequence, ∃ type,
      (spec.component id).Declares name type ∧ type.name = spelling) ↔
        callback = ⟨name, spelling⟩ := by
  have collected := mapM_eq_ok_iff.mp (toOption_eq_some_iff.mp (congrArg (·.2.2) found))
  have conform : ∀ id ∈ spec.chain sequence,
      (spec.component id).Conforms spec.components.toList := fun id inside =>
    wellFormed.conform _ (wellFormed.chain_member member inside).1
  constructor
  · rintro ⟨id, inside, declares⟩
    obtain ⟨given, listed, told⟩ := exists_right_of_mem collected inside
    rw [RecordContext.declares_iff (conform id inside) told] at declares
    subst declares
    simpa [eq_comm] using listed
  · rintro rfl
    obtain ⟨id, inside, told⟩ := exists_left_of_mem collected (.tail _ (.head _))
    exact ⟨id, inside, (RecordContext.declares_iff (conform id inside) told).mpr rfl⟩

private theorem not_blocked_of_chainKeys :
    ¬spec.Blocked sequence := by
  have collected := mapM_eq_ok_iff.mp (toOption_eq_some_iff.mp (congrArg (·.2.2) found))
  have simple := congrArg Prod.fst found
  simp only [chainKeys, Bool.and_eq_true, Option.isNone_iff_eq_none, List.all_eq_true,
    bne_iff_ne] at simple
  obtain ⟨⟨-, format⟩, ranges⟩ := simple
  intro blocked
  cases blocked with
  | format id listed bad =>
      rw [format] at listed
      cases listed
  | callback id inside bad =>
      obtain ⟨given, -, told⟩ := exists_right_of_mem collected inside
      have conforms := wellFormed.conform _ (wellFormed.chain_member member inside).1
      obtain ⟨fault, failed⟩ := (RecordContext.callback?_fails conforms).fails.mpr bad
      rw [told] at failed
      cases failed
  | conflict conflict =>
      obtain ⟨first, inside, second, also, name, type, other, one, two, different⟩ := conflict
      have declared := declares_iff_of_chainKeys wellFormed member found name
      have left := (declared _).mp ⟨first, inside, type, one, rfl⟩
      have right := (declared _).mp ⟨second, also, other, two, rfl⟩
      apply different
      apply LiteralType.name_injective
      exact (Callback.mk.inj (left.symm.trans right)).2
  | range id inside bad => exact ranges id inside bad.1

/-- The callback is the only one of the class. -/
theorem mem_hooks_iff_of_chainKeys {headers : List HeaderPair} {callbacks : List Callback}
    (identified : RecordContext.ChainIdentified ⟨spec, sequence, "Shop"⟩ headers callbacks)
    (hook : String) : hook ∈ callbacks.map Callback.name ↔ hook = callback.name := by
  have declared := declares_iff_of_chainKeys wellFormed member found hook
  rw [identified.hooks]
  constructor
  · rintro ⟨id, inside, type, declares⟩
    rw [(declared type.name).mp ⟨id, inside, type, declares, rfl⟩]
  · rintro rfl
    obtain ⟨id, inside, type, declares, -⟩ := (declared callback.type).mpr rfl
    exact ⟨id, inside, type, declares⟩

end

end

set_option maxRecDepth 100000 in
private theorem exists_compiled_hooks :
    ∃ spec report after, readDocument hooksText = .ok spec ∧
      decide (spec.sequences.toList.map (chainKeys spec) =
        [(true, ["s"], some [none, some ⟨"pick", "I32"⟩]),
          (true, ["sequence_cardinality"], some [none, some ⟨"filter", "I32"⟩])]) = true ∧
      (spec.plan "Shop").failure = none ∧
      compileInMemory {} "Shop" hooksText = (.ok report, after) := by
  refine exists_compiled_of_unblocked parse_hooksText (by cbv) ?_ {} "Shop"
  intro spec checked wellFormed sequence member
  have listed := List.mem_map_of_mem (f := chainKeys spec) member
  rw [of_decide_eq_true checked] at listed
  rcases List.mem_cons.mp listed with found | listed
  · exact not_blocked_of_chainKeys wellFormed member found
  · exact not_blocked_of_chainKeys wellFormed member (List.mem_singleton.mp listed)

/-- The sequences of the sample, found by the key of the setter and the callback. -/
theorem exists_hooks :
    ∃ spec report after, readDocument hooksText = .ok spec ∧ (spec.plan "Shop").failure = none ∧
      compileInMemory {} "Shop" hooksText = (.ok report, after) ∧
      ∀ entry ∈ [("s", Callback.mk "pick" "I32"),
          ("sequence_cardinality", Callback.mk "filter" "I32")],
        ∃ sequence ∈ spec.sequences.toList, sequence.kind = .random ∧
          sequence.setters.map (fun id => (spec.component id).key) = [entry.1] ∧
          chainKeys spec sequence = (true, [entry.1], some [none, some entry.2]) := by
  obtain ⟨spec, report, after, read, checked, complete, compiled⟩ := exists_compiled_hooks
  refine ⟨spec, report, after, read, complete, compiled, fun entry listed => ?_⟩
  have found : (true, [entry.1], some [none, some entry.2]) ∈
      spec.sequences.toList.map (chainKeys spec) := by
    rw [of_decide_eq_true checked]
    revert entry
    decide
  obtain ⟨sequence, member, same⟩ := List.mem_map.mp found
  have simple := congrArg Prod.fst same
  rw [chainKeys, Bool.and_eq_true, Bool.and_eq_true, beq_iff_eq] at simple
  exact ⟨sequence, member, simple.1.1, congrArg (·.2.1) same, same⟩

end Prototype.Sample

section

open Prototype.Sample

/-- A setter `s` with a callback `pick` has names of its own. -/
theorem pick_unambiguous :
    ∃ spec report after, readDocument hooksText = .ok spec ∧
      compileInMemory {} "Shop" hooksText = (.ok report, after) ∧
      ∃ sequence ∈ spec.sequences.toList, sequence.kind = .random ∧ ∃ callbacks,
        RecordContext.ChainIdentified ⟨spec, sequence, "Shop"⟩ (spec.plan "Shop").headers callbacks ∧
        "pick" ∈ callbacks.map Callback.name ∧
        (ChainNames.assign spec sequence).Unambiguous (callbacks.map Callback.name) := by
  obtain ⟨spec, report, after, read, -, compiled, entries⟩ := exists_hooks
  obtain ⟨sequence, member, random, keys, found⟩ := entries ("s", ⟨"pick", "I32"⟩) (.head _)
  obtain ⟨other, again, identified⟩ := compile_chain_identifiers_iff compiled
  obtain rfl := Except.ok.inj (read.symm.trans again)
  obtain ⟨callbacks, identified⟩ := identified sequence member random
  have wellFormed := (linked_of_readDocument read).wellFormed
  have hooks := mem_hooks_iff_of_chainKeys wellFormed member found identified
  have keyed : ∀ id ∈ sequence.setters, (spec.component id).key = "s" := by
    intro id listed
    have among := List.mem_map_of_mem (f := fun id => (spec.component id).key) listed
    rw [keys] at among
    exact List.mem_singleton.mp among
  refine ⟨spec, report, after, read, compiled, sequence, member, random, callbacks, identified,
    (hooks _).mpr rfl, identified.unambiguous.mpr ⟨?_, ?_⟩⟩
  · intro id listed
    rw [keyed id listed]
    decide
  · intro hook called
    obtain rfl := (hooks hook).mp called
    exact ⟨by decide, identified.small "pick" (by decide)⟩

/-- A setter `sequence_cardinality` with a callback `filter` has the names of the class itself. -/
theorem filter_callback_ambiguous :
    ∃ spec report after, readDocument hooksText = .ok spec ∧
      compileInMemory {} "Shop" hooksText = (.ok report, after) ∧
      ∃ sequence ∈ spec.sequences.toList, sequence.kind = .random ∧ ∃ callbacks,
        RecordContext.ChainIdentified ⟨spec, sequence, "Shop"⟩ (spec.plan "Shop").headers callbacks ∧
        "_sequenceCardinality" ∈ (ChainNames.assign spec sequence).taken ∧
        "filter" ∈ callbacks.map Callback.name := by
  obtain ⟨spec, report, after, read, complete, compiled, entries⟩ := exists_hooks
  obtain ⟨sequence, member, random, keys, found⟩ :=
    entries ("sequence_cardinality", ⟨"filter", "I32"⟩) (.tail _ (.head _))
  have linked := linked_of_readDocument read
  obtain ⟨pairs, rendered, planned⟩ :=
    Specification.exists_headers_of_plan linked complete member random
  obtain ⟨chain, written, chained⟩ := RecordContext.exists_chainHeaders rendered
  obtain ⟨_, types, -, identified⟩ :=
    RecordContext.chainIdentified linked.wellFormed member (planned written) chained
  obtain ⟨id, listed, keyed⟩ := List.mem_map.mp (keys ▸ List.mem_singleton_self _)
  refine ⟨spec, report, after, read, compiled, sequence, member, random, _, identified, ?_,
    (mem_hooks_iff_of_chainKeys linked.wellFormed member found identified _).mpr rfl⟩
  rw [ChainNames.mem_taken_assign_iff linked.wellFormed member (by decide)]
  exact ⟨id, listed, by rw [keyed]; decide⟩

end

end Recordgen

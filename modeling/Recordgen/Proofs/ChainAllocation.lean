import Recordgen.Proofs.ChainIdentifiers

/-! # How the members of a setter chain are named

A member gets the first number that is free (`FirstFree`). Since no two numbers give the same
variable, the search for it ends (`firstFree_spec`). Variables that setters claim are passed over,
so one is taken only by a setter that claims it (`ChainNames.Apart`). All variables of a chain are
therefore different, and the first setter that claims a variable gets it.
-/

namespace Recordgen

open Naming (lowerCamel)

/-- The first number from `start` on whose name is not taken. -/
structure FirstFree (name : Nat → String) (taken : List String) (start number : Nat) : Prop where
  start_le : start ≤ number
  free : name number ∉ taken
  passed : ∀ earlier, start ≤ earlier → earlier < number → name earlier ∈ taken

section Search

variable {name : Nat → String} {taken : List String}

/-- A search ends at the first free number, or it passes over as many as it may. -/
theorem firstFree_or_taken (name : Nat → String) (taken : List String) (tries start : Nat) :
    FirstFree name taken start (firstFree name taken tries start) ∨
      ∀ number, start ≤ number → number < start + tries → name number ∈ taken := by
  induction tries generalizing start with
  | zero =>
      right
      intro number above below
      omega
  | succ tries ih =>
      rw [firstFree]
      by_cases used : name start ∈ taken
      · rw [if_pos (List.contains_iff_mem.mpr used)]
        have passed : ∀ number, start ≤ number → (start + 1 ≤ number → name number ∈ taken) →
            name number ∈ taken := by
          intro number above later
          by_cases first : number = start
          · exact first ▸ used
          · exact later (by omega)
        rcases ih (start + 1) with found | all
        · left
          refine ⟨Nat.le_of_succ_le found.start_le, found.free, fun earlier above below => ?_⟩
          exact passed earlier above fun later => found.passed earlier later below
        · right
          intro number above below
          exact passed number above fun later => all number later (by omega)
      · rw [if_neg (mt List.contains_iff_mem.mp used)]
        left
        refine ⟨Nat.le_refl _, used, fun earlier above below => ?_⟩
        omega

/-- **The search ends.** Of more names than there are taken, one is free. -/
theorem firstFree_spec (injective : Function.Injective name) (taken : List String) (start : Nat) :
    FirstFree name taken start (firstFree name taken (taken.length + 1) start) := by
  rcases firstFree_or_taken name taken (taken.length + 1) start with found | all
  · exact found
  · exfalso
    have numbers : (List.range' start (taken.length + 1)).Nodup := List.nodup_range'
    have distinct := numbers.map injective
    have inside : (List.range' start (taken.length + 1)).map name ⊆ taken := by
      intro used member
      obtain ⟨number, listed, rfl⟩ := List.mem_map.mp member
      obtain ⟨above, below⟩ := List.mem_range'_1.mp listed
      exact all number above below
    have bounded := (distinct.subperm inside).length_le
    rw [List.length_map, List.length_range'] at bounded
    omega

private theorem append_padTwo_injective (start : String) :
    Function.Injective fun number => start ++ Text.padTwo number := by
  intro number other same
  have digits : Text.padTwo number = Text.padTwo other := (String.append_right_inj start).mp same
  rw [← Text.ofDigitChars_padTwo number, digits, Text.ofDigitChars_padTwo]

end Search

namespace ChainNames

variable {spec : Specification .resolved} {setters : List ComponentId} {names : ChainNames}

private theorem numberedVariable_injective (className : String) :
    Function.Injective (numberedVariable className) := by
  rw [funext (numberedVariable_eq className)]
  exact append_padTwo_injective _

/-- A nested component gets the first number of its class whose variable is free. -/
theorem exists_nameNested (names : ChainNames) (component : Component .resolved) :
    ∃ number, FirstFree (numberedVariable component.kind.entry.className)
        (names.taken ++ names.reserved) (names.count component.kind.entry.className + 1) number ∧
      names.nameNested component = names.push component.kind.entry.className number
        ⟨component.id, numberedType component.kind.entry.className number,
          numberedVariable component.kind.entry.className number⟩ :=
  ⟨_, firstFree_spec (numberedVariable_injective _) _ _, rfl⟩

/-- A setter gets the variable of its key. If that is taken, it gets the first number behind it that
makes it free. -/
theorem setterVariable_spec (names : ChainNames) (key : String) :
    (Naming.member key ∉ names.taken ∧ names.setterVariable key = Naming.member key) ∨
      Naming.member key ∈ names.taken ∧ ∃ number,
        FirstFree (fun number => Naming.member key ++ Text.padTwo number)
          (names.taken ++ names.reserved) 2 number ∧
        names.setterVariable key = Naming.member key ++ Text.padTwo number := by
  unfold setterVariable
  by_cases used : Naming.member key ∈ names.taken
  · rw [if_pos (List.contains_iff_mem.mpr used)]
    exact .inr ⟨used, _, firstFree_spec (append_padTwo_injective _) _ _, rfl⟩
  · rw [if_neg (mt List.contains_iff_mem.mp used)]
    exact .inl ⟨used, rfl⟩

/-- No variable is given out twice, and one that setters claim is taken only by such a setter. -/
structure Apart (spec : Specification .resolved) (setters : List ComponentId)
    (names : ChainNames) : Prop where
  reserved : names.reserved = setters.map fun id => Naming.member (spec.component id).key
  distinct : names.taken.Nodup
  claimed : ∀ name ∈ names.taken, name ∈ names.reserved →
    ∃ id ∈ names.postOrder, id ∈ setters ∧ Naming.member (spec.component id).key = name

namespace Apart

variable (apart : names.Apart spec setters)

include apart

/-- A fresh name keeps the names apart, if only its own setter has claimed it. -/
theorem push {className : String} {number : Nat} {member : ChainMember}
    (fresh : member.memberName ∉ names.taken)
    (claim : member.memberName ∈ names.reserved →
      member.id ∈ setters ∧ Naming.member (spec.component member.id).key = member.memberName) :
    (names.push className number member).Apart spec setters := by
  have order : (names.push className number member).postOrder = names.postOrder ++ [member.id] :=
    List.map_append
  refine ⟨apart.reserved, ?_, ?_⟩
  · rw [taken_push]
    refine List.nodup_append.mpr ⟨apart.distinct, List.nodup_singleton _, ?_⟩
    intro name before other alone same
    obtain rfl := List.mem_singleton.mp alone
    exact fresh (same ▸ before)
  · rw [taken_push, order, List.forall_mem_append, List.forall_mem_singleton]
    constructor
    · intro name before claimed
      obtain ⟨id, named, rest⟩ := apart.claimed name before claimed
      exact ⟨id, List.mem_append_left _ named, rest⟩
    · intro claimed
      exact ⟨member.id, List.mem_append_right _ (List.mem_singleton_self _), claim claimed⟩

theorem nameNested (component : Component .resolved) :
    (names.nameNested component).Apart spec setters := by
  obtain ⟨number, found, same⟩ := names.exists_nameNested component
  have free := found.free
  rw [List.mem_append, not_or] at free
  rw [same]
  exact apart.push free.1 fun claimed => absurd claimed free.2

theorem nameSetter {id : ComponentId} (setter : id ∈ setters)
    (placed : (spec.component id).id = id) :
    (names.nameSetter (spec.component id)).Apart spec setters := by
  unfold ChainNames.nameSetter
  rcases names.setterVariable_spec (spec.component id).key with
    ⟨unused, same⟩ | ⟨-, number, found, same⟩
  · rw [same, placed]
    exact apart.push unused fun _ => ⟨setter, rfl⟩
  · have free := found.free
    rw [List.mem_append, not_or] at free
    rw [same]
    exact apart.push free.1 fun claimed => absurd claimed free.2

/-- A step of the walk keeps the names apart. -/
theorem visit {event : WalkEvent}
    (known : ∀ id, event = .leave (.setter id) → id ∈ setters ∧ (spec.component id).id = id) :
    (visit spec names event).Apart spec setters := by
  unfold ChainNames.visit
  split
  · rename_i id
    obtain ⟨setter, placed⟩ := known id rfl
    exact apart.nameSetter setter placed
  · rename_i id
    by_cases nested : (spec.component id).parent.isSome
    · rw [if_pos nested]
      exact apart.nameNested _
    · rw [if_neg nested]
      exact apart
  · exact apart

end Apart

private theorem apart_foldl {events : List WalkEvent} (apart : names.Apart spec setters)
    (known : ∀ id, .leave (.setter id) ∈ events → id ∈ setters ∧ (spec.component id).id = id) :
    (events.foldl (ChainNames.visit spec) names).Apart spec setters := by
  induction events generalizing names with
  | nil => exact apart
  | cons event events ih =>
      rw [List.foldl_cons]
      apply ih
      · exact apart.visit fun id same => known id (same ▸ List.mem_cons_self)
      · exact fun id later => known id (List.mem_cons_of_mem _ later)

private theorem members_subset_foldl (names : ChainNames) (events : List WalkEvent) :
    names.members ⊆ (events.foldl (ChainNames.visit spec) names).members := by
  induction events generalizing names with
  | nil => exact List.Subset.refl _
  | cons event events ih =>
      rw [List.foldl_cons]
      refine List.Subset.trans ?_ (ih _)
      unfold ChainNames.visit
      split
      · exact List.subset_append_left _ _
      · dsimp only
        split
        · exact List.subset_append_left _ _
        · exact List.Subset.refl _
      · exact List.Subset.refl _

private theorem exists_mem_nameSetter (names : ChainNames) (setter : Component .resolved) :
    ∃ typeName, ⟨setter.id, typeName, names.setterVariable setter.key⟩ ∈
      (names.nameSetter setter).members :=
  ⟨_, List.mem_append_right _ (List.mem_singleton_self _)⟩

section Assignment

variable {sequence : RecordSequence} (wellFormed : spec.WellFormed)
  (member : sequence ∈ spec.sequences.toList) {id : ComponentId}

include wellFormed member

private theorem known_of_left (left : .leave (.setter id) ∈ spec.walkSequence sequence) :
    id ∈ sequence.setters ∧ (spec.component id).id = id := by
  have setter := (leave_setter_mem_walkSequence wellFormed member).mp left
  exact ⟨setter, (wellFormed.component_of_setter member setter).2.1⟩

private theorem apart_assign : (assign spec sequence).Apart spec sequence.setters :=
  apart_foldl ⟨rfl, List.nodup_nil, List.forall_mem_nil _⟩
    fun _ left => known_of_left wellFormed member left

/-- The setters of a chain are named by ascending order key. -/
theorem setters_ascend :
    ((assign spec sequence).postOrder.filter (· ∈ sequence.setters)).Pairwise
      fun first second => (spec.component first).order < (spec.component second).order := by
  refine List.pairwise_iff_forall_sublist.mpr fun {first second} pair => ?_
  have setter : ∀ id ∈ [first, second], id ∈ sequence.setters := fun id listed =>
    of_decide_eq_true (List.mem_filter.mp (pair.subset listed)).2
  have ordered := pair.trans List.filter_sublist
  have different : second ≠ first := by
    rintro rfl
    have distinct := (postOrder_nodup wellFormed member).sublist ordered
    simp at distinct
  refine (setter_precedes_iff wellFormed member (setter first (by simp)) (setter second (by simp))
    ?_ different).mp ordered
  rw [Specification.subtree_eq wellFormed.childrenFollow]
  exact List.mem_cons_self

/-- A member that is named when a setter is left. -/
theorem exists_named (setter : id ∈ sequence.setters) :
    ∃ names : ChainNames, names.Apart spec sequence.setters ∧
      (∀ other ∈ names.postOrder, [other, id].Sublist (assign spec sequence).postOrder) ∧
      ∃ typeName, ⟨id, typeName, names.setterVariable (spec.component id).key⟩ ∈
        (assign spec sequence).members := by
  have left := (leave_setter_mem_walkSequence wellFormed member).mpr setter
  have placed := (wellFormed.component_of_setter member setter).2.1
  obtain ⟨before, after, split⟩ := List.append_of_mem left
  let start : ChainNames :=
    { reserved := sequence.setters.map fun id => Naming.member (spec.component id).key }
  have named : assign spec sequence = after.foldl (ChainNames.visit spec)
      ((before.foldl (ChainNames.visit spec) start).nameSetter (spec.component id)) := by
    rw [assign, split, List.foldl_append, List.foldl_cons]
    rfl
  refine ⟨before.foldl (ChainNames.visit spec) start, ?_, ?_, ?_⟩
  · refine apart_foldl ⟨rfl, List.nodup_nil, List.forall_mem_nil _⟩ fun other earlier => ?_
    apply known_of_left wellFormed member
    rw [split]
    exact List.mem_append_left _ earlier
  · intro other earlier
    have order : ((before.foldl (ChainNames.visit spec) start).nameSetter
        (spec.component id)).postOrder =
          (before.foldl (ChainNames.visit spec) start).postOrder ++ [id] := by
      rw [nameSetter, postOrder, push, List.map_append, List.map_singleton, placed]
      rfl
    rw [named, postOrder_foldl, order]
    refine List.Sublist.trans ?_ (List.sublist_append_left _ _)
    exact (List.singleton_sublist.mpr earlier).append (List.Sublist.refl [id])
  · obtain ⟨typeName, pushed⟩ := exists_mem_nameSetter
      (before.foldl (ChainNames.visit spec) start) (spec.component id)
    rw [placed] at pushed
    rw [named]
    exact ⟨typeName, members_subset_foldl _ after pushed⟩

/-- A setter whose variable no earlier setter claims gets that variable. -/
theorem plain_of_unshared (setter : id ∈ sequence.setters) (unshared : ∀ other ∈ sequence.setters,
      (spec.component other).order < (spec.component id).order →
        lowerCamel (spec.component other).key ≠ lowerCamel (spec.component id).key) :
    ∃ named, (assign spec sequence).find? id = some named ∧
      named.memberName = "_" ++ lowerCamel (spec.component id).key := by
  obtain ⟨names, apart, earlier, typeName, pushed⟩ := exists_named wellFormed member setter
  have distinct := postOrder_nodup wellFormed member
  have unused : Naming.member (spec.component id).key ∉ names.taken := by
    intro used
    have claimed : Naming.member (spec.component id).key ∈ names.reserved := by
      rw [apart.reserved]
      exact List.mem_map_of_mem (f := fun id => Naming.member (spec.component id).key) setter
    obtain ⟨other, listed, known, same⟩ := apart.claimed _ used claimed
    have pair := earlier other listed
    have different : id ≠ other := by
      rintro rfl
      have once := distinct.sublist pair
      simp at once
    have below : id ∈ spec.subtree id := by
      rw [Specification.subtree_eq wellFormed.childrenFollow]
      exact List.mem_cons_self
    have before := (setter_precedes_iff wellFormed member known setter below different).mp pair
    apply unshared other known before
    exact (String.append_right_inj "_").mp same
  obtain ⟨-, plain⟩ | ⟨used, -⟩ := names.setterVariable_spec (spec.component id).key
  · rw [plain] at pushed
    have listed : id ∈ (assign spec sequence).postOrder := List.mem_map_of_mem pushed
    obtain ⟨named, found⟩ := exists_find? listed
    obtain ⟨present, same⟩ := find?_eq_some found
    refine ⟨named, found, ?_⟩
    rw [List.inj_on_of_nodup_map distinct present pushed same]
    rfl
  · exact absurd used unused

end Assignment

/-- The members of a chain are named as they should be. -/
structure Allocated (spec : Specification .resolved) (sequence : RecordSequence)
    (names : ChainNames) : Prop where
  /-- The setters and what is nested under them are named, once each, and nothing else is. -/
  members : names.postOrder.Perm (sequence.setters.flatMap spec.subtree)
  once : names.postOrder.Nodup
  nestedFirst : ∀ holder ∈ names.postOrder, ∀ child ∈ (spec.component holder).children,
    [child, holder].Sublist names.postOrder
  settersAscend : (names.postOrder.filter (· ∈ sequence.setters)).Pairwise
    fun first second => (spec.component first).order < (spec.component second).order
  aliases : names.aliases.Nodup
  memberNames : names.taken.Nodup
  /-- A setter whose lower camel name no earlier setter shares has that name in its variable. -/
  plain : ∀ id ∈ sequence.setters,
    (∀ other ∈ sequence.setters, (spec.component other).order < (spec.component id).order →
      lowerCamel (spec.component other).key ≠ lowerCamel (spec.component id).key) →
    ∃ named, names.find? id = some named ∧
      named.memberName = "_" ++ lowerCamel (spec.component id).key

private theorem allocated_assign (wellFormed : spec.WellFormed) {sequence : RecordSequence}
    (member : sequence ∈ spec.sequences.toList) :
    (assign spec sequence).Allocated spec sequence where
  members := postOrder_perm wellFormed member
  once := postOrder_nodup wellFormed member
  nestedFirst _ listed _ held :=
    held_precedes wellFormed member ((postOrder_perm wellFormed member).mem_iff.mp listed) held
  settersAscend := setters_ascend wellFormed member
  aliases := nodup_typeNames spec sequence
  memberNames := (apart_assign wellFormed member).distinct
  plain _ setter unshared := plain_of_unshared wellFormed member setter unshared

/-- The searches for a free number end, however many names are given out. -/
structure SearchesEnd (names : ChainNames) : Prop where
  nested : ∀ component : Component .resolved, ∃ number,
    FirstFree (numberedVariable component.kind.entry.className) (names.taken ++ names.reserved)
      (names.count component.kind.entry.className + 1) number ∧
    names.nameNested component = names.push component.kind.entry.className number
      ⟨component.id, numberedType component.kind.entry.className number,
        numberedVariable component.kind.entry.className number⟩
  setter : ∀ key,
    (Naming.member key ∉ names.taken ∧ names.setterVariable key = Naming.member key) ∨
      Naming.member key ∈ names.taken ∧ ∃ number,
        FirstFree (fun number => Naming.member key ++ Text.padTwo number)
          (names.taken ++ names.reserved) 2 number ∧
        names.setterVariable key = Naming.member key ++ Text.padTwo number

end ChainNames

/-- **The names of a setter chain.** Naming the members of a chain comes to an end, since every
search for a free number does. It names every setter of the chain and every component nested under
one, once each, and nothing else: what is nested before what holds it, and setters by order key. All
type names are different and so are all variables, and a setter whose lower camel name no earlier
setter shares has this name in its variable, behind an underscore. -/
theorem chain_names_allocated {text : String} {spec : Specification .resolved}
    (read : readDocument text = .ok spec) :
    (∀ names : ChainNames, names.SearchesEnd) ∧
      ∀ sequence ∈ spec.sequences.toList,
        (ChainNames.assign spec sequence).Allocated spec sequence := by
  have wellFormed := (linked_of_readDocument read).wellFormed
  refine ⟨fun names => ⟨names.exists_nameNested, names.setterVariable_spec⟩, ?_⟩
  intro sequence member
  exact ChainNames.allocated_assign wellFormed member

namespace Prototype.Sample

open Markup (Element)

/-- A chain in which the keys of setters imitate the variable of a nested component, and one with a
number behind it. -/
def crowdedRoot : Element :=
  { name := rootName
    children := [
      { name := "record_sequences"
        children := [
          randomSequence "a" [numberField "x"] [
            callbackSetter "callback_value_provider01" "f", callbackSetter "set_x" "f",
            callbackSetter "setX" "f", callbackSetter "set_x02" "f"]] }] }

/-- The text of the document. -/
def crowdedText : String :=
  String.ofList crowdedRoot.print

private theorem parse_crowdedText : Markup.parse crowdedText = .ok crowdedRoot :=
  Markup.Element.parse_print (by decide +kernel)

/-- A setter with its order key and its key. -/
def keyedSetter (spec : Specification .resolved) (id : ComponentId) : ComponentId × Nat × String :=
  (id, (spec.component id).order, (spec.component id).key)

/-- The setters of the chain. -/
def crowdedSetters : List (ComponentId × Nat × String) :=
  [(⟨0⟩, 0, "callback_value_provider01"), (⟨2⟩, 1, "set_x"), (⟨4⟩, 2, "setX"),
    (⟨6⟩, 3, "set_x02")]

set_option maxRecDepth 100000 in
private theorem exists_crowded :
    ∃ spec, readDocument crowdedText = .ok spec ∧ ∃ sequence ∈ spec.sequences.toList,
      sequence.setters.map (keyedSetter spec) = crowdedSetters := by
  have listed : (readRoot crowdedRoot >>= Linking.resolve).toOption.map (fun spec =>
      spec.sequences.toList.map fun sequence => sequence.setters.map (keyedSetter spec)) =
      some [crowdedSetters] := by cbv
  rw [← parse_eq_readRoot parse_crowdedText] at listed
  obtain ⟨spec, some, listed⟩ := Option.map_eq_some_iff.mp listed
  have found := List.mem_singleton_self crowdedSetters
  rw [← listed] at found
  exact ⟨spec, Outcome.toOption_eq_some_iff.mp some, List.mem_map.mp found⟩

/-- Only the third setter shares its lower camel name with an earlier one. -/
theorem crowdedSetters_unshared : ∀ later ∈ crowdedSetters, later.2.2 ≠ "setX" →
    ∀ earlier ∈ crowdedSetters, earlier.2.1 < later.2.1 →
      lowerCamel earlier.2.2 ≠ lowerCamel later.2.2 := by
  decide +kernel

end Prototype.Sample

open Prototype.Sample in
/-- The names of a chain with two setters whose keys have one form. The others have the variables of
their keys, although one of these is also the first variable of a nested component, and one is that
of the second setter with a number. -/
theorem crowded_allocated :
    ∃ spec, readDocument crowdedText = .ok spec ∧ ∃ sequence ∈ spec.sequences.toList,
      (ChainNames.assign spec sequence).Allocated spec sequence ∧
        ∀ setter ∈ crowdedSetters, setter.2.2 ≠ "setX" → ∃ named,
          (ChainNames.assign spec sequence).find? setter.1 = some named ∧
            named.memberName = "_" ++ lowerCamel setter.2.2 := by
  obtain ⟨spec, read, sequence, member, setters⟩ := exists_crowded
  have allocated := (chain_names_allocated read).2 sequence member
  refine ⟨spec, read, sequence, member, allocated, fun setter listed different => ?_⟩
  have unshared := crowdedSetters_unshared setter listed different
  rw [← setters] at listed unshared
  obtain ⟨id, present, rfl⟩ := List.mem_map.mp listed
  exact allocated.plain id present fun other also => unshared _ (List.mem_map_of_mem also)

end Recordgen

import Recordgen.Proofs.DeclarationOrder
import Recordgen.Proofs.Renaming

/-! # Naming the members of an embedded chain

The members of a setter chain are named by their classes, their keys and the order of the walk, and
none of these depends on handles. So the chain of a sequence and the chain of the sequence that
corresponds to it have the same names, given to members that correspond (`ChainNames.assign_rename`).
A member is found again under its new handle, since members of one chain keep different handles
(`ChainNames.find?_rename`).
-/

namespace Recordgen

open Specification (Embeds)

variable {new : Renaming}

def ChainMember.rename (new : Renaming) (member : ChainMember) : ChainMember :=
  { member with id := new.component member.id }

namespace ChainNames

def rename (new : Renaming) (names : ChainNames) : ChainNames :=
  { names with members := names.members.map (ChainMember.rename new) }

/-- Members with different handles have different new handles. -/
def KeptApart (new : Renaming) (names : ChainNames) : Prop :=
  ∀ first ∈ names.postOrder, ∀ second ∈ names.postOrder,
    new.component first = new.component second → first = second

private theorem taken_rename (names : ChainNames) : (names.rename new).taken = names.taken := by
  simp only [taken, rename, List.map_map]
  rfl

theorem postOrder_rename (names : ChainNames) :
    (names.rename new).postOrder = names.postOrder.map new.component := by
  simp only [postOrder, rename, List.map_map]
  rfl

private theorem push_rename (names : ChainNames) (className : String) (number : Nat)
    (member : ChainMember) :
    (names.rename new).push className number (member.rename new) =
      (names.push className number member).rename new := by
  simp only [push, rename, List.map_append, List.map_singleton]

private theorem nameSetter_rename (names : ChainNames) (setter : Component .resolved) :
    (names.rename new).nameSetter (setter.rename new) = (names.nameSetter setter).rename new := by
  unfold nameSetter
  rw [← push_rename]
  unfold setterVariable
  rw [taken_rename]
  rfl

private theorem nameNested_rename (names : ChainNames) (component : Component .resolved) :
    (names.rename new).nameNested (component.rename new) =
      (names.nameNested component).rename new := by
  unfold nameNested
  rw [← push_rename, taken_rename]
  rfl

/-- Naming along one walk gives the members that correspond to those named along another one. -/
def Commutes (new : Renaming) (small large : Specification .resolved)
    (events others : List WalkEvent) : Prop :=
  ∀ names : ChainNames, others.foldl (visit large) (names.rename new) =
    (events.foldl (visit small) names).rename new

namespace Commutes

variable {small large : Specification .resolved} {events others : List WalkEvent}

theorem append {more further : List WalkEvent} (here : Commutes new small large events others)
    (later : Commutes new small large more further) :
    Commutes new small large (events ++ more) (others ++ further) := by
  intro names
  rw [List.foldl_append, List.foldl_append, here names, later]

theorem flatMap {α : Type} {values : List α} {walked other : α → List WalkEvent}
    (each : ∀ value ∈ values, Commutes new small large (walked value) (other value)) :
    Commutes new small large (values.flatMap walked) (values.flatMap other) := by
  induction values with
  | nil => exact fun names => rfl
  | cons value values ih =>
      rw [List.flatMap_cons, List.flatMap_cons]
      apply append (each value List.mem_cons_self)
      exact ih fun value member => each value (List.mem_cons_of_mem _ member)

theorem inside {node other : Node} (within : Commutes new small large events others)
    (left : ∀ names : ChainNames, visit large (names.rename new) (.leave other) =
      (visit small names (.leave node)).rename new) :
    Commutes new small large (walkInside node events) (walkInside other others) := by
  have enters : ∀ (spec : Specification .resolved) (names : ChainNames) (node : Node),
      visit spec names (.enter node) = names := by
    intro spec names node
    cases node <;> rfl
  intro names
  simp only [walkInside, List.cons_append, List.foldl_cons, List.foldl_append, List.foldl_nil,
    enters]
  rw [within names, left]

end Commutes

section Embedded

variable {small large : Specification .resolved} (embeds : small.Embeds new large)
  (wellFormed : small.WellFormed) (wide : large.WellFormed) {sequence : RecordSequence}

include embeds wellFormed wide

private theorem commutes_walkComponent {id : ComponentId} {component : Component .resolved}
    (present : small.components[id.index]? = some component) :
    Commutes new small large (small.walkComponent id) (large.walkComponent (new.component id)) := by
  -- What a component holds comes behind it, so going down ends.
  induction id using wellFormed.walksEnd.down.induction generalizing component with
  | h id ih =>
      rw [Specification.walkComponent_eq wellFormed.childrenFollow,
        Specification.walkComponent_eq wide.childrenFollow, embeds.component_eq present,
        Component.children_rename, List.flatMap_map]
      apply Commutes.inside
      · refine .flatMap fun child held => ?_
        obtain ⟨-, listed, -, placed, -⟩ := wellFormed.held held
        have there := wellFormed.getElem?_id listed
        rw [placed] at there
        exact ih child held there
      · intro names
        rw [visit, visit, embeds.component_eq present, nameNested_rename]
        by_cases nested : (small.component id).parent.isSome = true
        · have still : ((small.component id).rename new).parent.isSome = true := by
            rw [Component.rename, Option.isSome_map, nested]
          rw [if_pos nested, if_pos still]
        · have still : ¬ ((small.component id).rename new).parent.isSome = true := by
            rw [Component.rename, Option.isSome_map]
            exact nested
          rw [if_neg nested, if_neg still]

private theorem commutes_walkSetter {setter : Component .resolved}
    (member : setter ∈ small.components.toList) :
    Commutes new small large (small.walkSetter setter)
      (large.walkSetter (setter.rename new)) := by
  have present := wellFormed.getElem?_id member
  have image := embeds.component_eq present
  rw [Specification.component_eq present] at image
  rw [Specification.walkSetter, Specification.walkSetter, Component.children_rename,
    List.flatMap_map]
  apply Commutes.inside
  · refine .flatMap fun child held => ?_
    obtain ⟨inner, there, -⟩ := wellFormed.exists_child member held
    exact commutes_walkComponent embeds wellFormed wide there
  · intro names
    have named : large.component (setter.rename new).id = setter.rename new := image
    rw [visit, visit, named, wellFormed.component_id member, nameSetter_rename]

private theorem commutes_walkSequence (member : sequence ∈ small.sequences.toList) :
    Commutes new small large (small.walkSequence sequence)
      (large.walkSequence (sequence.rename new)) := by
  have shaped := wellFormed.sequences sequence member
  have part : ∀ (id? : Option ComponentId) (category : Category),
      (∀ id ∈ id?, small.HasRoot category (some sequence.id) id) →
      Commutes new small large (id?.toList.flatMap small.walkComponent)
        ((id?.map new.component).toList.flatMap large.walkComponent) := by
    intro id? category rooted
    rw [Option.toList_map, List.flatMap_map]
    refine .flatMap fun id listed => ?_
    obtain ⟨component, present, -⟩ := rooted id (Option.mem_toList.mp listed)
    exact commutes_walkComponent embeds wellFormed wide present
  unfold Specification.walkSequence
  apply Commutes.inside
  · refine .append (.append (.append ?_ ?_) ?_) ?_
    · rw [embeds.orderedFields_eq wellFormed member, List.flatMap_map]
      exact .flatMap fun field _ => .inside (fun _ => rfl) fun _ => rfl
    · rw [embeds.orderedReferences_eq wellFormed member, List.flatMap_map]
      exact .flatMap fun reference _ => .inside (fun _ => rfl) fun _ => rfl
    · rw [embeds.orderedSetters_eq wellFormed member, List.flatMap_map]
      refine .flatMap fun setter listed => ?_
      have among := (small.orderedSetters_perm sequence).mem_iff.mp listed
      obtain ⟨id, known, rfl⟩ := List.mem_map.mp among
      have present := (wellFormed.component_of_setter member known).1
      exact commutes_walkSetter embeds wellFormed wide (Specification.mem_components present)
    · simp only [List.flatMap_cons, List.flatMap_nil, List.append_nil]
      exact .append (part _ _ shaped.estimator)
        (.append (part _ _ shaped.sequenceIterator) (part _ _ shaped.outputFormat))
  · exact fun names => rfl

/-- **Names do not depend on handles.** -/
theorem assign_rename (member : sequence ∈ small.sequences.toList) :
    assign large (sequence.rename new) = (assign small sequence).rename new := by
  have reserved : (sequence.rename new).setters.map (fun id =>
      Naming.member (large.component id).key) =
      sequence.setters.map fun id => Naming.member (small.component id).key := by
    have keys := congrArg (List.map fun setter => Naming.member (Component.key setter))
      (embeds.setters_eq wellFormed member)
    rw [List.map_map, List.map_map, List.map_map] at keys
    exact keys
  rw [assign, assign, reserved]
  exact commutes_walkSequence embeds wellFormed wide member
    { reserved := sequence.setters.map fun id => Naming.member (small.component id).key }

omit wide

/-- Members of a chain have different handles under the renaming as well. -/
theorem keptApart_assign (member : sequence ∈ small.sequences.toList) :
    (assign small sequence).KeptApart new := by
  intro first left second right same
  have all := postOrder_perm wellFormed member
  obtain ⟨listed, placed, owned, -⟩ := wellFormed.chain_member member (all.mem_iff.mp left)
  obtain ⟨also, stands, belongs, -⟩ := wellFormed.chain_member member (all.mem_iff.mp right)
  have present := wellFormed.getElem?_id listed
  have there := wellFormed.getElem?_id also
  rw [placed] at present
  rw [stands] at there
  exact embeds.componentsApart first second _ _ present there (owned.trans belongs.symm) same

end Embedded

/-- A member is found under its new handle, if no other one has that handle. -/
theorem find?_rename {names : ChainNames} {id : ComponentId} {member : ChainMember}
    (apart : names.KeptApart new) (found : names.find? id = some member) :
    (names.rename new).find? (new.component id) = some (member.rename new) := by
  obtain ⟨listed, rfl⟩ := find?_eq_some found
  rw [find?, rename, ← List.map_reverse, List.find?_map]
  refine Option.map_eq_some_iff.mpr ⟨member, ?_, rfl⟩
  rw [← found, find?]
  refine List.find?_congr fun other among => ?_
  have known : other.id ∈ names.postOrder := List.mem_map_of_mem (List.mem_reverse.mp among)
  rw [Function.comp_apply, Bool.eq_iff_iff, beq_iff_eq, beq_iff_eq]
  constructor
  · exact apart _ known _ (List.mem_map_of_mem listed)
  · exact congrArg new.component

/-- A renamed member is found under its new handle. -/
theorem get_rename {names : ChainNames} {id : ComponentId}
    (apart : names.KeptApart new) :
    Outcome.Carries (ChainMember.rename new) (names.get id)
      ((names.rename new).get (new.component id)) := by
  intro member got
  exact get_eq_ok_iff.mpr (find?_rename apart (get_eq_ok_iff.mp got))

end ChainNames

end Recordgen

import Recordgen.Proofs.Conformance
import Recordgen.Prototype.Component

/-! # What reading a component gives

Reading an element that describes a component gives the component and everything nested in it as one
tree of conforming components (`componentReader_grows`). The readers of items, arguments and whole
schemas each give a forest (`Grown`), and the forests are put together in the order of the schema.
-/

namespace Recordgen.Prototype

open Markup (Element)
open Outcome

variable {key : String} {around : Surroundings} {base : Nat} {items : List (Argument .raw)}
  {nested : List (Component .raw)} {supplied : List Candidate}

/-- Components that were read from the position `base` on as the trees of `roots`. They conform with
the catalogue in every arena that holds them at that position. -/
structure Grown (parent : Option ComponentId) (owner : Option SequenceId) (base : Nat)
    (roots : List ComponentId) (components : List (Component .raw)) : Prop where
  forest : Forest parent base roots components
  owned : ∀ component ∈ components, component.owner = owner
  conform : ∀ arena, Located arena base components →
    ∀ component ∈ components, component.Conforms arena

namespace Grown

variable {parent : Option ComponentId} {owner : Option SequenceId} {base : Nat}
  {roots others : List ComponentId} {components more : List (Component .raw)}

theorem nil : Grown parent owner base [] [] :=
  ⟨.nil _ _, by simp, by simp⟩

/-- Two forests that grew one behind the other are one. -/
theorem append (first : Grown parent owner base roots components)
    (second : Grown parent owner (base + components.length) others more) :
    Grown parent owner base (roots ++ others) (components ++ more) where
  forest := first.forest.append second.forest
  owned := by
    intro component member
    rcases List.mem_append.mp member with member | member
    · exact first.owned component member
    · exact second.owned component member
  conform := by
    intro arena located component member
    obtain ⟨before, behind⟩ := Located.append_iff.mp located
    rcases List.mem_append.mp member with member | member
    · exact first.conform arena before component member
    · exact second.conform arena behind component member

end Grown

/-- What a reader of components promises: a tree of conforming components whose root is as asked
for. -/
def Grows (read : ComponentReader) : Prop :=
  ∀ category typeText key placement base components,
    read category typeText key placement base = .ok components →
      Grown placement.parent placement.owner base [⟨base⟩] components ∧
        ∃ root, components.head? = some root ∧ root.key = key ∧
          root.kind.entry.category = category ∧ root.order = placement.order

private theorem parse_of_readLiteral {type : LiteralType} {raw place : String} {literal : Literal}
    (read : readLiteral type raw key place = .ok literal) :
    Literal.Form.parse literal.type literal.raw = .ok literal.form := by
  obtain ⟨form, parsed, rfl⟩ := bind_pure_eq_ok_iff.mp (mapError_eq_ok_iff.mp read)
  exact parsed

private theorem parse_of_literalOf {element : Element} {place : String} {literal : Literal}
    (read : literalOf element key place = .ok literal) :
    Literal.Form.parse literal.type literal.raw = .ok literal.form := by
  obtain ⟨typeText, -, read⟩ := bind_eq_ok_iff.mp read
  obtain ⟨type, -, read⟩ := bind_eq_ok_iff.mp read
  split at read
  · exact parse_of_readLiteral read
  · cases read

/-- An argument and what is nested in it. -/
structure ArgumentGrown (around : Surroundings) (base : Nat)
    (fits : List (Component .raw) → Argument .raw → Prop) (read : ArgumentRead) : Prop where
  grown : Grown (some around.component) around.owner base read.argument.children read.nested
  fits : ∀ arena, Located arena base read.nested → fits arena read.argument

private theorem ArgumentGrown.of_leaf {fits : List (Component .raw) → Argument .raw → Prop}
    {argument : Argument .raw} (childless : argument.children = [])
    (fit : ∀ arena, fits arena argument) : ArgumentGrown around base fits ⟨argument, []⟩ :=
  ⟨childless ▸ Grown.nil, fun arena _ => fit arena⟩

private theorem readItem_grown {item : ItemKind} {candidate : Candidate} {read : ArgumentRead}
    (grows : Grows candidate.read)
    (succeeded : readItem around key item base candidate = .ok read) :
    ArgumentGrown around base (fun arena argument => argument.Holds arena item) read := by
  cases item with
  | literal =>
      obtain ⟨literal, found, rfl⟩ := bind_pure_eq_ok_iff.mp succeeded
      exact .of_leaf rfl fun _ => .literal literal (parse_of_literalOf found)
  | fieldRef =>
      obtain ⟨name, -, rfl⟩ := bind_pure_eq_ok_iff.mp succeeded
      exact .of_leaf rfl fun _ => @Argument.Holds.fieldRef .raw _ name
  | referenceRef =>
      obtain ⟨name, -, rfl⟩ := bind_pure_eq_ok_iff.mp succeeded
      exact .of_leaf rfl fun _ => @Argument.Holds.referenceRef .raw _ name
  | functionRef =>
      obtain ⟨name, -, rfl⟩ := bind_pure_eq_ok_iff.mp succeeded
      exact .of_leaf rfl fun _ => @Argument.Holds.functionRef .raw _ name
  | nested category =>
      obtain ⟨typeText, -, succeeded⟩ := bind_eq_ok_iff.mp succeeded
      obtain ⟨nested, found, rfl⟩ := bind_pure_eq_ok_iff.mp succeeded
      obtain ⟨grown, root, first, -, admitted, -⟩ := grows _ _ _ _ _ _ found
      refine ⟨grown, fun arena located => .nested category ⟨base⟩ root ?_ admitted⟩
      exact located 0 root (List.head?_eq_getElem? ▸ first)

private theorem readItems_grown {item : ItemKind} {given : List Candidate}
    (grows : ∀ candidate ∈ given, Grows candidate.read)
    (succeeded : readItems around key item base given = .ok (items, nested)) :
    items.length = given.length ∧
      Grown (some around.component) around.owner base (items.flatMap Argument.children) nested ∧
      ∀ arena, Located arena base nested → ∀ argument ∈ items, argument.Holds arena item := by
  induction given generalizing base items nested with
  | nil =>
      obtain ⟨rfl, rfl⟩ := Prod.mk.inj (pure_eq_ok_iff.mp succeeded)
      exact ⟨rfl, Grown.nil, by simp⟩
  | cons candidate given ih =>
      obtain ⟨first, here, succeeded⟩ := bind_eq_ok_iff.mp succeeded
      obtain ⟨⟨others, inside⟩, later, same⟩ := bind_pure_eq_ok_iff.mp succeeded
      obtain ⟨rfl, rfl⟩ := Prod.mk.inj same
      have head := readItem_grown (grows candidate List.mem_cons_self) here
      obtain ⟨sameLength, grown, holds⟩ :=
        ih (fun candidate member => grows candidate (List.mem_cons_of_mem _ member)) later
      refine ⟨congrArg (· + 1) sameLength, head.grown.append grown, ?_⟩
      intro arena located argument member
      obtain ⟨before, behind⟩ := Located.append_iff.mp located
      rcases List.mem_cons.mp member with rfl | member
      · exact head.fits arena before
      · exact holds arena behind argument member

/-- A schema entry that may be left out has a default, so that it always gives an argument. -/
theorem readEntry_grown {entry : SchemaEntry} {result : Option ArgumentRead}
    (defaults : (entry.isOptional = true → entry.default.isSome = true) ∧
      (entry.default.isSome = true → entry.kind = .single .literal))
    (grows : ∀ candidate ∈ supplied, Grows candidate.read)
    (succeeded : readEntry around supplied base entry = .ok result) :
    ∃ read, result = some read ∧
      ArgumentGrown around base (fun arena argument => argument.Fits arena entry.kind) read := by
  have chosen : ∀ candidate ∈ supplied.filter fun candidate => candidate.hasKey entry.key,
      Grows candidate.read :=
    fun candidate member => grows candidate (List.mem_filter.mp member).1
  simp only [readEntry] at succeeded
  split at succeeded
  · rename_i item kind _
    split at succeeded
    · rename_i type value default
      obtain ⟨literal, found, rfl⟩ := bind_pure_eq_ok_iff.mp succeeded
      have asLiteral := defaults.2 (by rw [default]; rfl)
      refine ⟨_, rfl, .of_leaf rfl fun _ => ?_⟩
      rw [asLiteral]
      exact .single _ _ (.literal literal (parse_of_readLiteral found))
    · rename_i default
      split at succeeded
      · rename_i leftOut
        rw [default] at defaults
        cases defaults.1 leftOut
      · cases succeeded
  · rename_i item candidate kind given
    obtain ⟨read, found, same⟩ := map_eq_ok_iff.mp succeeded
    have head := readItem_grown (chosen candidate (given ▸ List.mem_singleton.mpr rfl)) found
    refine ⟨read, same.symm, head.grown, fun arena located => ?_⟩
    rw [kind]
    exact .single _ _ (head.fits arena located)
  · cases succeeded
  · rename_i item kind _
    split at succeeded
    · rename_i leftOut
      have asLiteral := defaults.2 (defaults.1 leftOut)
      rw [kind] at asLiteral
      cases asLiteral
    · cases succeeded
  · rename_i item kind nonempty
    obtain ⟨⟨items, nested⟩, found, rfl⟩ := bind_pure_eq_ok_iff.mp succeeded
    obtain ⟨sameLength, grown, holds⟩ := readItems_grown chosen found
    have filled : items ≠ [] := by
      rintro rfl
      exact nonempty (List.length_eq_zero_iff.mp sameLength.symm)
    refine ⟨_, rfl, ?_, fun arena located => ?_⟩
    · obtain ⟨arena, located⟩ := Located.exists_arena base nested
      rw [Argument.children_collection (holds arena located)]
      exact grown
    · rw [kind]
      exact .collection _ _ filled (holds arena located)

private theorem readEntries_grown {schema : List SchemaEntry}
    {arguments : List (String × Argument .raw)}
    (defaults : ∀ entry ∈ schema, (entry.isOptional = true → entry.default.isSome = true) ∧
      (entry.default.isSome = true → entry.kind = .single .literal))
    (grows : ∀ candidate ∈ supplied, Grows candidate.read)
    (succeeded : readEntries around supplied base schema = .ok (arguments, nested)) :
    arguments.map Prod.fst = schema.map SchemaEntry.key ∧
      Grown (some around.component) around.owner base
        (arguments.flatMap fun argument => argument.2.children) nested ∧
      ∀ arena, Located arena base nested →
        List.Forall₂ (fun entry argument => argument.2.Fits arena entry.kind) schema arguments := by
  induction schema generalizing base arguments nested with
  | nil =>
      obtain ⟨rfl, rfl⟩ := Prod.mk.inj (pure_eq_ok_iff.mp succeeded)
      exact ⟨rfl, Grown.nil, fun _ _ => .nil⟩
  | cons entry schema ih =>
      obtain ⟨result, here, succeeded⟩ := bind_eq_ok_iff.mp succeeded
      obtain ⟨first, rfl, head⟩ :=
        readEntry_grown (defaults entry List.mem_cons_self) grows here
      obtain ⟨⟨others, inside⟩, later, same⟩ := bind_pure_eq_ok_iff.mp succeeded
      obtain ⟨rfl, rfl⟩ := Prod.mk.inj same
      obtain ⟨keys, grown, fits⟩ :=
        ih (fun entry member => defaults entry (List.mem_cons_of_mem _ member)) later
      refine ⟨congrArg (entry.key :: ·) keys, head.grown.append grown, ?_⟩
      intro arena located
      obtain ⟨before, behind⟩ := Located.append_iff.mp located
      exact .cons (head.fits arena before) (fits arena behind)

/-- A size that is not refused is the number of items of every collection. -/
theorem length_of_checkSizes {component : Component .raw} (checked : checkSizes component = .ok ())
    {name : String} (listed : .size name ∈ component.kind.entry.params) {size : Nat}
    (sized : component.attributes.get? name = some (.integer size))
    (present : (key, .collection items) ∈ component.arguments) : items.length = size := by
  have passed := forM_eq_ok_iff.mp checked _ listed
  have known : component.sizeParameter? name = some size := by
    rw [Component.sizeParameter?, Attributes.size?, sized]
  simp only [known] at passed
  have fitting := forM_eq_ok_iff.mp passed _ present
  simp only [checkCollectionSize] at fitting
  split at fitting
  · assumption
  · cases fitting

private theorem readComponent_grows {children : List Candidate}
    (grows : ∀ candidate ∈ children, Grows candidate.read) : Grows (readComponent children) := by
  intro category typeText key placement base components succeeded
  obtain ⟨found, dispatched, succeeded⟩ := bind_eq_ok_iff.mp succeeded
  obtain ⟨_, -, succeeded⟩ := bind_eq_ok_iff.mp succeeded
  obtain ⟨⟨arguments, nested⟩, read, succeeded⟩ := bind_eq_ok_iff.mp succeeded
  obtain ⟨_, sized, rfl⟩ := bind_pure_eq_ok_iff.mp succeeded
  obtain ⟨admitted, captured⟩ := Category.dispatch_captured dispatched
  obtain ⟨keys, grown, fits⟩ := readEntries_grown found.kind.schema_defaults
    (fun candidate member => grows candidate (List.mem_filter.mp member).1) read
  refine ⟨⟨?_, ?_, ?_⟩, _, rfl, rfl, category.category_of_mem_candidates _ admitted, rfl⟩
  · exact Forest.single _ rfl rfl grown.owned grown.forest
  · intro component member
    rcases List.mem_cons.mp member with rfl | member
    · rfl
    · exact grown.owned component member
  · intro arena located component member
    obtain ⟨-, inside⟩ := Located.cons_iff.mp located
    rcases List.mem_cons.mp member with rfl | member
    · refine ⟨keys, fits arena inside, ?_, ?_⟩
      · intro name listed
        obtain ⟨text, type, held, known⟩ := captured _ listed
        refine ⟨type, ?_⟩
        simp only [Component.literalParameter?, Attributes.text?, held]
        exact known
      · intro name listed
        obtain ⟨size, positive, held⟩ := captured _ listed
        exact ⟨size, positive, held, fun key items present =>
          length_of_checkSizes sized listed held present⟩
    · exact grown.conform arena inside component member

mutual

/-- Reading the component that an element describes gives a tree of conforming components. -/
theorem componentReader_grows : (element : Element) → Grows (componentReader element)
  | ⟨_, _, children⟩ => readComponent_grows (candidates_grow children)

private theorem candidates_grow : (elements : List Element) →
    ∀ candidate ∈ candidates elements, Grows candidate.read
  | [], _, member => by cases member
  | element :: rest, candidate, member => by
      rw [candidates] at member
      rcases List.mem_cons.mp member with rfl | member
      · exact componentReader_grows element
      · exact candidates_grow rest candidate member

end

end Recordgen.Prototype

import Recordgen.Header.SetterChain
import Recordgen.Proofs.MemberRendering

/-! # Rendering a setter chain

The members of a chain are declared one after the other, and the types of the callbacks are
collected on the way. What is told about callbacks, by the members still to come or by what was
collected before, stays the same throughout (`told_collected`), so the chain fails exactly when a
member fails or two members tell different types for one name (`chainHeaders_fails`).
-/

namespace Recordgen

open Outcome

/-- A callback provider that declares a callback of the given name and type. -/
def Component.Declares (component : Component .resolved) (name : String) (type : LiteralType) :
    Prop :=
  component.kind = .callbackValueProvider ∧ component.GivesName name ∧
    component.literalParameter? "value_type" = some type

/-- Two members of a chain that declare one callback with different types. -/
def Specification.CallbackConflict (spec : Specification .resolved) (sequence : RecordSequence) :
    Prop :=
  ∃ first ∈ spec.chain sequence, ∃ second ∈ spec.chain sequence, ∃ name type other,
    (spec.component first).Declares name type ∧ (spec.component second).Declares name other ∧
      type ≠ other

/-- No two types have the same name. -/
theorem LiteralType.name_injective : Function.Injective LiteralType.name := by
  intro first second same
  revert same
  cases first <;> cases second <;> decide

namespace RecordContext

variable {context : RecordContext} {names : ChainNames} {id : ComponentId}
  {spec : Specification .resolved} {types : KeyMap String} {callback : Callback}

section Callbacks

variable {component : Component .resolved} {arena : List (Component .resolved)}

/-- The callback of a component, or the lack of one, is what the component declares. -/
theorem callback?_fails (conforms : component.Conforms arena) :
    FailsExactly component.BadCallback RenderError (callback? component) := by
  rw [callback?]
  by_cases sort : component.kind = .callbackValueProvider
  · rw [if_pos (beq_iff_eq.mpr sort)]
    refine (Component.callbackName_fails conforms sort).bind_ok fun name => ?_
    obtain ⟨type, -, written⟩ :=
      Component.typeParameter_eq_ok conforms (by rw [sort]; exact .head _)
    exact ⟨_, bind_eq_ok_iff.mpr ⟨type.name, written, rfl⟩⟩
  · rw [if_neg (mt beq_iff_eq.mp sort)]
    exact (FailsExactly.ok none).congr (iff_of_false not_false fun bad => sort bad.1)

/-- A component declares the callback that is found in it, and no other. -/
theorem declares_iff (conforms : component.Conforms arena) {found : Option Callback}
    (succeeded : callback? component = .ok found) {name spelling : String} :
    (∃ type, component.Declares name type ∧ type.name = spelling) ↔
      found = some ⟨name, spelling⟩ := by
  rw [callback?] at succeeded
  by_cases sort : component.kind = .callbackValueProvider
  · rw [if_pos (beq_iff_eq.mpr sort)] at succeeded
    obtain ⟨given, called, succeeded⟩ := bind_eq_ok_iff.mp succeeded
    obtain ⟨text, typed, rfl⟩ := bind_pure_eq_ok_iff.mp succeeded
    obtain ⟨type, known, written⟩ :=
      Component.typeParameter_eq_ok conforms (by rw [sort]; exact .head _)
    obtain rfl := Except.ok.inj (written.symm.trans typed)
    have gives := Component.givesName_of_callbackName conforms sort called
    constructor
    · rintro ⟨other, ⟨-, again, same⟩, rfl⟩
      rw [gives.unique again, Option.some.inj (known.symm.trans same)]
    · intro same
      obtain ⟨rfl, rfl⟩ := Callback.mk.inj (Option.some.inj same)
      exact ⟨type, ⟨sort, gives, known⟩, rfl⟩
  · rw [if_neg (mt beq_iff_eq.mp sort)] at succeeded
    obtain rfl := pure_eq_ok_iff.mp succeeded
    refine iff_of_false ?_ nofun
    rintro ⟨-, ⟨provider, -⟩, -⟩
    exact sort provider

end Callbacks

/-- What is told about callbacks: what was collected and what the members in `ids` declare. -/
def Told (spec : Specification .resolved) (types : KeyMap String) (ids : List ComponentId)
    (name spelling : String) : Prop :=
  types.get? name = some spelling ∨
    ∃ id ∈ ids, ∃ type, (spec.component id).Declares name type ∧ type.name = spelling

/-- Different types are told for one name. -/
def Contradictory (told : String → String → Prop) : Prop :=
  ∃ name first second, told name first ∧ told name second ∧ first ≠ second

private theorem told_cons {rest : List ComponentId} {name spelling : String} :
    Told spec types (id :: rest) name spelling ↔
      (∃ type, (spec.component id).Declares name type ∧ type.name = spelling) ∨
        Told spec types rest name spelling := by
  rw [Told, Told, List.exists_mem_cons_iff]
  exact or_left_comm

/-- Collecting the callback of a member leaves what is told as it was. -/
theorem told_collected {arena : List (Component .resolved)}
    (conforms : (spec.component id).Conforms arena) {declared : Option Callback}
    (found : callback? (spec.component id) = .ok declared) {after : KeyMap String}
    (knows : ∀ name spelling, after.get? name = some spelling ↔
      declared = some ⟨name, spelling⟩ ∨ types.get? name = some spelling)
    (rest : List ComponentId) (name spelling : String) :
    Told spec after rest name spelling ↔ Told spec types (id :: rest) name spelling := by
  rw [told_cons, declares_iff conforms found, Told, Told, knows, or_assoc]

private theorem not_contradictory_nil : ¬Contradictory (Told spec types []) := by
  rintro ⟨name, first, second, one, two, different⟩
  rcases one with one | ⟨_, none, -⟩
  · rcases two with two | ⟨_, none, -⟩
    · exact different (Option.some.inj (one.symm.trans two))
    · cases none
  · cases none

/-- A callback whose name is known with another type is refused. -/
theorem addCallback_eq_error {type : String} (known : types.get? callback.name = some type)
    (different : type ≠ callback.type) :
    context.addCallback types callback = .error (.rendering
      (.callbackConflict callback.name context.sequence.key type callback.type)) := by
  rw [addCallback, known]
  exact if_neg different

/-- Otherwise it is known afterwards, and nothing else changes. -/
theorem exists_addCallback
    (agrees : ∀ type, types.get? callback.name = some type → type = callback.type) :
    ∃ after, context.addCallback types callback = .ok after ∧ ∀ name spelling,
      after.get? name = some spelling ↔
        callback = ⟨name, spelling⟩ ∨ types.get? name = some spelling := by
  cases known : types.get? callback.name with
  | none =>
      refine ⟨types.insert callback.name callback.type, by rw [addCallback, known], ?_⟩
      intro name spelling
      rw [KeyMap.get?_insert]
      split
      · rename_i same
        subst same
        rw [known, Option.some.injEq]
        constructor
        · rintro rfl
          exact .inl rfl
        · rintro (same | none)
          · exact congrArg Callback.type same
          · cases none
      · rename_i other
        constructor
        · exact .inr
        · rintro (rfl | found)
          · exact absurd rfl other
          · exact found
  | some type =>
      obtain rfl := agrees type known
      refine ⟨types, by rw [addCallback, known]; exact if_pos rfl, ?_⟩
      intro name spelling
      constructor
      · exact .inr
      · rintro (rfl | found)
        · exact known
        · exact found

section Chain

variable (linked : context.spec.Linked) (member : context.sequence ∈ context.spec.sequences.toList)
  (named : names.postOrder.Perm (context.spec.chain context.sequence))

include linked member named

private theorem chainDeclaration_fails (inside : id ∈ context.spec.chain context.sequence) :
    FailsExactly (context.spec.BadMember context.sequence id) RenderError
      (context.chainDeclaration names id) := by
  have arguments := constructorArguments_fails linked member named inside "config"
    context.chainBase
  have type := (context.typeScope names).memberType_fails linked member named inside
  obtain ⟨name, known⟩ := ChainNames.exists_get (named.mem_iff.mpr inside)
  refine FailsExactly.congr (arguments.bind fun _ _ => type.bind_ok fun _ => ?_) ?_
  · exact ⟨_, bind_eq_ok_iff.mpr ⟨name, known, rfl⟩⟩
  · exact or_iff_left_of_imp .inr

omit linked member named in
/-- Once the callback of a member is collected, the member is declared and then the others. -/
theorem chainDeclarations_cons {types after : KeyMap String} {rest : List ComponentId}
    {declared : Option Callback} (found : callback? (context.spec.component id) = .ok declared)
    (kept : declared = none → after = types)
    (added : ∀ callback ∈ declared, context.addCallback types callback = .ok after) :
    context.chainDeclarations names types (id :: rest) = (do
      let declaration ← context.chainDeclaration names id
      let result ← context.chainDeclarations names after rest
      return (declaration :: result.1, result.2)) := by
  rw [chainDeclarations, found]
  cases declared with
  | none =>
      rw [kept rfl]
      rfl
  | some callback =>
      change context.addCallback types callback >>= _ = _
      rw [added callback rfl]
      rfl

/-- **Declarations.** Members are declared unless one of them fails, or different types are told for
one callback. -/
theorem chainDeclarations_fails (types : KeyMap String) {ids : List ComponentId}
    (inside : ∀ id ∈ ids, id ∈ context.spec.chain context.sequence) :
    FailsExactly ((∃ id ∈ ids, context.spec.BadMember context.sequence id) ∨
        Contradictory (Told context.spec types ids)) RenderError
      (context.chainDeclarations names types ids) := by
  induction ids generalizing types with
  | nil =>
      refine (FailsExactly.ok _).congr (iff_of_false not_false ?_)
      rintro (⟨_, none, -⟩ | contradictory)
      · cases none
      · exact not_contradictory_nil contradictory
  | cons id rest ih =>
      obtain ⟨here, later⟩ := List.forall_mem_cons.mp inside
      have conforms := linked.wellFormed.conform _ (linked.wellFormed.chain_member member here).1
      have declaration := chainDeclaration_fails linked member named here
      -- What is told does not change when the callback of the member is collected.
      have onward (after : KeyMap String) (same : ∀ name spelling,
          Told context.spec after rest name spelling ↔
            Told context.spec types (id :: rest) name spelling) :
          FailsExactly ((∃ bad ∈ id :: rest, context.spec.BadMember context.sequence bad) ∨
              Contradictory (Told context.spec types (id :: rest))) RenderError (do
            let declaration ← context.chainDeclaration names id
            let result ← context.chainDeclarations names after rest
            return (declaration :: result.1, result.2)) := by
        refine (declaration.bind fun _ _ =>
          (ih after later).bind_ok fun _ => ⟨_, rfl⟩).congr ?_
        rw [List.exists_mem_cons_iff, or_assoc]
        simp only [Contradictory, same]
      cases found : callback? (context.spec.component id) with
      | error fault =>
          have bad := (callback?_fails conforms).fails.mp ⟨fault, found⟩
          rw [chainDeclarations, found]
          exact (FailsExactly.error ((callback?_fails conforms).within fault found)).congr
            (iff_of_true trivial (.inl ⟨id, List.mem_cons_self, .inl bad⟩))
      | ok declared =>
          cases declared with
          | none =>
              rw [chainDeclarations_cons found (fun _ => rfl) nofun]
              exact onward types (told_collected conforms found
                (fun _ _ => (or_iff_right nofun).symm) rest)
          | some callback =>
              by_cases agrees : ∀ type, types.get? callback.name = some type → type = callback.type
              · obtain ⟨after, added, knows⟩ := exists_addCallback agrees
                rw [chainDeclarations_cons found nofun
                  fun other same => Option.some.inj same ▸ added]
                refine onward after (told_collected conforms found (fun name spelling => ?_) rest)
                rw [knows, Option.some.injEq]
              · simp only [not_forall] at agrees
                obtain ⟨type, known, different⟩ := agrees
                rw [chainDeclarations, found]
                change FailsExactly _ _ (context.addCallback types callback >>= _)
                rw [addCallback_eq_error known different]
                refine (FailsExactly.error trivial).congr (iff_of_true trivial (.inr
                  ⟨callback.name, type, callback.type, .inl known, ?_, different⟩))
                exact told_cons.mpr (.inl ((declares_iff conforms found).mpr rfl))

/-- **Setter chains.** The headers of a chain can be rendered unless a member fails or two members
declare one callback with different types. -/
theorem chainHeaders_fails :
    FailsExactly ((∃ id ∈ context.spec.chain context.sequence,
          context.spec.BadMember context.sequence id) ∨
        context.spec.CallbackConflict context.sequence) RenderError
      (context.chainHeaders names) := by
  have declarations := chainDeclarations_fails linked member named {} fun _ => named.mem_iff.mp
  have setterNamed : ∀ setter ∈ context.spec.orderedSetters context.sequence,
      ∃ found, names.get setter.id = .ok found := by
    intro setter listed
    obtain ⟨id, present, rfl⟩ := List.mem_map.mp
      ((context.spec.orderedSetters_perm context.sequence).mem_iff.mp listed)
    have inside := linked.wellFormed.mem_chain_of_setter present
    rw [(linked.wellFormed.chain_member member inside).2.1]
    exact ChainNames.exists_get (named.mem_iff.mpr inside)
  rw [chainHeaders]
  refine FailsExactly.congr (declarations.bind_ok fun result => ?_) (or_congr ?_ ?_)
  · obtain ⟨applied, all⟩ := exists_mapM_ok setterNamed
    obtain ⟨filtering, some⟩ := exists_mapM_ok fun setter listed =>
      setterNamed setter (List.mem_filter.mp listed).1
    exact ⟨_, bind_eq_ok_iff.mpr ⟨applied, all, bind_eq_ok_iff.mpr ⟨filtering, some, rfl⟩⟩⟩
  · simp only [named.mem_iff]
  · constructor
    · rintro ⟨name, _, _, none | ⟨first, one, type, declares, rfl⟩, told, different⟩
      · cases none
      rcases told with none | ⟨second, two, other, again, rfl⟩
      · cases none
      exact ⟨first, named.mem_iff.mp one, second, named.mem_iff.mp two, name, type, other, declares,
        again, fun same => different (congrArg _ same)⟩
    · rintro ⟨first, one, second, two, name, type, other, declares, again, different⟩
      exact ⟨name, type.name, other.name,
        .inr ⟨first, named.mem_iff.mpr one, type, declares, rfl⟩,
        .inr ⟨second, named.mem_iff.mpr two, other, again, rfl⟩,
        fun same => different (LiteralType.name_injective same)⟩

end Chain

end RecordContext

end Recordgen

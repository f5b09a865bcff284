import Recordgen.Proofs.IncludeClosure
import Recordgen.Proofs.NameLetters

/-! # The scopes of generated headers

A header raises and lowers its indentation and opens and closes namespaces. `Scope.run?` follows both
and stops where a level would fall below zero, where a namespace has no proper name or where one is
closed that was not opened last. What it follows from the start of a text to its end is balanced
(`Step.Balanced`). The parts that headers are made of leave their scope as they find it (`Keeps`), so
all headers that a plan writes are balanced (`emitted_scopes_balanced`).
-/

namespace Recordgen

open Outcome

/-- An identifier: an ASCII letter or an underscore, then word characters. -/
def IsIdentifier (name : String) : Prop :=
  ∃ first rest, name.toList = first :: rest ∧ (first.isAlpha = true ∨ first = '_') ∧
    ∀ c ∈ rest, Text.isWord c = true

namespace Step

/-- Whether a step lowers the level of indentation. -/
def lowers : Step → Bool
  | closing _ | dedent => true
  | line _ | blank | opening _ | indent | enterNamespace _ | leaveNamespace _ => false

/-- Whether a step opens or closes a namespace. -/
def isScope : Step → Bool
  | enterNamespace _ | leaveNamespace _ => true
  | line _ | blank | opening _ | closing _ | indent | dedent => false

/-- Every namespace that is opened is closed under its name, and not before those inside it. -/
inductive Nested : List Step → Prop
  | nil : Nested []
  | step {step : Step} {rest : List Step} (other : step.isScope = false) (later : Nested rest) :
      Nested (step :: rest)
  | scope (name : String) {inside rest : List Step} (inner : Nested inside) (later : Nested rest) :
      Nested (enterNamespace name :: (inside ++ leaveNamespace name :: rest))

/-- A text whose scopes are balanced. -/
structure Balanced (steps : List Step) : Prop where
  /-- Where the level is lowered it is above zero. -/
  lowered : ∀ before step later, steps = before ++ step :: later → step.lowers = true →
    0 < before.foldl levelAfter 0
  level : steps.foldl levelAfter 0 = 0
  nested : Nested steps
  identifiers : ∀ name, enterNamespace name ∈ steps → IsIdentifier name

end Step

/-- Where a text stands: the level of indentation and the open namespaces, innermost first. -/
structure Scope where
  level : Nat
  opened : List String
  deriving DecidableEq, Repr

namespace Scope

variable {next : Scope} {steps : List Step}

/-- The scope behind a step, unless the step does not fit. -/
def after? (scope : Scope) : Step → Option Scope
  | .line _ | .blank => some scope
  | .opening _ | .indent => some { scope with level := scope.level + 1 }
  | .closing _ | .dedent =>
    if scope.level = 0 then none else some { scope with level := scope.level - 1 }
  | .enterNamespace name =>
    if isScopeName name.toList then some { scope with opened := name :: scope.opened } else none
  | .leaveNamespace name =>
    if scope.opened.head? = some name then some { scope with opened := scope.opened.tail } else none

/-- The scope behind steps, unless one of them does not fit. -/
def run? (scope : Scope) (steps : List Step) : Option Scope :=
  steps.foldlM after? scope

private theorem run?_cons (scope : Scope) (step : Step) (rest : List Step) :
    scope.run? (step :: rest) = (scope.after? step).bind fun next => next.run? rest :=
  List.foldlM_cons

private theorem run?_append (scope : Scope) (first second : List Step) :
    scope.run? (first ++ second) = (scope.run? first).bind fun next => next.run? second :=
  List.foldlM_append

/-! What a scope says about the steps behind which it stands. -/

/-- **One step.** The level is that of the text, and it is not lowered at zero. -/
theorem level_of_after? {scope : Scope} {step : Step} (fits : scope.after? step = some next) :
    next.level = step.levelAfter scope.level ∧ (step.lowers = true → 0 < scope.level) := by
  cases step with
  | line _ | blank | opening _ | indent =>
      obtain rfl := Option.some.inj fits
      exact ⟨rfl, fun lowered => absurd lowered Bool.false_ne_true⟩
  | closing _ | dedent =>
      obtain ⟨positive, same⟩ := Option.ite_none_left_eq_some.mp fits
      obtain rfl := Option.some.inj same
      exact ⟨rfl, fun _ => Nat.pos_of_ne_zero positive⟩
  | enterNamespace _ | leaveNamespace _ =>
      obtain ⟨-, same⟩ := Option.ite_none_right_eq_some.mp fits
      obtain rfl := Option.some.inj same
      exact ⟨rfl, fun lowered => absurd lowered Bool.false_ne_true⟩

/-- **All steps.** -/
theorem level_of_run? {scope : Scope} (ran : scope.run? steps = some next) :
    next.level = steps.foldl Step.levelAfter scope.level := by
  induction steps generalizing scope with
  | nil => exact (congrArg Scope.level (Option.some.inj ran)).symm
  | cons step rest ih =>
      rw [run?_cons] at ran
      obtain ⟨middle, fits, later⟩ := Option.bind_eq_some_iff.mp ran
      rw [ih later, (level_of_after? fits).1, List.foldl_cons]

/-- A step among others is taken where those before it lead. -/
theorem exists_of_run?_append {scope : Scope} {before later : List Step} {step : Step}
    (ran : scope.run? (before ++ step :: later) = some next) :
    ∃ reached middle, scope.run? before = some reached ∧ reached.after? step = some middle := by
  rw [run?_append] at ran
  obtain ⟨reached, first, second⟩ := Option.bind_eq_some_iff.mp ran
  rw [run?_cons] at second
  obtain ⟨middle, fits, -⟩ := Option.bind_eq_some_iff.mp second
  exact ⟨reached, middle, first, fits⟩

/-- Steps that close the open namespaces one after the other, innermost first, with other steps before,
between and behind. -/
def Closes : (opened : List String) → List Step → Prop
  | [], steps => Step.Nested steps
  | name :: outer, steps => ∃ inside rest, steps = inside ++ .leaveNamespace name :: rest ∧
      Step.Nested inside ∧ Closes outer rest

/-- A step that is no scope changes nothing about what is still to be closed. -/
theorem Closes.step {opened : List String} {step : Step} {rest : List Step}
    (other : step.isScope = false) (closes : Closes opened rest) : Closes opened (step :: rest) := by
  cases opened with
  | nil => exact Step.Nested.step other closes
  | cons name outer =>
      obtain ⟨inside, later, rfl, nested, closes⟩ := closes
      exact ⟨step :: inside, later, rfl, .step other nested, closes⟩

theorem Closes.scope {opened : List String} {name : String} {rest : List Step}
    (closes : Closes (name :: opened) rest) : Closes opened (.enterNamespace name :: rest) := by
  obtain ⟨inside, later, rfl, nested, closes⟩ := closes
  cases opened with
  | nil => exact Step.Nested.scope name nested closes
  | cons other outer =>
      obtain ⟨between, last, rfl, alsoNested, closes⟩ := closes
      refine ⟨.enterNamespace name :: (inside ++ .leaveNamespace name :: between), last, ?_,
        .scope name nested alsoNested, closes⟩
      simp

/-- The steps that lead out of all namespaces close those that are open. -/
theorem closes_of_run? {scope : Scope} {level : Nat} (ran : scope.run? steps = some ⟨level, []⟩) :
    Closes scope.opened steps := by
  -- On the steps, from any scope: those behind one that is opened close it too.
  induction steps generalizing scope with
  | nil =>
      rw [Option.some.inj ran]
      exact Step.Nested.nil
  | cons step rest ih =>
      rw [run?_cons] at ran
      obtain ⟨middle, fits, later⟩ := Option.bind_eq_some_iff.mp ran
      have closes := ih later
      cases step with
      | line _ | blank | opening _ | indent =>
          obtain rfl := Option.some.inj fits
          exact closes.step rfl
      | closing _ | dedent =>
          obtain ⟨-, same⟩ := Option.ite_none_left_eq_some.mp fits
          obtain rfl := Option.some.inj same
          exact closes.step rfl
      | enterNamespace name =>
          obtain ⟨-, same⟩ := Option.ite_none_right_eq_some.mp fits
          obtain rfl := Option.some.inj same
          exact closes.scope
      | leaveNamespace name =>
          obtain ⟨last, same⟩ := Option.ite_none_right_eq_some.mp fits
          obtain rfl := Option.some.inj same
          obtain ⟨outer, opened⟩ := List.head?_eq_some_iff.mp last
          rw [opened, List.tail_cons] at closes
          rw [opened]
          exact ⟨[], rest, rfl, .nil, closes⟩

private theorem isIdentifier_of_isScopeName {name : String}
    (valid : isScopeName name.toList = true) :
    IsIdentifier name := by
  cases spelled : name.toList with
  | nil =>
      rw [spelled] at valid
      cases valid
  | cons first rest =>
      rw [spelled, isScopeName, Bool.and_eq_true, Bool.or_eq_true, decide_eq_true_eq,
        List.all_eq_true] at valid
      exact ⟨first, rest, spelled, valid⟩

/-- A text that ends in the scope in which it started is balanced. -/
theorem balanced_of_run? (ran : run? ⟨0, []⟩ steps = some ⟨0, []⟩) :
    Step.Balanced steps where
  lowered before step later split lowers := by
    obtain ⟨reached, middle, first, fits⟩ := exists_of_run?_append (split ▸ ran)
    rw [← level_of_run? first]
    exact (level_of_after? fits).2 lowers
  level := (level_of_run? ran).symm
  nested := closes_of_run? ran
  identifiers name entered := by
    obtain ⟨before, later, split⟩ := List.append_of_mem entered
    obtain ⟨reached, middle, -, fits⟩ := exists_of_run?_append (split ▸ ran)
    exact isIdentifier_of_isScopeName (Option.ite_none_right_eq_some.mp fits).1

end Scope

/-! The parts that headers are made of. -/

/-- Steps that lead back to the scope they start from, if its level is at least `least`. -/
def Keeps (least : Nat) (steps : List Step) : Prop :=
  ∀ scope : Scope, least ≤ scope.level → scope.run? steps = some scope

namespace Keeps

variable {least : Nat} {first second body : List Step}

theorem nil : Keeps least [] :=
  fun _ _ => rfl

theorem append (before : Keeps least first) (behind : Keeps least second) :
    Keeps least (first ++ second) := by
  intro scope enough
  rw [Scope.run?_append, before scope enough, Option.bind_some, behind scope enough]

theorem line (text : String) (rest : Keeps least body) : Keeps least (.line text :: body) :=
  fun scope enough => rest scope enough

theorem blank (rest : Keeps least body) : Keeps least (.blank :: body) :=
  fun scope enough => rest scope enough

theorem flatMap {α : Type} {values : List α} {part : α → List Step}
    (each : ∀ value ∈ values, Keeps least (part value)) : Keeps least (values.flatMap part) := by
  induction values with
  | nil => exact nil
  | cons value values ih =>
      obtain ⟨here, later⟩ := List.forall_mem_cons.mp each
      exact here.append (ih later)

/-- Steps that all write lines. -/
theorem lines (each : ∀ step ∈ body, ∃ text, step = .line text) : Keeps least body := by
  induction body with
  | nil => exact nil
  | cons step body ih =>
      obtain ⟨⟨text, rfl⟩, later⟩ := List.forall_mem_cons.mp each
      exact line text (ih later)

private theorem map_line {α : Type} {text : α → String} {values : List α} :
    Keeps least (values.map fun value => .line (text value)) :=
  lines fun _ listed => by
    obtain ⟨value, -, rfl⟩ := List.mem_map.mp listed
    exact ⟨text value, rfl⟩

/-- What stands one level deeper between a step that raises the level and one that lowers it. -/
theorem deeper {raise lower : Step} (raised : ∀ scope : Scope,
      scope.after? raise = some { scope with level := scope.level + 1 })
    (lowered : ∀ scope : Scope, Scope.after? { scope with level := scope.level + 1 } lower = some scope)
    (inside : Keeps (least + 1) body) : Keeps least (raise :: body ++ [lower]) := by
  intro scope enough
  have within : Scope.run? { scope with level := scope.level + 1 } body =
      some { scope with level := scope.level + 1 } := inside _ (Nat.succ_le_succ enough)
  rw [List.cons_append, Scope.run?_cons, raised, Option.bind_some, Scope.run?_append, within,
    Option.bind_some, Scope.run?_cons, lowered]
  rfl

/-- What stands between braces is one level further in. -/
theorem braces (inside : Keeps (least + 1) body) : Keeps least (Step.braces body) :=
  deeper (fun _ => rfl) (fun _ => rfl) inside

theorem declarationBraces (inside : Keeps (least + 1) body) :
    Keeps least (Step.declarationBraces body) :=
  deeper (fun _ => rfl) (fun _ => rfl) inside

theorem indented (inside : Keeps (least + 1) body) : Keeps least (Step.indented body) :=
  deeper (fun _ => rfl) (fun _ => rfl) inside

/-- A label stands one level further out than the members behind it. -/
theorem accessLabel (label : String) : Keeps (least + 1) (Step.accessLabel label) := by
  intro scope enough
  -- A successor, so that lowering and raising the level again computes.
  obtain ⟨level, above⟩ := Nat.exists_eq_add_of_lt enough
  obtain ⟨_, opened⟩ := scope
  subst above
  rfl

theorem function (signature : String) (inside : Keeps (least + 1) body) :
    Keeps least (Step.function signature body) :=
  line signature (braces inside)

theorem constructor (signature : String) (inside : Keeps (least + 1) body) :
    Keeps least (Step.constructor signature body) :=
  line signature ((indented inside).append (braces nil))

theorem destructor (className : String) : Keeps least (Step.destructor className) :=
  function _ nil

theorem commaLines (texts : List String) : Keeps least (Step.commaLines texts) := by
  induction texts with
  | nil => exact nil
  | cons text rest ih =>
      cases rest with
      | nil => exact line text nil
      | cons next rest => exact line _ ih

/-- A class that derives from another one. -/
theorem leafClass (artifact : Artifact) (parameters : List ConstructorParameter)
    (members : Keeps (least + 1) body) : Keeps least (leafClass artifact parameters body) :=
  line _ ((declarationBraces
    ((accessLabel _).append (constructor _ (line _ nil)) |>.append (blank nil)
      |>.append (destructor _) |>.append members)).append (blank nil))

end Keeps

namespace RecordMember

variable {least : Nat} (member : RecordMember)

private theorem keeps_declaration : Keeps least member.declaration := by
  have access : Keeps least member.access := by
    rw [access]
    split
    · exact .line _ .nil
    · exact (Keeps.function _ (.line _ .nil)).append (.blank .nil)
        |>.append (.function _ (.line _ .nil))
  have enumAccess : Keeps least member.enumAccess := by
    rw [enumAccess]
    split
    · exact .blank (.function _ (.line _ .nil))
    · exact .nil
  exact .blank (access.append enumAccess)

private theorem keeps_derivedStub : Keeps least member.derivedStub :=
  .blank (.function _ (.line _ .nil))

private theorem keeps_traits (record : String) : Keeps least (member.traits record) := by
  have setter : Keeps (least + 1) (member.traitsSetter record) := by
    rw [traitsSetter]
    split
    · exact .nil
    · exact .blank (.function _ (.line _ .nil))
  have getter : Keeps (least + 1) (member.traitsGetter record) :=
    .blank (.function _ (.line _ .nil))
  exact .append (.blank (.line _ (.line _ .nil)))
    (.declarationBraces (.line _ (setter.append getter)))

end RecordMember

namespace Scope

variable {name : String}

/-- The scope inside of a namespace. -/
def inside (name : String) : Scope :=
  ⟨0, (namespaceParts name).reverse⟩

private theorem run?_enter {parts : List String}
    (valid : ∀ part ∈ parts, isScopeName part.toList = true) (scope : Scope) :
    scope.run? (parts.map Step.enterNamespace) =
      some { scope with opened := parts.reverse ++ scope.opened } := by
  induction parts generalizing scope with
  | nil => rfl
  | cons part parts ih =>
      obtain ⟨here, later⟩ := List.forall_mem_cons.mp valid
      rw [List.map_cons, run?_cons, after?, if_pos here, Option.bind_some, ih later]
      simp

private theorem after?_leaveNamespace (level : Nat) (name : String) (outer : List String) :
    after? ⟨level, name :: outer⟩ (.leaveNamespace name) = some ⟨level, outer⟩ :=
  if_pos rfl

private theorem run?_leave (parts : List String) (scope : Scope) :
    run? { scope with opened := parts ++ scope.opened } (parts.map Step.leaveNamespace) =
      some scope := by
  induction parts with
  | nil => rfl
  | cons part parts ih =>
      rw [List.map_cons, run?_cons, List.cons_append, after?_leaveNamespace, Option.bind_some]
      exact ih

private theorem isScopeName_of_mem_namespaceParts (valid : isNamespace name = true) :
    ∀ part ∈ namespaceParts name, isScopeName part.toList = true := by
  rw [isNamespace, List.all_eq_true] at valid
  rw [namespaceParts, List.forall_mem_map]
  intro part listed
  rw [String.toList_ofList]
  exact valid part listed

private theorem run?_openNamespace (valid : isNamespace name = true) :
    run? ⟨0, []⟩ (openNamespace name) = some (inside name) := by
  rw [openNamespace, run?_append, run?_enter (isScopeName_of_mem_namespaceParts valid),
    List.append_nil]
  rfl

private theorem run?_closeNamespace (name : String) :
    run? (inside name) (closeNamespace name) = some ⟨0, []⟩ := by
  have closed := run?_leave (namespaceParts name).reverse ⟨0, []⟩
  rw [List.append_nil] at closed
  rw [closeNamespace, run?_append, inside, closed]
  rfl

/-- Steps that leave a namespace for another one, and come back. -/
theorem run?_elsewhere {other : String} (valid : isNamespace name = true)
    (alsoValid : isNamespace other = true) {before body : List Step} (start : Keeps 0 before)
    (kept : Keeps 0 body) :
    (inside name).run? (before ++ closeNamespace name ++ openNamespace other ++ body ++
      closeNamespace other ++ openNamespace name) = some (inside name) := by
  simp only [run?_append, start _ (Nat.zero_le _), kept _ (Nat.zero_le _), run?_closeNamespace,
    run?_openNamespace valid, run?_openNamespace alsoValid, Option.bind_some]

end Scope

namespace Header

/-- The body of a header leads back into the namespace in which it stands. -/
def IsScoped (header : Header) : Prop :=
  (Scope.inside header.targetNamespace).run? header.body =
    some (Scope.inside header.targetNamespace)

private theorem keeps_includes (header : Header) : Keeps 0 header.includes := by
  rw [includes]
  split
  · exact Keeps.map_line.append .map_line
  · exact Keeps.map_line.append (.blank .nil) |>.append .map_line

private theorem run?_opening {header : Header} (valid : isNamespace header.targetNamespace = true) :
    Scope.run? ⟨0, []⟩ header.opening = some (Scope.inside header.targetNamespace) := by
  have start : Keeps 0
      ([.line s!"// {header.banner}", .blank, .line s!"#ifndef {Naming.includeGuard header.path}",
          .line s!"#define {Naming.includeGuard header.path}", .blank] ++
        header.includes ++ [.blank, .line s!"using namespace {runtimeNamespace};", .blank]) :=
    .append (.append (.line _ (.blank (.line _ (.line _ (.blank .nil))))) header.keeps_includes)
      (.blank (.line _ (.blank .nil)))
  rw [opening, Scope.run?_append, start _ (Nat.zero_le _), Option.bind_some,
    Scope.run?_openNamespace valid]

private theorem run?_closing (header : Header) :
    (Scope.inside header.targetNamespace).run? header.closing = some ⟨0, []⟩ := by
  rw [closing, Scope.run?_append, Scope.run?_closeNamespace]
  rfl

/-- A header whose body leads back into its namespace is balanced. -/
theorem balanced {header : Header} (valid : isNamespace header.targetNamespace = true)
    (returns : header.IsScoped) : Step.Balanced header.steps := by
  apply Scope.balanced_of_run?
  rw [steps, Scope.run?_append, Scope.run?_append, run?_opening valid, Option.bind_some, returns,
    Option.bind_some, run?_closing]

private theorem enterNamespace_mem_steps {header : Header} {segment : String}
    (part : segment ∈ namespaceParts header.targetNamespace) :
    .enterNamespace segment ∈ header.steps := by
  have opened : .enterNamespace segment ∈ openNamespace header.targetNamespace :=
    List.mem_append_left _ (List.mem_map_of_mem part)
  rw [steps, opening, List.append_assoc]
  exact List.mem_append_left _ (List.mem_append_right _ opened)

end Header

/-- Both headers of a class stand in a namespace, and their bodies lead back into it. -/
structure HeaderPair.ScopedIn (pair : HeaderPair) (targetNamespace : String) : Prop where
  base_eq : pair.base.targetNamespace = targetNamespace
  base : pair.base.IsScoped
  leaf_eq : pair.leaf.targetNamespace = targetNamespace
  leaf : pair.leaf.IsScoped

private theorem HeaderPair.scopedIn_of_keeps {artifact : Artifact} {base leaf : Header}
    (same : leaf.targetNamespace = base.targetNamespace) (baseKept : Keeps 0 base.body)
    (leafKept : Keeps 0 leaf.body) :
    HeaderPair.ScopedIn ⟨artifact, base, leaf⟩ base.targetNamespace :=
  ⟨rfl, baseKept _ (Nat.zero_le _), same, leafKept _ (Nat.zero_le _)⟩

/-- Steps that are rendered one by one as lines. -/
theorem Keeps.of_mapM {least : Nat} {α : Type} {render : α → Except CompileError Step}
    (writes : ∀ value step, render value = .ok step → ∃ text, step = .line text) {values : List α}
    {steps : List Step} (rendered : values.mapM render = .ok steps) : Keeps least steps := by
  refine .lines fun step listed => ?_
  obtain ⟨value, -, here⟩ := exists_left_of_mem (mapM_eq_ok_iff.mp rendered) listed
  exact writes value step here

namespace Specification

variable {spec : Specification .resolved} {targetNamespace : String}

private theorem scopedIn_of_configHeaders {pair : HeaderPair}
    (rendered : spec.configHeaders targetNamespace = .ok pair) : pair.ScopedIn targetNamespace := by
  obtain ⟨functions, functionsRendered, rendered⟩ := bind_eq_ok_iff.mp rendered
  obtain ⟨enumSets, enumSetsRendered, rfl⟩ := bind_pure_eq_ok_iff.mp rendered
  have functionsKept : Keeps 2 functions := by
    refine .of_mapM (fun id step here => ?_) functionsRendered
    obtain ⟨arguments, -, here⟩ := bind_eq_ok_iff.mp here
    obtain ⟨className, -, same⟩ := bind_eq_ok_iff.mp here
    exact ⟨_, (pure_eq_ok_iff.mp same).symm⟩
  have enumSetsKept : Keeps 2 enumSets := by
    refine .of_mapM (fun id step here => ?_) enumSetsRendered
    obtain ⟨arguments, -, same⟩ := bind_eq_ok_iff.mp here
    exact ⟨_, (pure_eq_ok_iff.mp same).symm⟩
  refine HeaderPair.scopedIn_of_keeps rfl ?_ (.leafClass _ _ .nil)
  exact .line _ (.append (.declarationBraces
    ((Keeps.accessLabel _).append (.constructor _ (.line _ .nil))
      |>.append (.blank .nil) |>.append (.destructor _)
      |>.append (.blank .nil) |>.append (.accessLabel _)
      |>.append (.function _ .map_line)
      |>.append (.blank .nil) |>.append (.function _ functionsKept)
      |>.append (.blank .nil) |>.append (.function _ enumSetsKept))) (.blank .nil))

private theorem scopedIn_subsystemHeaders (sequences : List RecordSequence)
    (targetNamespace : String) :
    (subsystemHeaders sequences targetNamespace).ScopedIn targetNamespace := by
  refine HeaderPair.scopedIn_of_keeps rfl ?_ (.leafClass _ _ .nil)
  exact .line _ (.append (.declarationBraces
    ((Keeps.accessLabel _).append (.constructor _ (.line _ .nil))
      |>.append (.blank .nil) |>.append (.destructor _)
      |>.append (.blank .nil) |>.append (.accessLabel _)
      |>.append (.function _ .map_line))) (.blank .nil))

end Specification

namespace RecordContext

variable {context : RecordContext} {pair : HeaderPair} {least : Nat}

private theorem scopedIn_of_metaHeaders (rendered : context.metaHeaders = .ok pair) :
    pair.ScopedIn context.targetNamespace := by
  obtain ⟨tables, -, rfl⟩ := bind_pure_eq_ok_iff.mp rendered
  have initialised : Keeps 1 (metaConstructor (context.artifact .recordMeta).baseClass tables) := by
    rw [metaConstructor]
    split
    · exact .function _ .nil
    · exact .constructor _ (.commaLines _)
  have members : Keeps 1 (metaMembers tables) := by
    rw [metaMembers]
    split
    · exact .nil
    · exact .blank .map_line
  refine HeaderPair.scopedIn_of_keeps rfl ?_ (.leafClass _ _ .nil)
  exact .line _ (.append (.declarationBraces
    ((Keeps.accessLabel _).append initialised |>.append members)) (.blank .nil))

private theorem keeps_writeFields (format : DelimitedFormat) (fields : List Field) :
    Keeps least (format.writeFields fields) := by
  induction fields with
  | nil => exact .nil
  | cons field rest ih =>
      cases rest with
      | nil => exact .line _ .nil
      | cons next rest => exact .line _ (.line _ ih)

private theorem keeps_of_writer {writer : List Step} (rendered : context.writer = .ok writer) :
    Keeps least writer := by
  obtain ⟨format?, -, rfl⟩ := bind_pure_eq_ok_iff.mp rendered
  refine .function _ ?_
  cases format? with
  | none => exact .nil
  | some format => exact (keeps_writeFields format _).append (.line _ .nil)

private theorem keeps_forwardDeclarations (context : RecordContext) :
    Keeps least context.forwardDeclarations := by
  rw [forwardDeclarations]
  split
  · exact .nil
  · exact Keeps.map_line.append (.blank .nil)

private theorem scopedIn_of_recordHeaders (rendered : context.recordHeaders = .ok pair) :
    pair.ScopedIn context.targetNamespace := by
  obtain ⟨writer, written, rfl⟩ := bind_pure_eq_ok_iff.mp rendered
  refine HeaderPair.scopedIn_of_keeps rfl ?_
    (.leafClass _ _ (.flatMap fun member _ => member.keeps_derivedStub))
  exact ((keeps_forwardDeclarations context).append (.line _ (.declarationBraces
    ((Keeps.accessLabel _).append (.constructor _ (.line _ .nil))
      |>.append (.blank .nil) |>.append (.destructor _)
      |>.append (.flatMap fun member _ => RecordMember.keeps_declaration member)
      |>.append (.blank .nil) |>.append (keeps_of_writer written)
      |>.append (.blank .nil) |>.append (.accessLabel _)
      |>.append (.line _ .map_line))))).append (.blank .nil)

/-- The traits leave the target namespace for that of the runtime library, and come back. -/
theorem scopedIn_utilHeaders (valid : isNamespace context.targetNamespace = true) :
    context.utilHeaders.ScopedIn context.targetNamespace := by
  have traits : Keeps 0 (context.recordTraits ++
      context.traitsMembers.flatMap (RecordMember.traits (context.qualified context.record)) ++
      [.blank]) :=
    Keeps.append (.line _ (.line _ .nil))
        (.declarationBraces (.append (.line _ (.line _ (.blank .nil)))
          (.line _ (.declarationBraces (.line _ .map_line)))))
      |>.append (.flatMap fun member _ => member.keeps_traits _) |>.append (.blank .nil)
  refine ⟨rfl, ?_, rfl, rfl⟩
  have returns := Scope.run?_elsewhere valid (by decide : isNamespace runtimeNamespace = true)
    (.line s!"class {(context.artifact .generator).className};"
      (.line s!"class {(context.artifact .setterChain).className};" (.blank .nil))) traits
  simp only [List.append_assoc] at returns
  simp only [Header.IsScoped, utilHeaders, List.append_assoc]
  exact returns

private theorem scopedIn_of_chainHeaders {names : ChainNames}
    (rendered : context.chainHeaders names = .ok pair) :
    pair.ScopedIn context.targetNamespace := by
  obtain ⟨⟨declarations, types⟩, -, rendered⟩ := bind_eq_ok_iff.mp rendered
  obtain ⟨applied, -, rendered⟩ := bind_eq_ok_iff.mp rendered
  obtain ⟨filtering, -, rfl⟩ := bind_pure_eq_ok_iff.mp rendered
  have typeNames : Keeps 1 (chainTypes declarations) := by
    rw [chainTypes]
    split
    · exact .nil
    · exact Keeps.map_line.append (.blank .nil)
  refine HeaderPair.scopedIn_of_keeps rfl ?_
    (.leafClass _ _ (.flatMap fun _ _ => .blank (.function _ (.line _ .nil))))
  exact .line _ (.append (.declarationBraces
    ((Keeps.accessLabel _).append typeNames |>.append (.constructor _ (.commaLines _))
      |>.append (.blank .nil) |>.append (.destructor _)
      |>.append (.flatMap fun _ _ => .blank (.line _ .nil))
      |>.append (.blank .nil) |>.append (.function _ .map_line)
      |>.append (.blank .nil)
      |>.append (.function _ (.line _ (Keeps.map_line.append (.line _ .nil))))
      |>.append (.blank .nil) |>.append (.accessLabel _)
      |>.append (.line _ .map_line))) (.blank .nil))

private theorem scopedIn_of_generatorHeaders (rendered : context.generatorHeaders = .ok pair) :
    pair.ScopedIn context.targetNamespace := by
  obtain ⟨estimator, -, rendered⟩ := bind_eq_ok_iff.mp rendered
  obtain ⟨arguments, -, rendered⟩ := bind_eq_ok_iff.mp rendered
  obtain ⟨taskSteps, tasksRendered, rfl⟩ := bind_pure_eq_ok_iff.mp rendered
  have tasksKept : Keeps 2 taskSteps := by
    refine .of_mapM (fun task step here => ?_) tasksRendered
    obtain ⟨arguments, -, same⟩ := bind_eq_ok_iff.mp here
    exact ⟨_, (pure_eq_ok_iff.mp same).symm⟩
  refine HeaderPair.scopedIn_of_keeps rfl ?_ (.leafClass _ _ .nil)
  exact .line _ (.append (.declarationBraces
    ((Keeps.accessLabel _).append (.line _ (.blank .nil))
      |>.append (.constructor _ (.line _ (.line _ (.line _ .nil))))
      |>.append (.blank .nil) |>.append (.destructor _)
      |>.append (.blank .nil) |>.append (.function _ tasksKept)
      |>.append (.blank .nil) |>.append (.function _ (.line _ .nil))
      |>.append (.blank .nil) |>.append (.function _ (.line _ .nil))
      |>.append (.blank .nil) |>.append (.accessLabel _)
      |>.append (.line _ (.line _ .nil)))) (.blank .nil))

private theorem scopedIn_of_headers (valid : isNamespace context.targetNamespace = true)
    {pairs : List HeaderPair} (rendered : context.headers = .ok pairs) :
    ∀ pair ∈ pairs, pair.ScopedIn context.targetNamespace := by
  obtain ⟨metaPair, record, chain, generator, metaRendered, recordRendered, chainRendered,
    generatorRendered, rfl⟩ := parts_of_headers rendered
  simp only [List.forall_mem_cons, List.not_mem_nil, false_imp_iff, implies_true, and_true]
  exact ⟨scopedIn_of_metaHeaders metaRendered, scopedIn_of_recordHeaders recordRendered,
    scopedIn_utilHeaders valid, scopedIn_of_chainHeaders chainRendered,
    scopedIn_of_generatorHeaders generatorRendered⟩

end RecordContext

/-- Every header of a plan stands in the target namespace and leads back into it. -/
theorem Specification.scopedIn_of_plan {spec : Specification .resolved} {targetNamespace : String}
    (valid : isNamespace targetNamespace = true) :
    ∀ pair ∈ (spec.plan targetNamespace).headers, pair.ScopedIn targetNamespace := by
  intro pair listed
  cases configured : spec.configHeaders targetNamespace with
  | error fault =>
      -- Without a configuration nothing is written.
      rw [plan, configured] at listed
      cases listed
  | ok config =>
      rcases mem_headers_cases_of_config configured listed with
        rendered | ⟨sequence, -, -, pairs, rendered, inside⟩ | rfl
      · exact scopedIn_of_configHeaders rendered
      · exact RecordContext.scopedIn_of_headers valid rendered pair inside
      · exact scopedIn_subsystemHeaders _ _

/-! The namespace of the options. -/

private theorem Text.splitScopes_ne_nil (text : List Char) : splitScopes text ≠ [] := by
  fun_induction splitScopes text with
  | case1 | case2 => exact List.cons_ne_nil _ _
  | case3 c rest _ ih => cases splitScopes rest <;> exact List.cons_ne_nil _ _

/-- The parts of a namespace, joined again. -/
theorem Text.intercalate_splitScopes (text : List Char) :
    [':', ':'].intercalate (splitScopes text) = text := by
  fun_induction splitScopes text with
  | case1 => rfl
  | case2 rest ih =>
      rw [List.intercalate_cons_of_ne_nil (splitScopes_ne_nil rest), ih]
      rfl
  | case3 c rest _ ih => rw [Text.intercalate_consPart (splitScopes_ne_nil rest), ih]

private theorem intercalate_namespaceParts (name : String) :
    "::".intercalate (namespaceParts name) = name := by
  rw [← String.toList_inj, String.toList_intercalate, namespaceParts]
  simpa [Function.comp_def] using Text.intercalate_splitScopes name.toList

private theorem CompileOptions.isNamespace_of_validate {options : CompileOptions}
    (valid : options.validate = .ok ()) : isNamespace options.targetNamespace = true := by
  cases accepted : isNamespace options.targetNamespace with
  | true => rfl
  | false =>
      rw [validate, accepted] at valid
      cases valid

/-- **Scopes.** The target namespace of valid options is a list of identifiers. In every header that is
written for a specification, these are opened, the level of indentation is never lowered at zero and is
zero at the end, and every namespace that is opened has an identifier as its name and is closed under
that name after those inside it. -/
theorem emitted_scopes_balanced {options : CompileOptions} (valid : options.validate = .ok ())
    (spec : Specification .resolved) :
    ∃ segments : List String, segments ≠ [] ∧
      options.targetNamespace = "::".intercalate segments ∧
      (∀ segment ∈ segments, IsIdentifier segment) ∧
      ∀ pair ∈ (spec.plan options.targetNamespace).headers, ∀ header ∈ [pair.base, pair.leaf],
        Step.Balanced header.steps ∧
          ∀ segment ∈ segments, .enterNamespace segment ∈ header.steps := by
  have accepted := CompileOptions.isNamespace_of_validate valid
  refine ⟨namespaceParts options.targetNamespace, ?_, (intercalate_namespaceParts _).symm, ?_, ?_⟩
  · rw [namespaceParts, Ne, List.map_eq_nil_iff]
    exact Text.splitScopes_ne_nil _
  · exact fun segment listed =>
      Scope.isIdentifier_of_isScopeName (Scope.isScopeName_of_mem_namespaceParts accepted _ listed)
  · intro pair listed header either
    have placed := Specification.scopedIn_of_plan accepted pair listed
    have stands : header.targetNamespace = options.targetNamespace ∧ header.IsScoped := by
      rcases List.mem_pair.mp either with rfl | rfl
      · exact ⟨placed.base_eq, placed.base⟩
      · exact ⟨placed.leaf_eq, placed.leaf⟩
    refine ⟨Header.balanced (stands.1 ▸ accepted) stands.2, fun segment part => ?_⟩
    exact Header.enterNamespace_mem_steps (stands.1 ▸ part)

open Prototype.Sample in
/-- The sample is written whole in a namespace inside another one, and all its headers are balanced. -/
theorem referring_scopes_balanced :
    CompileOptions.validate { targetNamespace := "Acme::Gen" } = .ok () ∧
      ∃ spec, readDocument referringText = .ok spec ∧
        (spec.plan "Acme::Gen").headers.map HeaderPair.artifact = spec.artifacts ∧
        ∀ pair ∈ (spec.plan "Acme::Gen").headers,
          Step.Balanced pair.base.steps ∧ Step.Balanced pair.leaf.steps := by
  have valid : CompileOptions.validate { targetNamespace := "Acme::Gen" } = .ok () := by
    decide +kernel
  obtain ⟨spec, _, _, read, -, complete, -⟩ := exists_compiled_referring
  have linked := linked_of_readDocument read
  -- Whether a plan fails does not depend on the namespace.
  have alsoComplete : (spec.plan "Acme::Gen").failure = none := by
    rw [Option.eq_none_iff_forall_ne_some] at complete ⊢
    intro fault failed
    obtain ⟨other, failed⟩ := (spec.plan_fails linked "Shop").1.mpr
      ((spec.plan_fails linked "Acme::Gen").1.mp ⟨fault, failed⟩)
    exact complete other failed
  obtain ⟨_, -, -, -, balanced⟩ := emitted_scopes_balanced valid spec
  refine ⟨valid, spec, read, (spec.artifacts_plan linked).2 alsoComplete, fun pair listed => ?_⟩
  exact ⟨(balanced pair listed _ (by simp)).1, (balanced pair listed _ (by simp)).1⟩

end Recordgen

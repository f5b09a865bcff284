import Recordgen.Specification.Walk

/-! # Names in a setter chain

Every setter of a sequence and every component nested under one becomes a member of the generated
setter chain, with a type name and a member variable of its own. The members are named in the order
in which a walk leaves them, so nested components come before the components that hold them.
-/

namespace Recordgen

/-- A member of a setter chain. -/
structure ChainMember where
  id : ComponentId
  /-- The name of its type, such as `ConstValueProviderType01`. -/
  typeName : String
  /-- The member variable, such as `_constValueProvider01` or `_setStatus`. -/
  memberName : String
  deriving DecidableEq, Repr

/-- The first number from `start` on whose name is not taken; at most `tries` numbers are passed
over. -/
def firstFree (name : Nat → String) (taken : List String) : (tries start : Nat) → Nat
  | 0, start => start
  | tries + 1, start =>
    if taken.contains (name start) then firstFree name taken tries (start + 1) else start

/-- The members of a setter chain, as far as they are named. -/
structure ChainNames where
  /-- The member variables that the setters claim, whenever they are named. -/
  reserved : List String
  /-- The last number given out for each class. -/
  counters : KeyMap Nat := {}
  /-- The members, in the order in which they are named. -/
  members : List ChainMember := []

namespace ChainNames

/-- The member variables given out. -/
def taken (names : ChainNames) : List String :=
  names.members.map ChainMember.memberName

/-- The last number given out for a class. -/
def count (names : ChainNames) (className : String) : Nat :=
  (names.counters.get? className).getD 0

/-- The type name of a member of a class, by its number. -/
def numberedType (className : String) (number : Nat) : String :=
  s!"{className}Type{Text.padTwo number}"

/-- The variable of a nested member of a class, by its number. -/
def numberedVariable (className : String) (number : Nat) : String :=
  s!"_{Naming.lowerCamel className}{Text.padTwo number}"

/-- The variable of a setter. The second of two setters whose keys have one form gets a number. -/
def setterVariable (names : ChainNames) (key : String) : String :=
  let base := Naming.member key
  if names.taken.contains base then
    let numbered (number : Nat) := base ++ Text.padTwo number
    let blocked := names.taken ++ names.reserved
    numbered (firstFree numbered blocked (blocked.length + 1) 2)
  else base

/-- Adds a member of a class under the given number. -/
def push (names : ChainNames) (className : String) (number : Nat) (member : ChainMember) :
    ChainNames :=
  { names with
    counters := names.counters.insert className number
    members := names.members ++ [member] }

/-- Names a setter. -/
def nameSetter (names : ChainNames) (setter : Component .resolved) : ChainNames :=
  let className := setter.kind.entry.className
  let number := names.count className + 1
  names.push className number
    { id := setter.id
      typeName := numberedType className number
      memberName := names.setterVariable setter.key }

/-- Names a nested component. Numbers whose variable is claimed by a setter are passed over. -/
def nameNested (names : ChainNames) (component : Component .resolved) : ChainNames :=
  let className := component.kind.entry.className
  let blocked := names.taken ++ names.reserved
  let number := firstFree (numberedVariable className) blocked (blocked.length + 1)
    (names.count className + 1)
  names.push className number
    { id := component.id
      typeName := numberedType className number
      memberName := numberedVariable className number }

/-- Names what a walk leaves. A component that is not nested is no member. -/
def visit (spec : Specification .resolved) (names : ChainNames) : WalkEvent → ChainNames
  | .leave (.setter id) => names.nameSetter (spec.component id)
  | .leave (.component id) =>
    let component := spec.component id
    if component.parent.isSome then names.nameNested component else names
  | _ => names

/-- Names the members of the setter chain of a sequence. -/
def assign (spec : Specification .resolved) (sequence : RecordSequence) : ChainNames :=
  (spec.walkSequence sequence).foldl (visit spec)
    { reserved := sequence.setters.map fun id => Naming.member (spec.component id).key }

/-- The members' handles: nested components before those that hold them, setters by order key. -/
def postOrder (names : ChainNames) : List ComponentId :=
  names.members.map ChainMember.id

/-- The member with the given handle; the last one, if it was named more than once. -/
def find? (names : ChainNames) (id : ComponentId) : Option ChainMember :=
  names.members.reverse.find? fun member => member.id == id

/-- The member with the given handle. -/
def get (names : ChainNames) (id : ComponentId) : Except CompileError ChainMember :=
  match names.find? id with
  | some member => .ok member
  | none => .error (.rendering (.notInChain id.index))

end ChainNames

end Recordgen

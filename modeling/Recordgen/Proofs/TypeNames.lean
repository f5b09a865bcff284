import Recordgen.Proofs.ArtifactPaths
import Recordgen.Proofs.ChainMembers

/-! # The type names of chain members

A type name consists of a class and a number, and both can be read off it (`numberedType_inj`).
Numbers are given out in ascending order for each class, so no two members of a chain have the same
type name (`nodup_typeNames`). All variables start with an underscore (`head?_memberName`).
-/

namespace Recordgen

namespace Text

/-- A number is padded to two digits. -/
theorem toList_padTwo (number : Nat) :
    (padTwo number).toList =
      if number < 10 then '0' :: Nat.toDigits 10 number else Nat.toDigits 10 number := by
  rw [padTwo]
  split <;> simp [Nat.toList_repr]

theorem isDigit_of_mem_padTwo {number : Nat} {c : Char} (member : c ∈ (padTwo number).toList) :
    c.isDigit = true := by
  have digits : ∀ c ∈ Nat.toDigits 10 number, c.isDigit = true := fun c inside =>
    Nat.isDigit_of_mem_toDigits (by omega) (by omega) inside
  rw [toList_padTwo] at member
  split at member
  · rcases List.mem_cons.mp member with rfl | inside
    · rfl
    · exact digits c inside
  · exact digits c member

/-- The number can be read back, as a zero in front does not change it. -/
theorem ofDigitChars_padTwo (number : Nat) :
    Nat.ofDigitChars 10 (padTwo number).toList 0 = number := by
  have digits : Nat.ofDigitChars 10 (Nat.toDigits 10 number) 0 = number :=
    Nat.ofDigitChars_ten_toDigits
  rw [toList_padTwo]
  split
  · exact digits
  · exact digits

end Text

namespace ChainNames

/-- A numbered type name tells its class and number. -/
theorem numberedType_inj {other : String} {number another : Nat}
    (same : numberedType className number = numberedType other another) :
    className = other ∧ number = another := by
  have spelled : ∀ (className : String) (number : Nat), (numberedType className number).toList =
      (className.toList ++ "Typ".toList) ++ 'e' :: (Text.padTwo number).toList := by
    intro className number
    simp [numberedType, toString]
  have letter : ∀ number, 'e' ∉ (Text.padTwo number).toList := fun number inside =>
    absurd (Text.isDigit_of_mem_padTwo inside) (by decide)
  have chars := congrArg String.toList same
  rw [spelled, spelled] at chars
  obtain ⟨front, digits⟩ := Text.append_cons_inj (letter number) (letter another) chars
  refine ⟨String.toList_inj.mp (List.append_cancel_right front), ?_⟩
  rw [← Text.ofDigitChars_padTwo number, digits, Text.ofDigitChars_padTwo]

/-- The members have numbers that were given out, and no two have the same type name. -/
structure TypesNumbered (names : ChainNames) : Prop where
  counted : ∀ member ∈ names.members, ∃ className number,
    member.typeName = numberedType className number ∧ number ≤ names.count className
  distinct : (names.members.map ChainMember.typeName).Nodup

variable {names : ChainNames} {className : String} {member : ChainMember}

/-- A new member of a class has a higher number than the ones before. -/
theorem TypesNumbered.push (numbered : names.TypesNumbered) {number : Nat}
    (typed : member.typeName = numberedType className number)
    (fresh : names.count className < number) :
    (names.push className number member).TypesNumbered := by
  have counts : ∀ other, (names.push className number member).count other =
      if other = className then number else names.count other := by
    intro other
    rw [count, ChainNames.push, KeyMap.get?_insert]
    split <;> rfl
  constructor
  · intro other listed
    rw [ChainNames.push, List.mem_append, List.mem_singleton] at listed
    rcases listed with before | rfl
    · obtain ⟨its, given, named, below⟩ := numbered.counted other before
      refine ⟨its, given, named, ?_⟩
      rw [counts]
      split
      · rename_i same
        rw [same] at below
        omega
      · exact below
    · exact ⟨className, number, typed, by simp [counts]⟩
  · rw [ChainNames.push, List.map_append, List.nodup_append]
    refine ⟨numbered.distinct, List.nodup_singleton _, ?_⟩
    intro name before again alone clash
    obtain ⟨other, listed, rfl⟩ := List.mem_map.mp before
    obtain rfl := List.mem_singleton.mp alone
    obtain ⟨its, given, named, below⟩ := numbered.counted other listed
    rw [named, typed] at clash
    obtain ⟨rfl, rfl⟩ := numberedType_inj clash
    omega

private theorem le_firstFree (name : Nat → String) (taken : List String) (tries start : Nat) :
    start ≤ firstFree name taken tries start := by
  induction tries generalizing start with
  | zero => exact Nat.le_refl _
  | succ tries ih =>
      rw [firstFree]
      split
      · have later := ih (start + 1)
        omega
      · exact Nat.le_refl _

/-- A step of the walk keeps the types numbered. -/
theorem TypesNumbered.visit (numbered : names.TypesNumbered) (spec : Specification .resolved)
    (event : WalkEvent) : (visit spec names event).TypesNumbered := by
  unfold ChainNames.visit
  split
  · exact numbered.push rfl (Nat.lt_succ_self _)
  · dsimp only
    split
    · exact numbered.push rfl (le_firstFree _ _ _ _)
    · exact numbered
  · exact numbered

/-- What naming starts with and every event keeps holds of the names of a chain. -/
theorem assign_induction {motive : ChainNames → Prop} (spec : Specification .resolved)
    (sequence : RecordSequence) (start : ∀ reserved, motive { reserved := reserved })
    (step : ∀ names event, motive names → motive (visit spec names event)) :
    motive (assign spec sequence) := by
  unfold assign
  generalize spec.walkSequence sequence = events
  have run : ∀ names, motive names → motive (events.foldl (visit spec) names) := by
    induction events with
    | nil => exact fun _ holds => holds
    | cons event events ih => exact fun names holds => ih _ (step names event holds)
  exact run _ (start _)

private theorem typesNumbered_assign (spec : Specification .resolved) (sequence : RecordSequence) :
    (assign spec sequence).TypesNumbered :=
  assign_induction spec sequence (fun _ => ⟨List.forall_mem_nil _, List.nodup_nil⟩)
    fun _ event numbered => numbered.visit spec event

private theorem head?_setterVariable (names : ChainNames) (key : String) :
    (names.setterVariable key).toList.head? = some '_' := by
  unfold setterVariable
  dsimp only
  split <;> simp [Naming.member]

private theorem head?_visit {event : WalkEvent} (spec : Specification .resolved)
    (started : ∀ member ∈ names.members, member.memberName.toList.head? = some '_') :
    ∀ member ∈ (visit spec names event).members, member.memberName.toList.head? = some '_' := by
  unfold visit
  split
  · rw [nameSetter, push, List.forall_mem_append, List.forall_mem_singleton]
    exact ⟨started, head?_setterVariable _ _⟩
  · dsimp only
    split
    · rw [nameNested, push, List.forall_mem_append, List.forall_mem_singleton]
      exact ⟨started, by simp [numberedVariable, toString]⟩
    · exact started
  · exact started

/-- **Every variable of a chain starts with an underscore.** -/
theorem head?_memberName {spec : Specification .resolved} {sequence : RecordSequence}
    (listed : member ∈ (assign spec sequence).members) :
    member.memberName.toList.head? = some '_' :=
  assign_induction (motive := fun names => ∀ member ∈ names.members,
      member.memberName.toList.head? = some '_') spec sequence (fun _ => List.forall_mem_nil _)
    (fun _ _ => head?_visit spec) member listed

/-- **No two members of a chain have the same type name.** -/
theorem nodup_typeNames (spec : Specification .resolved) (sequence : RecordSequence) :
    ((assign spec sequence).members.map ChainMember.typeName).Nodup :=
  (typesNumbered_assign spec sequence).distinct

end ChainNames

end Recordgen

import Recordgen.Kind.Dispatch
import Recordgen.Proofs.Lists
import Recordgen.Proofs.Outcome

/-! # What the catalogue guarantees

Facts that hold of every kind of the catalogue, and what a type string that is accepted tells about
the kind it names: the kind is one that the category admits, and the attributes hold a value for
each of its parameters (`Category.dispatch_captured`).
-/

namespace Recordgen

open Outcome

namespace Kind

theorem schema_keys_nodup (kind : Kind) : (kind.entry.schema.map SchemaEntry.key).Nodup := by
  cases kind <;> decide

/-- An argument that may be left out has a literal that stands in for it, and only a single literal
has one. -/
theorem schema_defaults (kind : Kind) : ∀ entry ∈ kind.entry.schema,
    (entry.isOptional = true → entry.default.isSome = true) ∧
      (entry.default.isSome = true → entry.kind = .single .literal) := by
  cases kind <;> decide

theorem parameter_names_nodup (kind : Kind) :
    (kind.entry.params.map TypeParameter.name).Nodup := by
  cases kind <;> decide

end Kind

/-- A candidate of a category has that category. -/
theorem Category.category_of_mem_candidates (category : Category) :
    ∀ kind ∈ category.candidates, kind.entry.category = category := by
  cases category <;> decide

namespace Attributes

private theorem lookup_setIn (entries : List (String × AttributeValue)) (key other : String)
    (value : AttributeValue) :
    (setIn key value entries).lookup other =
      if other = key then some value else entries.lookup other := by
  induction entries with
  | nil => rw [setIn, lookup_cons_ite]
  | cons entry rest ih =>
      by_cases here : entry.1 = key
      · rw [setIn, if_pos here, lookup_cons_ite, lookup_cons_ite, here]
        by_cases same : other = key <;> simp only [same, ↓reduceIte]
      · rw [setIn, if_neg here, lookup_cons_ite, lookup_cons_ite, ih]
        by_cases same : other = entry.1
        · have different : other ≠ key := fun equal => here (same ▸ equal)
          rw [if_pos same, if_neg different, if_pos same]
        · rw [if_neg same, if_neg same]

private theorem get?_set (attributes : Attributes) (key other : String) (value : AttributeValue) :
    (attributes.set key value).get? other =
      if other = key then some value else attributes.get? other :=
  lookup_setIn attributes.entries key other value

end Attributes

/-- Whether attributes hold the value of a type parameter: the name of a literal type, or a positive
number. -/
def TypeParameter.Captured (attributes : Attributes) : TypeParameter → Prop
  | .literal name => ∃ text type, attributes.get? name = some (.text text) ∧
      LiteralType.ofName? text = some type
  | .size name => ∃ size : Nat, 0 < size ∧ attributes.get? name = some (.integer size)

namespace Text

private theorem le_of_readDigits? {value number : Nat} {digits : List Char}
    (read : readDigits? value digits = some number) : value ≤ number := by
  induction digits generalizing value with
  | nil => exact Nat.le_of_eq (Option.some.inj read)
  | cons c rest ih =>
      obtain ⟨digit, -, later⟩ := Option.bind_eq_some_iff.mp read
      have := ih later
      omega

/-- A number whose first digit is not zero is positive. -/
theorem pos_of_readBounded? {limit number : Nat} {digits : List Char}
    (shape : TypeParameter.isSizeText digits = true)
    (read : readBounded? limit digits = some number) : 0 < number := by
  cases digits with
  | nil => simp [TypeParameter.isSizeText] at shape
  | cons c rest =>
      simp only [TypeParameter.isSizeText, ne_eq, Bool.and_eq_true, decide_not,
        Bool.not_eq_eq_eq_not, Bool.not_true, decide_eq_false_iff_not] at shape
      obtain ⟨⟨isDigit, notZero⟩, -⟩ := shape
      obtain ⟨read, -⟩ := Option.filter_eq_some_iff.mp read
      obtain ⟨digit, value, later⟩ := Option.bind_eq_some_iff.mp read
      simp only [digitValue?, isDigit, ↓reduceIte, Option.some.injEq] at value
      have above : '0'.toNat < c.toNat := by
        have low : '0'.toNat ≤ c.toNat := by
          simp only [Char.isDigit, Bool.and_eq_true, decide_eq_true_eq] at isDigit
          exact isDigit.1
        refine Nat.lt_of_le_of_ne low fun same => notZero ?_
        exact (Char.toNat_inj.mp same).symm
      have := le_of_readDigits? later
      omega

end Text

/-- The value that is kept of an admitted parameter can be read back. -/
theorem TypeParameter.captured_of_value {param : TypeParameter} {text : List Char}
    {typeText : String} {value : AttributeValue} {attributes : Attributes}
    (admitted : param.admits text = true) (kept : param.value typeText text = .ok value)
    (held : attributes.get? param.name = some value) : param.Captured attributes := by
  cases param with
  | literal name =>
      obtain ⟨type, known⟩ := Option.isSome_iff_exists.mp admitted
      obtain rfl := Except.ok.inj kept
      exact ⟨String.ofList text, type, held, known⟩
  | size name =>
      simp only [TypeParameter.value] at kept
      split at kept
      · rename_i number read
        obtain rfl := Except.ok.inj kept
        exact ⟨number, Text.pos_of_readBounded? admitted read, held⟩
      · cases kept

/-- Captured parameters are admitted, and there is one text for each parameter. -/
theorem CatalogueEntry.admits_of_captures? {entry : CatalogueEntry} {text : List Char}
    {parts : List (List Char)} (captured : entry.captures? text = some parts) :
    parts.length = entry.params.length ∧
      ∀ pair ∈ entry.params.zip parts, pair.1.admits pair.2 = true := by
  obtain ⟨rest, -, captured⟩ := Option.bind_eq_some_iff.mp captured
  split at captured
  · rename_i none
    obtain rfl := Option.some.inj captured
    simp [none]
  · rename_i param params rest found
    obtain ⟨inside, -, captured⟩ := Option.bind_eq_some_iff.mp captured
    simp only [admittedParts?, Option.ite_none_right_eq_some, Option.some.injEq] at captured
    obtain ⟨⟨length, all⟩, rfl⟩ := captured
    rw [found]
    exact ⟨length, List.all_eq_true.mp all⟩
  · cases captured

/-- Each parameter's value can be looked up once all have been set, and other names keep theirs. -/
theorem get?_of_setParameters {typeText : String} {pairs : List (TypeParameter × List Char)}
    {start result : Attributes} (distinct : (pairs.map fun pair => pair.1.name).Nodup)
    (succeeded : pairs.foldlM
      (fun attributes (pair : TypeParameter × List Char) => do
        return attributes.set pair.1.name (← pair.1.value typeText pair.2)) start = .ok result) :
    (∀ pair ∈ pairs, ∃ value, pair.1.value typeText pair.2 = .ok value ∧
      result.get? pair.1.name = some value) ∧
    ∀ name, name ∉ pairs.map (fun pair => pair.1.name) → result.get? name = start.get? name := by
  induction pairs generalizing start with
  | nil =>
      obtain rfl := pure_eq_ok_iff.mp succeeded
      simp
  | cons pair pairs ih =>
      rw [List.foldlM_cons] at succeeded
      obtain ⟨next, here, later⟩ := bind_eq_ok_iff.mp succeeded
      obtain ⟨value, valued, rfl⟩ := bind_pure_eq_ok_iff.mp here
      rw [List.map_cons, List.nodup_cons] at distinct
      obtain ⟨held, kept⟩ := ih distinct.2 later
      refine ⟨?_, ?_⟩
      · intro other member
        rcases List.mem_cons.mp member with rfl | member
        · exact ⟨value, valued, by rw [kept _ distinct.1, Attributes.get?_set, if_pos rfl]⟩
        · exact held other member
      · intro name absent
        rw [List.map_cons, List.mem_cons, not_or] at absent
        rw [kept name absent.2, Attributes.get?_set, if_neg absent.1]

/-- A type string that is accepted names a kind that the category admits, and gives a value for each
parameter of that kind. -/
theorem Category.dispatch_captured {category : Category} {text : String} {found : KindMatch}
    (dispatched : category.dispatch text = .ok found) :
    found.kind ∈ category.candidates ∧
      ∀ param ∈ found.kind.entry.params, param.Captured found.attributes := by
  simp only [Category.dispatch] at dispatched
  split at dispatched
  · rename_i kind parts matched
    obtain ⟨attributes, kept, rfl⟩ := bind_pure_eq_ok_iff.mp dispatched
    obtain ⟨candidate, member, matched⟩ := List.exists_of_findSome?_eq_some matched
    obtain ⟨captured, reading, same⟩ := Option.map_eq_some_iff.mp matched
    obtain ⟨rfl, rfl⟩ := Prod.mk.inj same
    refine ⟨member, ?_⟩
    obtain ⟨length, admitted⟩ := CatalogueEntry.admits_of_captures? reading
    have parameters : (candidate.entry.params.zip captured).map Prod.fst = candidate.entry.params :=
      List.map_fst_zip (Nat.le_of_eq length.symm)
    have names : (candidate.entry.params.zip captured).map (fun pair => pair.1.name) =
        candidate.entry.params.map TypeParameter.name := by
      conv_rhs => rw [← parameters, List.map_map]
      rfl
    obtain ⟨held, -⟩ := get?_of_setParameters (names ▸ candidate.parameter_names_nodup) kept
    intro param present
    obtain ⟨pair, paired, rfl⟩ := List.mem_map.mp (parameters.symm ▸ present)
    obtain ⟨value, valued, got⟩ := held pair paired
    exact TypeParameter.captured_of_value (admitted _ paired) valued got
  · cases dispatched

end Recordgen

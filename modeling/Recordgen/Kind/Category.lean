/-! # Categories of components

A category is the place a component is asked for: as a function of the specification, as a setter of
a chain, as the value of an argument, and so on. Each category admits a few kinds.
-/

namespace Recordgen

/-- Where a component can stand. -/
inductive Category where
  | function
  | enumSet
  | setter
  | valueProvider
  | rangeProvider
  | referenceProvider
  | predicateProvider
  | binder
  | cardinalityEstimator
  | sequenceIterator
  | outputFormat
  deriving DecidableEq, Repr

namespace Category

/-- All categories. -/
def all : List Category :=
  [function, enumSet, setter, valueProvider, rangeProvider, referenceProvider, predicateProvider,
    binder, cardinalityEstimator, sequenceIterator, outputFormat]

/-- The spelling of a category. -/
def name : Category → String
  | function => "function"
  | enumSet => "enum_set"
  | setter => "setter"
  | valueProvider => "value_provider"
  | rangeProvider => "range_provider"
  | referenceProvider => "reference_provider"
  | predicateProvider => "predicate_provider"
  | binder => "binder"
  | cardinalityEstimator => "cardinality_estimator"
  | sequenceIterator => "sequence_iterator"
  | outputFormat => "output_format"

/-- The category with the given spelling. -/
def ofName? (text : String) : Option Category :=
  all.find? fun category => category.name == text

theorem mem_all (category : Category) : category ∈ all := by
  cases category <;> decide

end Category

/-- The categories of components that can be nested in an argument. -/
inductive NestedCategory where
  | valueProvider
  | rangeProvider
  | referenceProvider
  | predicateProvider
  | binder
  deriving DecidableEq, Repr

/-- A nested category as a category. -/
def NestedCategory.category : NestedCategory → Category
  | valueProvider => .valueProvider
  | rangeProvider => .rangeProvider
  | referenceProvider => .referenceProvider
  | predicateProvider => .predicateProvider
  | binder => .binder

end Recordgen

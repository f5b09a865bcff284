import Recordgen.Kind.Schema

/-! # The catalogue of component kinds

Every component of a specification is of one of the kinds below. The catalogue is closed: it tells
for each kind how its type string begins, which parameters it has, in which category it stands,
which runtime class it becomes, which header declares that class, which arguments it takes and how
they are passed on.
-/

namespace Recordgen

/-- A kind of component. -/
inductive Kind where
  | uniformProbability
  | normalProbability
  | paretoProbability
  | combinedProbability
  | conditionalCombinedProbability
  | enumSet
  | fieldSetter
  | referenceSetter
  | callbackValueProvider
  | clusteredValueProvider
  | constValueProvider
  | contextFieldValueProvider
  | elementWiseValueProvider
  | randomValueProvider
  | constRangeProvider
  | contextFieldRangeProvider
  | clusteredReferenceProvider
  | randomReferenceProvider
  | equalityPredicateProvider
  | fieldBinder
  | constEstimator
  | linearScaleEstimator
  | partitionedIterator
  | emptyOutputFormat
  | csvOutputFormat
  deriving DecidableEq, Repr, Inhabited

/-- What the catalogue tells about a kind. -/
structure CatalogueEntry where
  /-- The name in a type string. -/
  name : String
  params : List TypeParameter := []
  category : Category
  /-- The runtime class, without template arguments. -/
  className : String
  /-- The runtime header that declares the class. -/
  header : String
  schema : List SchemaEntry := []
  directives : List Directive := []

namespace Kind

/-- All kinds. -/
def all : List Kind :=
  [uniformProbability, normalProbability, paretoProbability, combinedProbability,
    conditionalCombinedProbability, enumSet, fieldSetter, referenceSetter, callbackValueProvider,
    clusteredValueProvider, constValueProvider, contextFieldValueProvider,
    elementWiseValueProvider, randomValueProvider, constRangeProvider, contextFieldRangeProvider,
    clusteredReferenceProvider, randomReferenceProvider, equalityPredicateProvider, fieldBinder,
    constEstimator, linearScaleEstimator, partitionedIterator, emptyOutputFormat,
    csvOutputFormat]

/-- The parameter that tells the type of the values a component deals with. -/
def valueType : TypeParameter :=
  .literal "value_type"

/-- What the catalogue tells about each kind. -/
def entry : Kind → CatalogueEntry
  | uniformProbability =>
    { name := "uniform_probability"
      params := [valueType]
      category := .function
      className := "UniformPrFunction"
      header := "math/probability/Probability.h"
      schema := [.one "x_min" .literal, .one "x_max" .literal]
      directives := [.literal "x_min", .literal "x_max"] }
  | normalProbability =>
    { name := "normal_probability"
      category := .function
      className := "NormalPrFunction"
      header := "math/probability/Probability.h"
      schema := [.one "mean" .literal, .one "stddev" .literal]
      directives := [.literal "mean", .literal "stddev"] }
  | paretoProbability =>
    { name := "pareto_probability"
      category := .function
      className := "ParetoPrFunction"
      header := "math/probability/Probability.h"
      schema := [.one "x_min" .literal, .one "alpha" .literal]
      directives := [.literal "x_min", .literal "alpha"] }
  | combinedProbability =>
    { name := "combined_probability"
      params := [valueType]
      category := .function
      className := "CombinedPrFunction"
      header := "math/probability/Probability.h"
      schema := [.one "path" .literal]
      directives := [.literal "path"] }
  | conditionalCombinedProbability =>
    { name := "conditional_combined_probability"
      params := [valueType, .literal "condition_type"]
      category := .function
      className := "ConditionalCombinedPrFunction"
      header := "math/probability/Probability.h"
      schema := [.one "path" .literal]
      directives := [.literal "path"] }
  | enumSet =>
    { name := "enum_set"
      category := .enumSet
      className := "EnumSet"
      header := "config/EnumSet.h"
      schema := [.one "path" .literal]
      directives := [.literal "path"] }
  | fieldSetter =>
    { name := "field_setter"
      category := .setter
      className := "FieldSetter"
      header := "runtime/setter/FieldSetter.h"
      schema := [.one "field" .fieldRef, .one "value" (.nested .valueProvider)]
      directives := [.nested "value"] }
  | referenceSetter =>
    { name := "reference_setter"
      category := .setter
      className := "ReferenceSetter"
      header := "runtime/setter/ReferenceSetter.h"
      schema := [.one "reference" .referenceRef, .one "value" (.nested .referenceProvider)]
      directives := [.nested "value"] }
  | callbackValueProvider =>
    { name := "callback_value_provider"
      params := [valueType]
      category := .valueProvider
      className := "CallbackValueProvider"
      header := "runtime/provider/value/CallbackValueProvider.h"
      schema := [.one "name" .literal, .defaulted "arity" .i16u "0"]
      directives := [.verbatim "*this", .callback "name", .literal "arity"] }
  | clusteredValueProvider =>
    { name := "clustered_value_provider"
      params := [valueType]
      category := .valueProvider
      className := "ClusteredValueProvider"
      header := "runtime/provider/value/ClusteredValueProvider.h"
      schema := [.one "probability" .functionRef, .one "cardinality" (.nested .rangeProvider)]
      directives := [.function "probability", .nested "cardinality"] }
  | constValueProvider =>
    { name := "const_value_provider"
      params := [valueType]
      category := .valueProvider
      className := "ConstValueProvider"
      header := "runtime/provider/value/ConstValueProvider.h"
      schema := [.one "value" .literal]
      directives := [.literal "value"] }
  | contextFieldValueProvider =>
    { name := "context_field_value_provider"
      params := [valueType]
      category := .valueProvider
      className := "ContextFieldValueProvider"
      header := "runtime/provider/value/ContextFieldValueProvider.h"
      schema := [.one "field" .fieldRef]
      directives := [.fieldAccessor "field"] }
  | elementWiseValueProvider =>
    { name := "element_wise_value_provider"
      params := [valueType, .size "size"]
      category := .valueProvider
      className := "ElementWiseValueProvider"
      header := "runtime/provider/value/ElementWiseValueProvider.h"
      schema := [.many "element_value_provider" (.nested .valueProvider)]
      directives := [.nested "element_value_provider"] }
  | randomValueProvider =>
    { name := "random_value_provider"
      params := [valueType]
      category := .valueProvider
      className := "RandomValueProvider"
      header := "runtime/provider/value/RandomValueProvider.h"
      schema := [.one "probability" .functionRef]
      directives := [.function "probability"] }
  | constRangeProvider =>
    { name := "const_range_provider"
      params := [valueType]
      category := .rangeProvider
      className := "ConstRangeProvider"
      header := "runtime/provider/range/ConstRangeProvider.h"
      schema := [.one "min" .literal, .one "max" .literal]
      directives := [.literal "min", .literal "max"] }
  | contextFieldRangeProvider =>
    { name := "context_field_range_provider"
      params := [valueType]
      category := .rangeProvider
      className := "ContextFieldRangeProvider"
      header := "runtime/provider/range/ContextFieldRangeProvider.h"
      schema := [.one "field" .fieldRef]
      directives := [.fieldSetter "field"] }
  | clusteredReferenceProvider =>
    { name := "clustered_reference_provider"
      category := .referenceProvider
      className := "ClusteredReferenceProvider"
      header := "runtime/provider/reference/ClusteredReferenceProvider.h"
      schema := [.one "children_count" (.nested .rangeProvider),
        .one "children_count_max" .literal]
      directives := [.nested "children_count", .literal "children_count_max", .sequenceInspector] }
  | randomReferenceProvider =>
    { name := "random_reference_provider"
      category := .referenceProvider
      className := "RandomReferenceProvider"
      header := "runtime/provider/reference/RandomReferenceProvider.h"
      schema := [.one "predicate" (.nested .predicateProvider)]
      directives := [.nested "predicate", .sequenceInspector] }
  | equalityPredicateProvider =>
    { name := "equality_predicate_provider"
      category := .predicateProvider
      className := "EqualityPredicateProvider"
      header := "runtime/provider/predicate/EqualityPredicateProvider.h"
      schema := [.many "binder" (.nested .binder)]
      directives := [.nested "binder"] }
  | fieldBinder =>
    { name := "field_binder"
      category := .binder
      className := "FieldBinder"
      header := "runtime/provider/predicate/FieldBinder.h"
      schema := [.one "field" .fieldRef, .one "value" (.nested .valueProvider)]
      directives := [.nested "value"] }
  | constEstimator =>
    { name := "const_estimator"
      category := .cardinalityEstimator
      className := "ConstEstimator"
      header := "runtime/setter/CardinalityEstimator.h"
      schema := [.one "cardinality" .literal]
      directives := [.literal "cardinality"] }
  | linearScaleEstimator =>
    { name := "linear_scale_estimator"
      category := .cardinalityEstimator
      className := "LinearScaleEstimator"
      header := "runtime/setter/CardinalityEstimator.h"
      schema := [.one "base_cardinality" .literal]
      directives := [.environment "config", .literal "base_cardinality"] }
  | partitionedIterator =>
    { name := "partitioned_iterator"
      category := .sequenceIterator
      className := "PartitionedSequenceIteratorTask"
      header := "generator/PartitionedSequenceIterator.h"
      directives := [.verbatim "*this", .environment "config"] }
  | emptyOutputFormat =>
    { name := "empty"
      category := .outputFormat
      className := "EmptyOutputFormat"
      header := "io/OutputCollector.h" }
  | csvOutputFormat =>
    { name := "csv"
      category := .outputFormat
      className := "CsvOutputFormat"
      header := "io/OutputCollector.h"
      schema := [.defaulted "delimiter" .char "|", .defaulted "quoted" .bool "false"] }

/-- The name of a kind in a type string. -/
def name (kind : Kind) : String :=
  kind.entry.name

/-- The kind with the given name. -/
def ofName? (text : String) : Option Kind :=
  all.find? fun kind => kind.name == text

theorem mem_all (kind : Kind) : kind ∈ all := by
  cases kind <;> decide

end Kind

/-- The kinds that a category admits, in the order in which they are tried. -/
def Category.candidates : Category → List Kind
  | .function => [.uniformProbability, .normalProbability, .paretoProbability,
      .combinedProbability, .conditionalCombinedProbability]
  | .enumSet => [.enumSet]
  | .setter => [.fieldSetter, .referenceSetter]
  | .valueProvider => [.callbackValueProvider, .clusteredValueProvider, .constValueProvider,
      .contextFieldValueProvider, .elementWiseValueProvider, .randomValueProvider]
  | .rangeProvider => [.constRangeProvider, .contextFieldRangeProvider]
  | .referenceProvider => [.clusteredReferenceProvider, .randomReferenceProvider]
  | .predicateProvider => [.equalityPredicateProvider]
  | .binder => [.fieldBinder]
  | .cardinalityEstimator => [.constEstimator, .linearScaleEstimator]
  | .sequenceIterator => [.partitionedIterator]
  | .outputFormat => [.emptyOutputFormat, .csvOutputFormat]

namespace CatalogueEntry

/-- How messages write a type parameter. -/
def parameterSign : TypeParameter → String
  | .literal _ => "T"
  | .size _ => "N"

/-- How messages write a kind with its parameters. -/
def signature (entry : CatalogueEntry) : String :=
  match entry.params with
  | [] => entry.name
  | params => s!"{entry.name}[" ++ ";".intercalate (params.map parameterSign) ++ "]"

/-- The schema entry of an argument. -/
def argument? (entry : CatalogueEntry) (key : String) : Option SchemaEntry :=
  entry.schema.find? fun argument => argument.key == key

end CatalogueEntry

end Recordgen

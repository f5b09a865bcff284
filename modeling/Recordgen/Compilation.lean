import Recordgen.Emission.Run
import Recordgen.Linking.Resolution
import Recordgen.Options
import Recordgen.Prototype.Document

/-! # Compilation

A document is parsed, resolved and emitted. Nothing is written unless it is resolved.
-/

namespace Recordgen

/-- The resolved specification of a document. -/
def readDocument (text : String) : Except CompileError (Specification .resolved) := do
  Linking.resolve (← Prototype.parse text)

/-- Compiles a document into a sink. -/
def compileDocument {m : Type → Type} [Monad m] (sink : Sink m) (targetNamespace text : String) :
    ExceptT CompileError m Report := do
  let spec ← ExceptT.mk (pure (readDocument text))
  sink.runPlan (spec.plan targetNamespace)

/-- Compiles a document into a store in memory. The store is given back whether the run succeeds or
not. -/
def compileInMemory (store : MemoryStore) (targetNamespace text : String) :
    Except CompileError Report × MemoryStore :=
  (compileDocument memorySink targetNamespace text).run store

/-- Compiles a specification as it was read into a store in memory. -/
def compileSpecification (store : MemoryStore) (targetNamespace : String)
    (spec : Specification .raw) : Except CompileError Report × MemoryStore :=
  (do
    let resolved ← ExceptT.mk (pure (Linking.resolve spec))
    memorySink.runPlan (resolved.plan targetNamespace) :
    ExceptT CompileError (StateM MemoryStore) Report).run store

end Recordgen

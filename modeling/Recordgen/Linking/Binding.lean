import Recordgen.Linking.Path
import Recordgen.Linking.Site

/-! # Bindings

A binding tells what the name at a slot denotes. Names are bound kind by kind: first the records
that references refer to, then fields, references and functions.
-/

namespace Recordgen.Linking

/-- Binds a slot, in place of an earlier binding of the same slot. -/
def bindSlot {α : Type} (slot : Slot) (link : α) : List (Slot × α) → List (Slot × α)
  | [] => [(slot, link)]
  | binding :: rest =>
    if binding.1 = slot then (slot, link) :: rest else binding :: bindSlot slot link rest

/-- Binds each site to what `resolve` finds, in order. -/
def bindSites {α : Type} (resolve : LinkSite → Except CompileError α) (sites : List LinkSite) :
    Except CompileError (List (Slot × α)) :=
  sites.foldlM (fun bindings site => do return bindSlot site.slot (← resolve site) bindings) []

/-- What the names of a specification denote. -/
structure Bindings where
  /-- The sequence that each reference refers to. -/
  targets : List SequenceId
  fields : List (Slot × FieldLink)
  references : List (Slot × ReferenceLink)
  functions : List (Slot × ComponentId)

/-- The sequence that a reference refers to. -/
def resolveTarget (spec : Specification .raw) (reference : Reference .raw) :
    Except CompileError SequenceId :=
  match spec.sequenceByKey? reference.target with
  | some sequence => .ok sequence.id
  | none =>
    let owner := (spec.sequence reference.owner).key
    .error (.unresolved .record reference.target reference.target
      s!"reference '{reference.name}' of record type '{owner}'")

/-- The function that a site names. -/
def resolveFunction (spec : Specification .raw) (site : LinkSite) :
    Except CompileError ComponentId :=
  match spec.functions.get? site.name with
  | some function => .ok function
  | none => .error (.unresolved .function site.name site.name site.place)

/-- Binds all names of a specification. -/
def bindAll (spec : Specification .raw) : Except CompileError Bindings := do
  let sites := linkSites spec
  let ofKind (kind : LinkKind) := sites.filter fun site => site.kind == kind
  let targets ← spec.references.toList.mapM (resolveTarget spec)
  let fields ← bindSites
    (fun site => resolveFieldPath spec targets site.name site.owner site.place) (ofKind .field)
  let references ← bindSites
    (fun site => resolveReferencePath spec site.name site.owner site.place) (ofKind .reference)
  let functions ← bindSites (resolveFunction spec) (ofKind .function)
  return ⟨targets, fields, references, functions⟩

end Recordgen.Linking

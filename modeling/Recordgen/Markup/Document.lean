import Recordgen.Markup.Mark
import Recordgen.Markup.Tree

/-! # Reading a document

`scan` turns a text into events, up to the end or to the first fault, and `parse` builds the tree. A
document is read once, from left to right, so the fault that comes first in the document is the one
reported, whether it lies in the outline, in a tag or in the nesting.
-/

namespace Recordgen.Markup

/-- The events of a document, up to the first fault. -/
structure Scan where
  events : List Event := []
  fault : Option Fault := none

/-- An event in front of what follows it. -/
def Scan.cons (event : Event) (scan : Scan) : Scan :=
  { scan with events := event :: scan.events }

/-- A scan that ends at a fault. -/
def Scan.failed (fault : Fault) : Scan :=
  { fault := some fault }

/-- The name in an end tag: the content without the spaces at its end, unless all of it is space. -/
def endTagName (content : List Char) : List Char :=
  match content.reverse.dropWhile isSpace with
  | [] => content
  | name => name.reverse

/-- Reads the event of a mark, and the names of the elements that are open behind it. -/
def markEvent (opened : List (List Char)) (position : Nat) :
    Mark → Except Fault (Event × List (List Char))
  | .other => .ok (.other, opened)
  | .startTag content =>
    match content.getLast? with
    | some '/' => do
      return (.empty (← readTag content.dropLast), opened)
    | _ => do
      return (.start (← readTag content), tagName content :: opened)
  | .endTag content =>
    let found := endTagName content
    match opened with
    | [] => .error (.outline position (.unmatchedEnd (String.ofList found)))
    | expected :: outer =>
      if found = expected then .ok (.stop, outer)
      else
        .error (.outline position
          (.mismatchedEnd (String.ofList expected) (String.ofList found)))

/-- Scans a part of a document. `opened` holds the names of the open elements, innermost first, and
`offset` is where the part begins; its first `taken` characters belong to a mark already read. -/
def scanFrom (opened : List (List Char)) (offset : Nat) : (taken : Nat) → List Char → Scan
  | _, [] => {}
  | taken + 1, c :: rest => scanFrom opened (offset + c.utf8Size) taken rest
  | 0, c :: rest =>
    if c = '<' then
      match readMark rest with
      | .error ⟨fault, length⟩ =>
        .failed (.outline (offset + 1 + Text.byteSize (rest.take length)) fault)
      | .ok (mark, length) =>
        match markEvent opened (offset + 1 + Text.byteSize (rest.take length)) mark with
        | .error fault => .failed fault
        | .ok (event, opened) => .cons event (scanFrom opened (offset + 1) length rest)
    else scanFrom opened (offset + c.utf8Size) 0 rest

/-- Drops a byte order mark at the start of a document. -/
def dropByteOrderMark : List Char → List Char
  | '\ufeff' :: rest => rest
  | text => text

/-- Scans a document. -/
def scan (text : String) : Scan :=
  scanFrom [] 0 0 (dropByteOrderMark text.toList)

/-- The tree of a scanned document. -/
def Scan.tree (scan : Scan) : Except Fault Element := do
  let builder ← Builder.run {} scan.events
  match scan.fault with
  | some fault => throw fault
  | none => builder.finish

/-- Reads a document. -/
def parse (text : String) : Except CompileError Element :=
  (scan text).tree.mapError .markup

end Recordgen.Markup

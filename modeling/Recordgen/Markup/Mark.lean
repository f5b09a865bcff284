import Recordgen.Markup.Tag

/-! # Marks

A mark is what stands between `<` and the `>` that closes it: a tag, an instruction, a comment, a
block of character data or a document type. Which `>` closes a mark depends on its sort and is told
by a `ClosingRule`, a small automaton that runs over the content.
-/

namespace Recordgen.Markup

/-- Tells which `>` ends a mark: the first one met in a closing state. -/
structure ClosingRule (State : Type) where
  start : State
  step : State → Char → State
  closes : State → Bool

/-- The position of the `>` that closes the text, counted from `index`. -/
def ClosingRule.close? {State : Type} (rule : ClosingRule State) :
    (index : Nat) → State → List Char → Option Nat
  | _, _, [] => none
  | index, state, c :: rest =>
    if c = '>' && rule.closes state then some index
    else rule.close? (index + 1) (rule.step state c) rest

/-- A tag is closed by the first `>` outside quotes. The state is the open quote. -/
def tagRule : ClosingRule (Option Char) where
  start := none
  step
    | some quote, c => if c = quote then none else some quote
    | none, c => if c = '"' || c = '\'' then some c else none
  closes quote := quote.isNone

/-- A mark that is closed by `>` behind a fixed text, once its content is longer than `least`. The
state holds the content read so far, last character first. -/
def endingRule (ending : String) (least : Nat) : ClosingRule (List Char) where
  start := []
  step read c := c :: read
  closes read := ending.toList.reverse.isPrefixOf read && least < read.length

/-- A document type is closed by the `>` that leaves no `<` open. The state counts the open ones. -/
def doctypeRule : ClosingRule Nat where
  start := 0
  step depth c := if c = '<' then depth + 1 else if c = '>' then depth - 1 else depth
  closes depth := depth = 0

/-- What a document holds besides text. -/
inductive Mark where
  /-- The content of a start tag or of an empty element. -/
  | startTag (content : List Char)
  /-- The content of an end tag, without its slash. -/
  | endTag (content : List Char)
  /-- An instruction, a comment, character data or a document type. -/
  | other
  deriving DecidableEq, Repr

/-- A fault together with the number of characters read when it shows. -/
structure MarkFault where
  fault : OutlineFault
  length : Nat
  deriving DecidableEq, Repr

/-- The content of a mark up to the `>` that closes it. -/
def readContent {State : Type} (rule : ClosingRule State) (fault : OutlineFault)
    (text : List Char) : Except MarkFault (List Char) :=
  match rule.close? 0 rule.start text with
  | some index => .ok (text.take index)
  | none => .error ⟨fault, text.length⟩

/-- Accepts a content that has the right shape, and reports the fault behind the mark otherwise. -/
def acceptContent (content : List Char) (shape : Bool) (fault : OutlineFault) (mark : Mark) :
    Except MarkFault (Mark × Nat) :=
  if shape then .ok (mark, content.length + 1) else .error ⟨fault, content.length + 1⟩

/-- Reads a comment, character data or a document type, from the exclamation mark on. -/
def readDeclaration (text : List Char) : Except MarkFault (Mark × Nat) :=
  match text.drop 1 with
  | '-' :: _ => do
    let content ← readContent (endingRule "--" 4) .commentNotClosed text
    acceptContent content ("!--".toList.isPrefixOf content) .commentNotClosed .other
  | '[' :: _ => do
    let content ← readContent (endingRule "]]" 0) .cdataNotClosed text
    acceptContent content ("![CDATA[".toList.isPrefixOf content) .cdataNotClosed .other
  | 'D' :: _ | 'd' :: _ => do
    let content ← readContent doctypeRule .doctypeNotClosed text
    if (content.take 8).map Char.toUpper = "!DOCTYPE".toList then
      acceptContent content ((content.drop 8).any fun c => !isSpace c) .doctypeWithoutName .other
    else .error ⟨.doctypeNotClosed, content.length + 1⟩
  | _ => .error ⟨.unknownMarkup, 0⟩

/-- Reads the mark that follows a `<`, and the number of characters it takes. -/
def readMark (text : List Char) : Except MarkFault (Mark × Nat) :=
  match text with
  | '!' :: _ => readDeclaration text
  | '?' :: _ => do
    let content ← readContent (endingRule "?" 0) .instructionNotClosed text
    acceptContent content (1 < content.length) .instructionNotClosed .other
  | '/' :: _ => do
    let content ← readContent tagRule .tagNotClosed text
    return (.endTag (content.drop 1), content.length + 1)
  | _ => do
    let content ← readContent tagRule .tagNotClosed text
    return (.startTag content, content.length + 1)

end Recordgen.Markup

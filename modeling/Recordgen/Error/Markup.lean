/-! # What can be wrong with a markup document

The faults are grouped by what was being read: the outline of markup, the attributes of a tag, the
references inside an attribute value, the nesting of elements, or a look-up in the finished tree.
Positions count bytes of the UTF-8 text.
-/

namespace Recordgen.Markup

/-- A fault in the outline of a document: where markup begins and ends, and how tags pair up. -/
inductive OutlineFault where
  | tagNotClosed
  | instructionNotClosed
  | commentNotClosed
  | cdataNotClosed
  | doctypeNotClosed
  | unknownMarkup
  | doctypeWithoutName
  | mismatchedEnd (expected found : String)
  | unmatchedEnd (found : String)
  deriving DecidableEq, Repr

/-- The wording of an outline fault. -/
def OutlineFault.message : OutlineFault → String
  | tagNotClosed => "syntax error: tag not closed: `>` not found before end of input"
  | instructionNotClosed =>
    "syntax error: processing instruction or xml declaration not closed: " ++
      "`?>` not found before end of input"
  | commentNotClosed => "syntax error: comment not closed: `-->` not found before end of input"
  | cdataNotClosed => "syntax error: CDATA not closed: `]]>` not found before end of input"
  | doctypeNotClosed => "syntax error: DOCTYPE not closed: `>` not found before end of input"
  | unknownMarkup => "syntax error: unknown or missed symbol in markup"
  | doctypeWithoutName =>
    "ill-formed document: `<!DOCTYPE>` declaration does not contain a name of a document type"
  | mismatchedEnd expected found =>
    s!"ill-formed document: expected `</{expected}>`, but `</{found}>` was found"
  | unmatchedEnd found =>
    s!"ill-formed document: close tag `</{found}>` does not match any open tag"

/-- A fault in the attribute list of a tag. Positions count from the start of the tag's name. -/
inductive AttributeFault where
  | expectedEquals (position : Nat)
  | duplicated (position previous : Nat)
  | expectedValue (position : Nat)
  | unquoted (position : Nat)
  | unclosedQuote (position : Nat) (quote : Char)
  deriving DecidableEq, Repr

/-- The wording of an attribute fault. -/
def AttributeFault.message : AttributeFault → String
  | expectedEquals position =>
    s!"position {position}: attribute key must be directly followed by `=` or space"
  | duplicated position previous =>
    s!"position {position}: duplicated attribute, previous declaration at position {previous}"
  | expectedValue position => s!"position {position}: `=` must be followed by an attribute value"
  | unquoted position =>
    s!"position {position}: attribute value must be enclosed in `\"` or `'`"
  | unclosedQuote position quote =>
    s!"position {position}: missing closing quote `{quote}` in attribute value"

/-- A fault in a numeric character reference. -/
inductive CharacterFault where
  | sign
  | noDigits
  | notADigit
  | tooLarge
  | zero
  | notACharacter (code : Nat)
  deriving DecidableEq, Repr

/-- The wording of a character reference fault. -/
def CharacterFault.message : CharacterFault → String
  | sign => "unexpected number sign"
  | noDigits => "cannot parse integer from empty string"
  | notADigit => "invalid digit found in string"
  | tooLarge => "number too large to fit in target type"
  | zero => "0x0 character is not permitted in XML"
  | notACharacter code => s!"`{code}` is not a valid codepoint"

/-- A fault in a reference inside an attribute value. The range counts bytes of the raw value. -/
inductive ReferenceFault where
  | unknownEntity (start stop : Nat) (entity : String)
  | unterminated (start stop : Nat)
  | badCharacter (fault : CharacterFault)
  deriving DecidableEq, Repr

/-- The wording of a reference fault. -/
def ReferenceFault.message : ReferenceFault → String
  | unknownEntity start stop entity => s!"at {start}..{stop}: unrecognized entity `{entity}`"
  | unterminated start stop =>
    s!"Error while escaping character at range {start}..{stop}: Cannot find ';' after '&'"
  | badCharacter fault => s!"invalid character reference: {fault.message}"

/-- What can be wrong with a document. -/
inductive Fault where
  /-- The outline is broken; `position` tells how far the document was read. -/
  | outline (position : Nat) (fault : OutlineFault)
  | badAttribute (element : String) (fault : AttributeFault)
  | badValue (key element : String) (fault : ReferenceFault)
  /-- An end without a start. -/
  | unbalancedEnd
  /-- The document stops inside an element. -/
  | unexpectedEnd
  | noRoot
  | secondRoot (element : String)
  /-- A required attribute is blank. -/
  | blankAttribute (key element place : String)
  | missingAttribute (key element place : String)
  deriving DecidableEq, Repr

/-- The wording of a document fault. -/
def Fault.message : Fault → String
  | outline position fault => s!"xml error at byte {position}: {fault.message}"
  | badAttribute element fault => s!"bad attribute on <{element}>: {fault.message}"
  | badValue key element fault => s!"bad value for '{key}' on <{element}>: {fault.message}"
  | unbalancedEnd => "unbalanced closing tag"
  | unexpectedEnd => "unexpected end of document"
  | noRoot => "document has no root element"
  | secondRoot element => s!"unexpected second root element <{element}>"
  | blankAttribute key element place => s!"attribute '{key}' of <{element}> in {place} is empty"
  | missingAttribute key element place => s!"missing attribute '{key}' on <{element}> in {place}"

end Recordgen.Markup

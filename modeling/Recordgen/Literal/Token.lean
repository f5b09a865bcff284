import Recordgen.Error.Literal
import Recordgen.Text.Word

/-! # Parameter tokens

A parameter token is `%name%` or `%(cast)name%` and stands for the value of a parameter. `pieces`
cuts a text into tokens and the characters between them: at each percent sign the text either begins
a token or does not, and a sign inside a token begins no other. Listing (`parameterTokens`) and
replacing (`expandTokens`) both work on the pieces.
-/

namespace Recordgen.Literal

/-- A token as written: the cast may be any word. -/
structure TokenText where
  cast : Option String
  name : String
  deriving DecidableEq, Repr

namespace TokenText

/-- The characters of a token, percent signs included. -/
def chars (token : TokenText) : List Char :=
  match token.cast with
  | none => '%' :: token.name.toList ++ ['%']
  | some cast => '%' :: '(' :: cast.toList ++ ')' :: token.name.toList ++ ['%']

/-- Whether `c` can begin a parameter name. -/
def isNameStart (c : Char) : Bool :=
  c.isAlpha || c = '_'

/-- Whether `c` can stand inside a parameter name. -/
def isNameRest (c : Char) : Bool :=
  Text.isWord c || c = '.' || c = '-'

/-- Reads the name and the closing percent sign. -/
def readName? (cast : Option String) : List Char → Option TokenText
  | [] => none
  | c :: rest =>
    if isNameStart c ∧ (rest.dropWhile isNameRest).head? = some '%' then
      some ⟨cast, String.ofList (c :: rest.takeWhile isNameRest)⟩
    else none

/-- The token that the characters behind a percent sign complete. -/
def read? : List Char → Option TokenText
  | '(' :: rest =>
    let cast := rest.takeWhile Text.isWord
    match rest.dropWhile Text.isWord with
    | ')' :: after => if cast.isEmpty then none else readName? (some (String.ofList cast)) after
    | _ => none
  | rest => readName? none rest

end TokenText

/-- A part of a text: a token, or a single character outside tokens. -/
inductive Piece where
  | token (written : TokenText)
  | character (c : Char)
  deriving DecidableEq, Repr

/-- The characters of a piece. -/
def Piece.chars : Piece → List Char
  | token written => written.chars
  | character c => [c]

/-- Cuts a text into pieces, where the first `taken` characters belong to a token already read. -/
def piecesAfter : (taken : Nat) → List Char → List Piece
  | _, [] => []
  | taken + 1, _ :: rest => piecesAfter taken rest
  | 0, c :: rest =>
    match (if c = '%' then TokenText.read? rest else none) with
    | some token => .token token :: piecesAfter (token.chars.length - 1) rest
    | none => .character c :: piecesAfter 0 rest

/-- Cuts a text into pieces. -/
def pieces (text : String) : List Piece :=
  piecesAfter 0 text.toList

/-- A parameter with the type its value is cast to. -/
structure ParameterToken where
  name : String
  cast : Option LiteralType
  deriving DecidableEq, Repr

/-- The literal type that a written cast denotes. -/
def readCast : Option String → Except LiteralFault (Option LiteralType)
  | none => .ok none
  | some cast =>
    match LiteralType.ofName? cast with
    | some type => .ok (some type)
    | none => .error (.unknownCast cast)

/-- A token whose cast is a literal type. -/
def TokenText.typed (token : TokenText) : Except LiteralFault ParameterToken := do
  return ⟨token.name, ← readCast token.cast⟩

/-- The tokens of a text, in order. -/
def tokenTexts (text : String) : List TokenText :=
  (pieces text).filterMap fun
    | .token written => some written
    | .character _ => none

/-- The parameters of a text, in order; the first unknown cast is the fault. -/
def parameterTokens (text : String) : Except LiteralFault (List ParameterToken) :=
  (tokenTexts text).mapM TokenText.typed

/-- Replaces every token of a text. A token with an unknown cast counts as one without. -/
def expandTokens (replace : ParameterToken → String) (text : String) : String :=
  String.join <| (pieces text).map fun
    | .token written => replace ⟨written.name, written.cast.bind LiteralType.ofName?⟩
    | .character c => c.toString

end Recordgen.Literal

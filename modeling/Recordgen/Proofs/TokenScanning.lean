import Recordgen.Literal.Rendering
import Recordgen.Proofs.Outcome
import Recordgen.Proofs.TextParts

/-! # Parameter tokens in a text

What a token is is said by the characters of its parts (`TokenText.IsWritten`), and a text is cut by
one rule: where a token begins it is taken whole, and any other character stands between tokens
(`Cuts`). There is one way to cut a text, and `pieces` finds it (`cuts_iff`). A text whose casts are
all known is therefore a template, gaps without tokens around the parameters that are listed, and
replacing the tokens of the text fills in the same template (`exists_template`).
-/

namespace Recordgen

open Outcome

namespace Literal

variable {text : List Char} {token : TokenText} {cut : List Piece} {raw inner : String}
  {type : LiteralType}

namespace TokenText

/-- The name of a parameter: a letter or an underscore, and word characters, points and hyphens. -/
def IsName (text : List Char) : Prop :=
  ∃ c rest, text = c :: rest ∧ isNameStart c = true ∧ ∀ d ∈ rest, isNameRest d = true

/-- A token that can be written: its name is one, and its cast is a word. -/
structure IsWritten (token : TokenText) : Prop where
  cast : ∀ cast, token.cast = some cast →
    cast.toList ≠ [] ∧ ∀ c ∈ cast.toList, Text.isWord c = true
  name : IsName token.name.toList

/-- A name is read up to the next percent sign. -/
theorem readName?_eq_some_iff {cast : Option String} {text : List Char} {token : TokenText} :
    readName? cast text = some token ↔
      token.cast = cast ∧ IsName token.name.toList ∧
        ∃ behind, text = token.name.toList ++ '%' :: behind := by
  have ends : isNameRest '%' = false := by decide +kernel
  constructor
  · intro found
    cases text with
    | nil => cases found
    | cons c rest =>
        rw [readName?, Option.ite_none_right_eq_some] at found
        obtain ⟨⟨starts, closed⟩, same⟩ := found
        obtain rfl := Option.some.inj same
        obtain ⟨behind, rest_eq⟩ := List.head?_eq_some_iff.mp closed
        refine ⟨rfl, ⟨c, _, String.toList_ofList, starts, fun d inside => ?_⟩, behind, ?_⟩
        · exact List.mem_takeWhile_imp inside
        · rw [String.toList_ofList, List.cons_append, ← rest_eq, List.takeWhile_append_dropWhile]
  · rintro ⟨rfl, ⟨c, rest, named, starts, all⟩, behind, rfl⟩
    rw [named, List.cons_append, readName?, Text.dropWhile_run all ends,
      Text.takeWhile_run all ends, if_pos ⟨starts, rfl⟩, ← named, String.ofList_toList]

/-- A name does not begin with a bracket. -/
theorem read?_of_isName {name behind : List Char} (named : IsName name) :
    read? (name ++ behind) = readName? none (name ++ behind) := by
  obtain ⟨c, rest, rfl, starts, -⟩ := named
  rw [List.cons_append, read?]
  rintro tail same
  rw [(List.cons.inj same).1] at starts
  exact absurd starts (by decide)

private theorem read?_bracket (cast after : List Char) (word : ∀ c ∈ cast, Text.isWord c = true) :
    read? ('(' :: (cast ++ ')' :: after)) =
      if cast.isEmpty then none else readName? (some (String.ofList cast)) after := by
  have ends : Text.isWord ')' = false := by decide +kernel
  rw [read?]
  simp only [Text.takeWhile_run word ends, Text.dropWhile_run word ends]

/-- Reading behind a percent sign gives the token that begins there. -/
theorem read?_eq_some_iff {text : List Char} {token : TokenText} :
    read? text = some token ↔ token.IsWritten ∧ ∃ behind, '%' :: text = token.chars ++ behind := by
  obtain ⟨cast, name⟩ := token
  constructor
  · intro found
    rw [read?.eq_def] at found
    split at found
    · rename_i rest
      split at found
      · rename_i after rest_eq
        rw [Option.ite_none_left_eq_some] at found
        obtain ⟨filled, found⟩ := found
        obtain ⟨rfl, named, behind, rfl⟩ := readName?_eq_some_iff.mp found
        refine ⟨⟨fun cast same => ?_, named⟩, behind, ?_⟩
        · obtain rfl := Option.some.inj same
          rw [String.toList_ofList]
          exact ⟨fun empty => filled (List.isEmpty_iff.mpr empty),
            fun c inside => List.mem_takeWhile_imp inside⟩
        · have whole : rest.takeWhile Text.isWord ++ rest.dropWhile Text.isWord = rest :=
            List.takeWhile_append_dropWhile
          rw [rest_eq] at whole
          simpa [chars] using whole.symm
      · cases found
    · obtain ⟨rfl, named, behind, rfl⟩ := readName?_eq_some_iff.mp found
      exact ⟨⟨fun cast same => absurd same (by simp), named⟩, behind, by simp [chars]⟩
  · rintro ⟨⟨cast_word, named⟩, behind, same⟩
    cases cast with
    | none =>
        obtain rfl : text = name.toList ++ '%' :: behind := by simpa [chars] using same
        rw [read?_of_isName named]
        exact readName?_eq_some_iff.mpr ⟨rfl, named, behind, rfl⟩
    | some cast =>
        obtain ⟨filled, word⟩ := cast_word cast rfl
        obtain rfl : text = '(' :: (cast.toList ++ ')' :: (name.toList ++ '%' :: behind)) := by
          simpa [chars] using same
        rw [read?_bracket _ _ word, if_neg (by simpa using filled), String.ofList_toList]
        exact readName?_eq_some_iff.mpr ⟨rfl, named, behind, rfl⟩

theorem exists_chars_eq (token : TokenText) : ∃ rest, token.chars = '%' :: rest := by
  obtain ⟨_ | cast, name⟩ := token <;> exact ⟨_, rfl⟩

end TokenText

/-- Whether a token stands at the beginning of a text. -/
def BeginsToken (text : List Char) : Prop :=
  ∃ token : TokenText, token.IsWritten ∧ token.chars <+: text

/-- Whether a token stands somewhere in a text. -/
def HoldsToken (text : List Char) : Prop :=
  ∃ token : TokenText, token.IsWritten ∧ token.chars <:+: text

private theorem holdsToken_cons_iff {c : Char} :
    HoldsToken (c :: text) ↔ BeginsToken (c :: text) ∨ HoldsToken text := by
  simp only [HoldsToken, BeginsToken, List.infix_cons_iff, and_or_left, exists_or]

private theorem not_holdsToken_nil : ¬HoldsToken [] := by
  rintro ⟨token, -, inside⟩
  obtain ⟨rest, same⟩ := token.exists_chars_eq
  rw [List.eq_nil_of_infix_nil inside] at same
  cases same

/-- The rule by which a text is cut: where a token begins it is taken whole, and any other character
stands between tokens. -/
inductive Cuts : List Char → List Piece → Prop
  | nil : Cuts [] []
  | token {token : TokenText} {behind : List Char} {pieces : List Piece}
      (written : token.IsWritten) (onward : Cuts behind pieces) :
      Cuts (token.chars ++ behind) (.token token :: pieces)
  | character {c : Char} {rest : List Char} {pieces : List Piece}
      (between : ¬BeginsToken (c :: rest)) (onward : Cuts rest pieces) :
      Cuts (c :: rest) (.character c :: pieces)

private theorem piecesAfter_eq_drop (taken : Nat) (text : List Char) :
    piecesAfter taken text = piecesAfter 0 (text.drop taken) := by
  induction text generalizing taken with
  | nil => simp [piecesAfter]
  | cons c text ih =>
      cases taken with
      | zero => rfl
      | succ taken => rw [piecesAfter, ih, List.drop_succ_cons]

private theorem piecesAfter_token (written : token.IsWritten) (behind : List Char) :
    piecesAfter 0 (token.chars ++ behind) = .token token :: piecesAfter 0 behind := by
  obtain ⟨rest, chars_eq⟩ := token.exists_chars_eq
  have found : TokenText.read? (rest ++ behind) = some token :=
    TokenText.read?_eq_some_iff.mpr ⟨written, behind, by rw [chars_eq, List.cons_append]⟩
  have length : token.chars.length - 1 = rest.length := by simp [chars_eq]
  rw [chars_eq, List.cons_append, piecesAfter]
  simp only [↓reduceIte, found]
  rw [piecesAfter_eq_drop, length, List.drop_left]

private theorem piecesAfter_character {c : Char} {rest : List Char}
    (between : ¬BeginsToken (c :: rest)) :
    piecesAfter 0 (c :: rest) = .character c :: piecesAfter 0 rest := by
  have none_found : (if c = '%' then TokenText.read? rest else none) = none := by
    rw [Option.eq_none_iff_forall_ne_some]
    intro token found
    obtain ⟨rfl, found⟩ := Option.ite_none_right_eq_some.mp found
    obtain ⟨written, behind, same⟩ := TokenText.read?_eq_some_iff.mp found
    exact between ⟨token, written, behind, same.symm⟩
  rw [piecesAfter, none_found]

private theorem Cuts.eq_piecesAfter {pieces : List Piece} (cut : Cuts text pieces) :
    pieces = piecesAfter 0 text := by
  induction cut with
  | nil => rfl
  | token written onward ih => rw [piecesAfter_token written, ih]
  | character between onward ih => rw [piecesAfter_character between, ih]

private theorem cuts_piecesAfter (text : List Char) : Cuts text (piecesAfter 0 text) := by
  -- A token is longer than one character, so the induction is on the length.
  induction size : text.length using Nat.strong_induction_on generalizing text with
  | _ size ih =>
      subst size
      by_cases begins : BeginsToken text
      · obtain ⟨token, written, behind, rfl⟩ := begins
        obtain ⟨rest, chars_eq⟩ := token.exists_chars_eq
        have shorter : behind.length < (token.chars ++ behind).length := by
          rw [chars_eq, List.cons_append, List.length_cons, List.length_append]
          omega
        rw [piecesAfter_token written]
        exact .token written (ih _ shorter _ rfl)
      · cases text with
        | nil => exact .nil
        | cons c rest =>
            rw [piecesAfter_character begins]
            exact .character begins (ih _ (Nat.lt_succ_self _) _ rfl)

/-- There is one way to cut a text. -/
theorem cuts_iff {text : String} : Cuts text.toList cut ↔ cut = pieces text :=
  ⟨Cuts.eq_piecesAfter, fun same => same ▸ cuts_piecesAfter text.toList⟩

/-- A text holds a token exactly if one is found when it is cut. -/
theorem Cuts.holdsToken_iff (cuts : Cuts text cut) :
    HoldsToken text ↔ ∃ token, Piece.token token ∈ cut := by
  induction cuts with
  | nil => simp [not_holdsToken_nil]
  | @token token behind _ written onward _ =>
      exact iff_of_true ⟨token, written, (List.prefix_append _ behind).isInfix⟩
        ⟨token, List.mem_cons_self⟩
  | character between onward ih =>
      rw [holdsToken_cons_iff, or_iff_right between, ih]
      simp

/-! Tokens with a known cast. -/

/-- A parameter as it is written in a text. -/
def ParameterToken.written (token : ParameterToken) : TokenText :=
  ⟨token.cast.map LiteralType.name, token.name⟩

/-- Writes a parameter token. -/
def ParameterToken.print (token : ParameterToken) : String :=
  "%" ++ Form.printCast token.cast ++ token.name ++ "%"

theorem ParameterToken.chars_written (token : ParameterToken) :
    token.written.chars = token.print.toList := by
  obtain ⟨name, _ | cast⟩ := token <;>
    simp [written, print, TokenText.chars, Form.printCast, toString]

/-- A cast is read if it is the name of a type. -/
theorem readCast_eq_ok_iff {cast : Option String} {type : Option LiteralType} :
    readCast cast = .ok type ↔ cast = type.map LiteralType.name := by
  cases cast with
  | none => cases type <;> simp [readCast]
  | some cast =>
      cases found : LiteralType.ofName? cast with
      | none =>
          have unknown : ∀ type : LiteralType, cast ≠ type.name := by
            rintro type rfl
            rw [LiteralType.ofName?_name] at found
            cases found
          cases type <;> simp [readCast, found, unknown]
      | some known =>
          obtain rfl := LiteralType.ofName?_eq_some_iff.mp found
          cases type with
          | none => simp [readCast, found]
          | some type =>
              simp only [readCast, found, Except.ok.injEq, Option.map_some, Option.some.injEq]
              rw [← LiteralType.ofName?_eq_some_iff, found, Option.some.injEq]

/-- A token is typed exactly if it is how a parameter token is written. -/
theorem TokenText.typed_eq_ok_iff {parameter : ParameterToken} :
    token.typed = .ok parameter ↔ token = parameter.written := by
  obtain ⟨cast, name⟩ := token
  obtain ⟨otherName, type⟩ := parameter
  simp only [TokenText.typed, bind_eq_ok_iff, pure_eq_ok_iff, readCast_eq_ok_iff,
    ParameterToken.written, ParameterToken.mk.injEq, TokenText.mk.injEq]
  grind

/-- A token with a known cast is replaced as the parameter it stands for. -/
theorem ParameterToken.retyped (token : ParameterToken) :
    (⟨token.written.name, token.written.cast.bind LiteralType.ofName?⟩ : ParameterToken) =
      token := by
  obtain ⟨name, _ | cast⟩ := token
  · rfl
  · simp [written]

/-- A text with places for parameters: a gap, and then each parameter with the gap behind it. -/
structure Template where
  first : String
  rest : List (ParameterToken × String)

namespace Template

/-- The parameters, in order. -/
def tokens (template : Template) : List ParameterToken :=
  template.rest.map Prod.fst

/-- The gaps in front of, between and behind the parameters. -/
def gaps (template : Template) : List String :=
  template.first :: template.rest.map Prod.snd

/-- The text with something written in the place of each parameter. -/
def fill (template : Template) (write : ParameterToken → String) : String :=
  template.first ++ String.join (template.rest.map fun place => write place.1 ++ place.2)

/-- The pieces of the text that the template writes. -/
def pieces (template : Template) : List Piece :=
  template.first.toList.map .character ++ template.rest.flatMap fun place =>
    .token place.1.written :: place.2.toList.map .character

/-- Puts a character in front of the first gap. -/
def push (c : Char) (template : Template) : Template :=
  ⟨c.toString ++ template.first, template.rest⟩

/-- Puts a parameter in front of the first gap, behind a gap that is empty. -/
def place (token : ParameterToken) (template : Template) : Template :=
  ⟨"", (token, template.first) :: template.rest⟩

private theorem fill_push (c : Char) (template : Template) (write : ParameterToken → String) :
    (template.push c).fill write = c.toString ++ template.fill write := by
  rw [fill, push, String.append_assoc]
  rfl

private theorem fill_place (token : ParameterToken) (template : Template)
    (write : ParameterToken → String) :
    (template.place token).fill write = write token ++ template.fill write := by
  rw [fill, place, String.empty_append, List.map_cons, String.join_cons, String.append_assoc]
  rfl

private theorem pieces_push (c : Char) (template : Template) :
    (template.push c).pieces = .character c :: template.pieces := by
  simp [pieces, push]

private theorem pieces_place (token : ParameterToken) (template : Template) :
    (template.place token).pieces = .token token.written :: template.pieces := by
  simp [pieces, place]

end Template

/-- What a piece becomes when the tokens are replaced. -/
def Piece.replaced (replace : ParameterToken → String) : Piece → String
  | .token written => replace ⟨written.name, written.cast.bind LiteralType.ofName?⟩
  | .character c => c.toString

/-- The token of a piece. -/
def Piece.token? : Piece → Option TokenText
  | .token written => some written
  | .character _ => none

private theorem expandTokens_eq (replace : ParameterToken → String) (text : String) :
    expandTokens replace text = String.join ((pieces text).map (Piece.replaced replace)) := by
  rw [expandTokens]
  congr 2

theorem tokenTexts_eq (text : String) : tokenTexts text = (pieces text).filterMap Piece.token? := by
  rw [tokenTexts]
  congr 1

/-- A template of a text: its pieces are those that the text is cut into, and no gap holds a token.
-/
structure Template.Describes (template : Template) (text : String) : Prop where
  cuts : Cuts text.toList template.pieces
  gaps_free : ∀ gap ∈ template.gaps, ¬HoldsToken gap.toList
  text_eq : text = template.fill ParameterToken.print

namespace Template.Describes

variable {template : Template} {text : String}

/-- A token in front of a text stands in front of its template. -/
theorem place {token : ParameterToken} (written : token.written.IsWritten)
    (describes : template.Describes text) :
    (template.place token).Describes (token.print ++ text) where
  cuts := by
    rw [String.toList_append, ← token.chars_written, Template.pieces_place]
    exact .token written describes.cuts
  gaps_free := by
    refine List.forall_mem_cons.mpr ⟨not_holdsToken_nil, ?_⟩
    exact describes.gaps_free
  text_eq := by rw [Template.fill_place, ← describes.text_eq]

/-- A character between tokens stands in the first gap. -/
theorem push {c : Char} (between : ¬BeginsToken (c :: text.toList))
    (describes : template.Describes text) :
    (template.push c).Describes (c.toString ++ text) where
  cuts := by
    have single : c.toString.toList = [c] := String.toList_singleton c
    rw [String.toList_append, single, Template.pieces_push]
    exact .character between describes.cuts
  gaps_free := by
    obtain ⟨first_free, others_free⟩ := List.forall_mem_cons.mp describes.gaps_free
    refine List.forall_mem_cons.mpr ⟨?_, others_free⟩
    have first_le : template.first.toList <+: text.toList := by
      rw [describes.text_eq, Template.fill, String.toList_append]
      exact List.prefix_append _ _
    have first_eq : (template.push c).first.toList = c :: template.first.toList := by
      simp [Template.push]
    -- A token in the longer gap stands in the old gap, or begins where the text begins.
    rw [first_eq, holdsToken_cons_iff, not_or]
    refine ⟨?_, first_free⟩
    rintro ⟨token, written, begins⟩
    exact between ⟨token, written, begins.trans (List.cons_prefix_cons.mpr ⟨rfl, first_le⟩)⟩
  text_eq := by rw [Template.fill_push, ← describes.text_eq]

end Template.Describes

/-- A text that is cut has a template, if the casts in it are known. -/
theorem Cuts.exists_template (cuts : Cuts text cut) {tokens : List ParameterToken}
    (typed : (cut.filterMap Piece.token?).mapM TokenText.typed = .ok tokens) :
    ∃ template : Template, template.tokens = tokens ∧ template.Describes (String.ofList text) ∧
      ∀ replace, String.join (cut.map (Piece.replaced replace)) = template.fill replace := by
  induction cuts generalizing tokens with
  | nil =>
      obtain rfl : [] = tokens := pure_eq_ok_iff.mp typed
      refine ⟨⟨"", []⟩, rfl, ⟨.nil, ?_, rfl⟩, fun replace => rfl⟩
      exact List.forall_mem_singleton.mpr not_holdsToken_nil
  | @token token behind cut written onward ih =>
      change (token :: cut.filterMap Piece.token?).mapM TokenText.typed = .ok tokens at typed
      rw [List.mapM_cons] at typed
      obtain ⟨parameter, here, typed⟩ := bind_eq_ok_iff.mp typed
      obtain ⟨others, later, rfl⟩ := bind_pure_eq_ok_iff.mp typed
      obtain rfl := TokenText.typed_eq_ok_iff.mp here
      obtain ⟨template, rfl, describes, filled⟩ := ih later
      refine ⟨template.place parameter, rfl, ?_, fun replace => ?_⟩
      · rw [parameter.chars_written, String.ofList_append, String.ofList_toList]
        exact describes.place written
      · rw [Template.fill_place, List.map_cons, String.join_cons, filled, Piece.replaced,
          parameter.retyped]
  | @character c rest cut between onward ih =>
      change (cut.filterMap Piece.token?).mapM TokenText.typed = .ok tokens at typed
      obtain ⟨template, rfl, describes, filled⟩ := ih typed
      refine ⟨template.push c, rfl, ?_, fun replace => ?_⟩
      · rw [String.ofList_cons]
        exact describes.push (by rwa [String.toList_ofList])
      · rw [Template.fill_push, List.map_cons, String.join_cons, filled, Piece.replaced]

/-- A text whose tokens are listed has a template of them, and replacing its tokens fills in the
template. -/
theorem exists_template {text : String} {tokens : List ParameterToken}
    (listed : parameterTokens text = .ok tokens) :
    ∃ template : Template, template.tokens = tokens ∧ template.Describes text ∧
      ∀ replace, expandTokens replace text = template.fill replace := by
  rw [parameterTokens, tokenTexts_eq] at listed
  obtain ⟨template, same, describes, filled⟩ :=
    (cuts_iff.mpr rfl : Cuts text.toList (pieces text)).exists_template listed
  rw [String.ofList_toList] at describes
  exact ⟨template, same, describes, fun replace => by rw [expandTokens_eq, filled]⟩

/-! Literals that consist of tokens. -/

/-- A text is one whole token exactly if it is written as that token. -/
theorem wholeToken?_eq_some_iff {raw : List Char} :
    wholeToken? raw = some token ↔ token.IsWritten ∧ raw = token.chars := by
  constructor
  · intro found
    rw [wholeToken?.eq_def] at found
    split at found
    · obtain ⟨found, same⟩ := Option.filter_eq_some_iff.mp found
      exact ⟨(TokenText.read?_eq_some_iff.mp found).1, (of_decide_eq_true same).symm⟩
    · cases found
  · rintro ⟨written, rfl⟩
    obtain ⟨rest, chars_eq⟩ := token.exists_chars_eq
    have found : TokenText.read? rest = some token :=
      TokenText.read?_eq_some_iff.mpr ⟨written, [], by rw [chars_eq, List.append_nil]⟩
    rw [chars_eq, wholeToken?, found]
    exact Option.filter_eq_some_iff.mpr ⟨rfl, decide_eq_true chars_eq⟩

/-- The inside of an expression is what stands between its marks. -/
theorem expressionInside?_eq_some_iff :
    expressionInside? raw.toList = some inner.toList ↔ raw = (Form.expression inner).print := by
  rw [expressionInside?, Option.bind_eq_some_iff]
  simp only [Text.afterStart?_eq_some_iff, Text.beforeEnding?_eq_some_iff]
  rw [← String.toList_inj, Form.print]
  simp

/-- An expression is read exactly if its tokens are, and there is one. -/
theorem parseExpression_eq_ok_iff {form : Form} :
    Form.parseExpression raw inner = .ok form ↔
      form = .expression inner ∧ ∃ tokens, parameterTokens inner = .ok tokens ∧ tokens ≠ [] := by
  rw [Form.parseExpression, bind_eq_ok_iff]
  constructor
  · rintro ⟨tokens, listed, succeeded⟩
    cases tokens with
    | nil => cases succeeded
    | cons token tokens =>
        exact ⟨(pure_eq_ok_iff.mp succeeded).symm, _, listed, List.cons_ne_nil _ _⟩
  · rintro ⟨rfl, tokens, listed, filled⟩
    refine ⟨tokens, listed, ?_⟩
    cases tokens with
    | nil => exact absurd rfl filled
    | cons token tokens => rfl

/-- Plain text is read if its value is in the lexicon of its cast, or else of its type. -/
theorem parsePlain_eq_ok_iff {raw : List Char} {form : Form} :
    Form.parsePlain type raw = .ok form ↔
      ∃ cast value, splitCast raw = (cast, value) ∧ inLexicon (cast.getD type) value = true ∧
        form = .plain (String.ofList value) cast := by
  have plain_eq : Form.parsePlain type raw =
      if inLexicon ((splitCast raw).1.getD type) (splitCast raw).2 = true then
        .ok (.plain (String.ofList (splitCast raw).2) (splitCast raw).1)
      else .error (.notOfType (String.ofList (splitCast raw).2) ((splitCast raw).1.getD type)) :=
  rfl
  rw [plain_eq]
  constructor
  · intro succeeded
    split at succeeded
    · rename_i lexical
      exact ⟨_, _, rfl, lexical, (Except.ok.inj succeeded).symm⟩
    · cases succeeded
  · rintro ⟨cast, value, split, lexical, rfl⟩
    rw [split, if_pos lexical]

/-- The text of an expression is read as one, if there are tokens in it and their casts are known.
-/
theorem Form.parse_expression (shaped : raw = (Form.expression inner).print) :
    Form.parse type raw = Form.parseExpression raw inner := by
  have notNull : raw ≠ "NULL" := by
    rintro rfl
    have first := congrArg (fun text => text.toList.head?) shaped
    simp [Form.print] at first
  have noToken : wholeToken? raw.toList = none := by
    rw [shaped, Form.print, String.toList_append, String.toList_append]
    rfl
  rw [Form.parse, if_neg notNull, noToken]
  simp only [expressionInside?_eq_some_iff.mpr shaped, String.ofList_toList]

/-- Only the text of an expression is read as one. -/
theorem Form.print_of_parse_expression (parsed : Form.parse type raw = .ok (.expression inner)) :
    raw = (Form.expression inner).print := by
  rw [Form.parse] at parsed
  split at parsed
  · cases parsed
  · split at parsed
    · obtain ⟨cast, -, same⟩ := bind_eq_ok_iff.mp parsed
      cases same
    · split at parsed
      · rename_i inside found
        obtain ⟨same, -⟩ := parseExpression_eq_ok_iff.mp parsed
        obtain rfl := Form.expression.inj same
        rw [← expressionInside?_eq_some_iff, found, String.toList_ofList]
      · obtain ⟨cast, value, -, -, same⟩ := parsePlain_eq_ok_iff.mp parsed
        cases same

/-- **Expansion.** A text whose tokens are listed has a template: gaps without tokens around the
listed parameters, each written with its cast. Replacing the tokens fills in that template, whatever
they are replaced by. A literal that is an expression is therefore rendered by its template, with
each parameter looked up under its own cast or else under the type of the literal. -/
theorem expansion_follows_listing :
    (∀ (text : String) (tokens : List ParameterToken), parameterTokens text = .ok tokens →
      ∃ template : Template, template.tokens = tokens ∧ template.Describes text ∧
        ∀ replace, expandTokens replace text = template.fill replace) ∧
    ∀ (config : String) (type : LiteralType) (raw inner : String),
      Form.parse type raw = .ok (.expression inner) →
      ∃ template : Template, template.tokens ≠ [] ∧ template.Describes inner ∧
        parameterTokens inner = .ok template.tokens ∧ raw = "$\x7b" ++ inner ++ "\x7d" ∧
        render config ⟨type, raw, .expression inner⟩ =
          "static_cast<" ++ type.name ++ ">(" ++ template.fill (fun token =>
            config ++ ".parameter<" ++ (token.cast.getD type).name ++ ">(\"" ++ token.name ++ "\")")
            ++ ")" := by
  refine ⟨fun text tokens listed => exists_template listed, ?_⟩
  intro config type raw inner parsed
  have shaped := Form.print_of_parse_expression parsed
  rw [Form.parse_expression shaped] at parsed
  obtain ⟨-, tokens, listed, filled⟩ := parseExpression_eq_ok_iff.mp parsed
  obtain ⟨template, rfl, describes, expanded⟩ := exists_template listed
  refine ⟨template, filled, describes, listed, shaped, ?_⟩
  rw [render]
  simp only [expanded]
  rfl

/-- An expression with percent signs around and between a token that has a cast and one that has
none. -/
theorem percent_expansion :
    (∃ template : Template, template.tokens = [⟨"a", some .decimal⟩, ⟨"c", none⟩] ∧
      template.Describes "%%(Decimal)a%b%c%" ∧
      ∀ replace, expandTokens replace "%%(Decimal)a%b%c%" = template.fill replace) ∧
    ∃ template : Template, template.tokens ≠ [] ∧ template.Describes "%%(Decimal)a%b%c%" ∧
      render "config" ⟨.i64u, "$\x7b%%(Decimal)a%b%c%\x7d", .expression "%%(Decimal)a%b%c%"⟩ =
        "static_cast<I64u>(" ++ template.fill (fun token =>
          "config" ++ ".parameter<" ++ (token.cast.getD .i64u).name ++ ">(\"" ++ token.name ++
            "\")") ++ ")" := by
  refine ⟨expansion_follows_listing.1 _ _ (by decide +kernel), ?_⟩
  obtain ⟨template, filled, describes, -, -, rendered⟩ :=
    expansion_follows_listing.2 "config" .i64u "$\x7b%%(Decimal)a%b%c%\x7d" "%%(Decimal)a%b%c%"
      (by decide +kernel)
  exact ⟨template, filled, describes, rendered⟩

end Literal

end Recordgen

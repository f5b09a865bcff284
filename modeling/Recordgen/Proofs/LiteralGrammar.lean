import Recordgen.Proofs.Lists
import Recordgen.Proofs.LiteralLexicon
import Recordgen.Proofs.TokenScanning

/-! # The grammar of literals

A literal is written in one of four shapes, and the shape decides how it is read: a plain text is
one that has none of the other three shapes (`IsShaped`), and its type is the one it is cast to, if
it is cast. `Reads` says which literal a text stands for, without a scan. Parsing follows this
grammar, no text is refused that belongs to it, and the literal writes the text back
(`parse_iff_reads`).
-/

namespace Recordgen.Literal

open Outcome

variable {raw : String} {type : LiteralType} {form : Form}

/-- Whether the cast of a token is a literal type, if it has one. -/
def TokenText.CastKnown (token : TokenText) : Prop :=
  ∀ cast, token.cast = some cast → ∃ type : LiteralType, cast = type.name

/-- Whether a text has one of the shapes that tell a literal from a plain text, be it well formed or
not: the null literal, a token, or an expression. -/
def IsShaped (raw : String) : Prop :=
  raw = "NULL" ∨ (∃ token : TokenText, token.IsWritten ∧ raw.toList = token.chars) ∨
    ∃ inner, raw = "$\x7b" ++ inner ++ "\x7d"

/-- The body of a plain text: what follows a literal type in brackets, or else the whole text. -/
inductive Body : String → Option LiteralType → String → Prop
  | cast (cast : LiteralType) (value : String) :
      Body ("(" ++ cast.name ++ ")" ++ value) (some cast) value
  | bare {raw : String}
      (uncast : ∀ (cast : LiteralType) (value : String), raw ≠ "(" ++ cast.name ++ ")" ++ value) :
      Body raw none raw

/-- The literal of a type that a text stands for. -/
inductive Reads (type : LiteralType) : String → Form → Prop
  | null : Reads type "NULL" .null
  | parameter {token : ParameterToken} (written : token.written.IsWritten) :
      Reads type token.print (.parameter token.name token.cast)
  | expression {inner : String} {cut : List Piece} (cuts : Cuts inner.toList cut)
      (holds : HoldsToken inner.toList)
      (known : ∀ token, Piece.token token ∈ cut → token.CastKnown) :
      Reads type ("$\x7b" ++ inner ++ "\x7d") (.expression inner)
  | plain {raw value : String} {cast : Option LiteralType} (unshaped : ¬IsShaped raw)
      (body : Body raw cast value) (lexical : value.toList ∈ lexicon (cast.getD type)) :
      Reads type raw (.plain value cast)

/-! Casts. -/

private theorem TokenText.exists_typed_iff {token : TokenText} :
    (∃ parameter, token.typed = .ok parameter) ↔ token.CastKnown := by
  obtain ⟨cast, name⟩ := token
  simp only [typed_eq_ok_iff]
  constructor
  · rintro ⟨⟨name, type⟩, same⟩ cast rfl
    obtain ⟨written, -⟩ := TokenText.mk.inj same
    obtain ⟨type, -, rfl⟩ := Option.map_eq_some_iff.mp written.symm
    exact ⟨type, rfl⟩
  · intro known
    cases cast with
    | none => exact ⟨⟨name, none⟩, rfl⟩
    | some cast =>
        obtain ⟨type, rfl⟩ := known cast rfl
        exact ⟨⟨name, some type⟩, rfl⟩

/-- The tokens of a text can be listed exactly if all their casts are known, and the list is empty
exactly if the text holds no token. -/
theorem exists_parameterTokens_iff {text : String} {cut : List Piece}
    (cuts : Cuts text.toList cut) :
    (∃ tokens, parameterTokens text = .ok tokens ∧ tokens ≠ []) ↔
      HoldsToken text.toList ∧ ∀ token, Piece.token token ∈ cut → token.CastKnown := by
  have listed : ∀ token, Piece.token token ∈ cut ↔ token ∈ tokenTexts text := by
    intro token
    rw [tokenTexts_eq, ← cuts_iff.mp cuts, List.mem_filterMap]
    constructor
    · exact fun inside => ⟨_, inside, rfl⟩
    · rintro ⟨piece, inside, found⟩
      cases piece with
      | token other => exact Option.some.inj found ▸ inside
      | character c => cases found
  simp only [cuts.holdsToken_iff, listed, parameterTokens]
  constructor
  · rintro ⟨tokens, succeeded, filled⟩
    have all := mapM_eq_ok_iff.mp succeeded
    refine ⟨?_, fun token inside => ?_⟩
    · apply List.exists_mem_of_ne_nil
      rintro empty
      rw [empty] at all
      cases all
      exact filled rfl
    · obtain ⟨parameter, -, typed⟩ := exists_right_of_mem all inside
      exact TokenText.exists_typed_iff.mp ⟨parameter, typed⟩
  · rintro ⟨⟨token, inside⟩, known⟩
    obtain ⟨tokens, succeeded⟩ := exists_mapM_ok fun token inside =>
      TokenText.exists_typed_iff.mpr (known token inside)
    refine ⟨tokens, succeeded, ?_⟩
    rintro rfl
    cases List.forall₂_nil_right_iff.mp (mapM_eq_ok_iff.mp succeeded) ▸ inside

private theorem splitCast_cast (cast : LiteralType) (value : List Char) :
    splitCast ('(' :: (cast.name.toList ++ ')' :: value)) = (some cast, value) := by
  have inside : cast.name.toList.all (· ≠ ')') = true := by
    cases cast <;> decide
  have ends : decide (')' ≠ ')') = false := by decide
  rw [splitCast]
  simp only [Text.dropWhile_run (List.all_eq_true.mp inside) ends,
    Text.takeWhile_run (List.all_eq_true.mp inside) ends, String.ofList_toList,
    LiteralType.ofName?_name]

private theorem splitCast_bare {raw : List Char}
    (uncast : ∀ (cast : LiteralType) (value : List Char),
      raw ≠ '(' :: (cast.name.toList ++ ')' :: value)) :
    splitCast raw = (none, raw) := by
  rw [splitCast.eq_def]
  split
  · rename_i rest
    split
    · rename_i closing value found
      split
      · rename_i cast known
        -- The bracket that ends the name is the first one.
        have closes : closing = ')' := by
          have stops := List.head?_dropWhile_not (fun c => decide (c ≠ ')')) rest
          rw [found] at stops
          simpa using stops
        have name_eq := congrArg String.toList (LiteralType.ofName?_eq_some_iff.mp known)
        have whole : rest.takeWhile (fun c => decide (c ≠ ')')) ++
            rest.dropWhile (fun c => decide (c ≠ ')')) = rest := List.takeWhile_append_dropWhile
        rw [found, closes, ← String.toList_ofList (l := rest.takeWhile _), name_eq] at whole
        exact absurd (congrArg ('(' :: ·) whole.symm) (uncast cast value)
      · rfl
    · rfl
  · rfl

private theorem body_iff {value : String} {cast : Option LiteralType} :
    Body raw cast value ↔ splitCast raw.toList = (cast, value.toList) := by
  have chars : ∀ (cast : LiteralType) (value : String),
      ("(" ++ cast.name ++ ")" ++ value).toList =
        '(' :: (cast.name.toList ++ ')' :: value.toList) := by
    simp
  constructor
  · rintro (⟨cast, value⟩ | ⟨uncast⟩)
    · rw [chars, splitCast_cast]
    · apply splitCast_bare
      intro cast value same
      apply uncast cast (String.ofList value)
      rw [← String.toList_inj, chars, same, String.toList_ofList]
  · intro split
    by_cases cast_form : ∃ (type : LiteralType) (rest : String),
        raw = "(" ++ type.name ++ ")" ++ rest
    · obtain ⟨type, rest, rfl⟩ := cast_form
      rw [chars, splitCast_cast, Prod.mk.injEq, String.toList_inj] at split
      obtain ⟨rfl, rfl⟩ := split
      exact .cast type rest
    · have uncast : ∀ (cast : LiteralType) (value : String),
          raw ≠ "(" ++ cast.name ++ ")" ++ value :=
        fun cast value same => cast_form ⟨cast, value, same⟩
      rw [splitCast_bare, Prod.mk.injEq, String.toList_inj] at split
      · obtain ⟨rfl, rfl⟩ := split
        exact .bare uncast
      · intro cast value same
        apply uncast cast (String.ofList value)
        rw [← String.toList_inj, chars, same, String.toList_ofList]

/-! The shapes, and how each of them is parsed. -/

namespace Form

variable {type : LiteralType} {raw : String}

private theorem parse_token {token : TokenText} (written : token.IsWritten)
    (shaped : raw.toList = token.chars) :
    Form.parse type raw = (Form.parameter token.name <$> readCast token.cast) := by
  have notNull : raw ≠ "NULL" := by
    rintro rfl
    obtain ⟨rest, chars_eq⟩ := token.exists_chars_eq
    rw [chars_eq] at shaped
    cases shaped
  rw [Form.parse, if_neg notNull, wholeToken?_eq_some_iff.mpr ⟨written, shaped⟩]
  rfl

private theorem parse_plain (unshaped : ¬IsShaped raw) :
    Form.parse type raw = Form.parsePlain type raw.toList := by
  simp only [IsShaped, not_or] at unshaped
  obtain ⟨notNull, notToken, notExpression⟩ := unshaped
  have noToken : wholeToken? raw.toList = none := by
    rw [Option.eq_none_iff_forall_ne_some]
    intro token found
    exact notToken ⟨token, wholeToken?_eq_some_iff.mp found⟩
  have noExpression : expressionInside? raw.toList = none := by
    rw [Option.eq_none_iff_forall_ne_some]
    intro inner found
    rw [← String.toList_ofList (l := inner)] at found
    exact notExpression ⟨_, expressionInside?_eq_some_iff.mp found⟩
  rw [Form.parse, if_neg notNull, noToken]
  simp only [noExpression]

end Form

/-- A form is read from every text that the grammar gives it. -/
theorem Reads.parse (reads : Reads type raw form) : Form.parse type raw = .ok form := by
  cases reads with
  | null => rfl
  | @parameter token written =>
      rw [Form.parse_token written token.chars_written.symm]
      exact map_eq_ok_iff.mpr ⟨token.cast, readCast_eq_ok_iff.mpr rfl, rfl⟩
  | @expression inner cut cuts holds known =>
      have shaped : "$\x7b" ++ inner ++ "\x7d" = (Form.expression inner).print := rfl
      rw [Form.parse_expression shaped, parseExpression_eq_ok_iff]
      exact ⟨rfl, (exists_parameterTokens_iff cuts).mpr ⟨holds, known⟩⟩
  | @plain raw value cast unshaped body lexical =>
      rw [Form.parse_plain unshaped, parsePlain_eq_ok_iff]
      exact ⟨cast, value.toList, body_iff.mp body, inLexicon_eq_true_iff.mpr lexical,
        by rw [String.ofList_toList]⟩

/-- What is read follows the grammar. -/
theorem Reads.of_parse (parsed : Form.parse type raw = .ok form) : Reads type raw form := by
  by_cases shaped : IsShaped raw
  · rcases shaped with rfl | ⟨token, written, shaped⟩ | ⟨inner, shaped⟩
    · obtain rfl : Form.null = form := Except.ok.inj parsed
      exact .null
    · rw [Form.parse_token written shaped] at parsed
      obtain ⟨cast, known, rfl⟩ := map_eq_ok_iff.mp parsed
      have token_eq : token = ParameterToken.written ⟨token.name, cast⟩ := by
        rw [ParameterToken.written, ← readCast_eq_ok_iff.mp known]
      rw [token_eq, ParameterToken.chars_written, String.toList_inj] at shaped
      rw [token_eq] at written
      exact shaped ▸ .parameter written
    · rw [Form.parse_expression shaped] at parsed
      obtain ⟨rfl, listed⟩ := parseExpression_eq_ok_iff.mp parsed
      have cuts : Cuts inner.toList (pieces inner) := cuts_iff.mpr rfl
      obtain ⟨holds, known⟩ := (exists_parameterTokens_iff cuts).mp listed
      exact shaped ▸ .expression cuts holds known
  · rw [Form.parse_plain shaped] at parsed
    obtain ⟨cast, value, split, lexical, rfl⟩ := parsePlain_eq_ok_iff.mp parsed
    rw [← String.toList_ofList (l := value)] at split lexical
    exact .plain shaped (body_iff.mpr split) (inLexicon_eq_true_iff.mp lexical)

/-- A form prints the text that it was read from. -/
theorem Reads.print_eq (reads : Reads type raw form) : form.print = raw := by
  cases reads with
  | null | parameter | expression => rfl
  | plain unshaped body lexical =>
      cases body with
      | cast cast value => rfl
      | bare uncast => exact String.empty_append

/-- **Literals.** A text is parsed as a literal exactly if the grammar reads it so, and the literal
writes the text back. -/
theorem parse_iff_reads (type : LiteralType) (raw : String) :
    (∀ form, Form.parse type raw = .ok form ↔ Reads type raw form) ∧
      ∀ form, Form.parse type raw = .ok form → form.print = raw :=
  ⟨fun _ => ⟨Reads.of_parse, Reads.parse⟩, fun _ parsed => (Reads.of_parse parsed).print_eq⟩

/-- A token with an unknown cast has its shape, and is no plain text. -/
example : Form.parse .string "%(X)a%" = .error (.unknownCast "X") := by
  decide +kernel

end Recordgen.Literal

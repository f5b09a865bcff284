import Mathlib.Logic.Function.Basic
import Recordgen.Text.Quoted

/-! # Reading quoted texts back

A constant ends at the first quote that no backslash takes with it (`closingQuote?`), and that is
where `decode` stops (`closingQuote?_of_decode`). Whatever a text holds, its constant is read back as
that text up to the quote that was put at its end, so nothing in it can end the constant early or run
over its end (`wrap_selfDelimiting`).
-/

namespace Recordgen.Text.Quoted

variable {quote : Char}

/-- Where the first quote stands that no backslash takes with it. -/
def closingQuote? (quote : Char) : List Char → Option Nat
  | [] => none
  | '\\' :: _ :: rest => (closingQuote? quote rest).map (· + 2)
  | c :: rest => if c = quote then some 0 else (closingQuote? quote rest).map (· + 1)

private theorem decode_cons {c : Char} (plain : c ≠ '\\') (rest : List Char) :
    decode quote (c :: rest) =
      if c = quote then some ([], rest)
      else (decode quote rest).map fun (text, after) => (c :: text, after) := by
  rw [decode]
  rintro _ _ rfl
  exact absurd rfl plain

private theorem decode_backslash {c plain : Char} (means : unescape? quote c = some plain)
    (rest : List Char) :
    decode quote ('\\' :: c :: rest) =
      (decode quote rest).map fun (text, after) => (plain :: text, after) := by
  rw [decode, means]
  cases decode quote rest <;> rfl

private theorem unescape?_quote (other : quote ∉ ['\\', 'n', 't']) :
    unescape? quote quote = some quote := by
  simp only [List.mem_cons, List.not_mem_nil, or_false, not_or] at other
  rw [unescape?, if_neg other.1, if_neg other.2.1, if_neg other.2.2, if_pos rfl]

/-- An encoded text is read up to the quote behind it. -/
theorem decode_encode (other : quote ∉ ['\\', 'n', 't']) (text after : List Char) :
    decode quote (encode quote text ++ quote :: after) = some (text, after) := by
  fun_induction encode quote text with
  | case1 =>
      have plain : quote ≠ '\\' := fun same => other (by simp [same])
      rw [List.nil_append, decode_cons plain, if_pos rfl]
  | case2 rest ih | case3 rest ih | case4 rest ih =>
      rw [List.cons_append, List.cons_append, decode_backslash rfl, ih, Option.map_some]
  | case5 rest _ _ _ ih =>
      rw [List.cons_append, List.cons_append, decode_backslash (unescape?_quote other), ih,
        Option.map_some]
  | case6 c rest backslash _ _ different ih =>
      rw [List.cons_append, decode_cons backslash, if_neg different, ih, Option.map_some]

/-- Line feeds and tabs are written as letters. -/
theorem raw_notMem_encode (quote : Char) (text : List Char) :
    '\n' ∉ encode quote text ∧ '\t' ∉ encode quote text := by
  fun_induction encode quote text with
  | case1 => exact ⟨List.not_mem_nil, List.not_mem_nil⟩
  | case2 rest ih | case3 rest ih | case4 rest ih =>
      simpa only [List.mem_cons, Char.reduceEq, false_or] using ih
  | case5 rest _ feed tab ih | case6 c rest _ feed tab _ ih =>
      simp only [List.mem_cons, Char.reduceEq, false_or, not_or]
      exact ⟨⟨Ne.symm feed, ih.1⟩, ⟨Ne.symm tab, ih.2⟩⟩

/-- A reader stops behind the first quote that no backslash takes with it. -/
theorem closingQuote?_of_decode {input text after : List Char}
    (read : decode quote input = some (text, after)) :
    ∃ body, input = body ++ quote :: after ∧ closingQuote? quote input = some body.length := by
  fun_induction decode quote input generalizing text with
  | case1 => cases read
  | case2 c rest ih =>
      obtain ⟨plain, -, read⟩ := Option.bind_eq_some_iff.mp read
      obtain ⟨⟨inner, behind⟩, found, same⟩ := Option.bind_eq_some_iff.mp read
      obtain ⟨-, rfl⟩ := Prod.mk.inj (Option.some.inj same)
      obtain ⟨body, rfl, ends⟩ := ih found
      exact ⟨'\\' :: c :: body, rfl, by rw [closingQuote?, ends]; rfl⟩
  | case3 rest apart =>
      obtain ⟨-, rfl⟩ := Prod.mk.inj (Option.some.inj read)
      refine ⟨[], rfl, ?_⟩
      rw [closingQuote?, if_pos rfl, List.length_nil]
      exact apart
  | case4 c rest apart different ih =>
      obtain ⟨⟨inner, behind⟩, found, same⟩ := Option.map_eq_some_iff.mp read
      obtain ⟨-, rfl⟩ := Prod.mk.inj same
      obtain ⟨body, rfl, ends⟩ := ih found
      refine ⟨c :: body, rfl, ?_⟩
      rw [closingQuote?, if_neg different, ends, Option.map_some, List.length_cons]
      exact apart

section Quotes

variable {quote : Char} (known : quote = '"' ∨ quote = '\'')

include known

private theorem notMem_of_quote : quote ∉ ['\\', 'n', 't'] := by
  rcases known with rfl | rfl <;> decide

/-- **Quoting.** Whatever a text holds and whatever follows its constant, the quote that ends the
constant is the first one that no backslash takes with it, the constant is read as the text, and no
line feed and no tab stands in it. So different texts have different constants. -/
theorem wrap_selfDelimiting :
    (∀ text : String,
      (wrap quote text).toList = quote :: (encode quote text.toList ++ [quote]) ∧
      (∀ after : List Char,
        closingQuote? quote (encode quote text.toList ++ quote :: after) =
          some (encode quote text.toList).length ∧
        decode quote (encode quote text.toList ++ quote :: after) = some (text.toList, after)) ∧
      '\n' ∉ (wrap quote text).toList ∧ '\t' ∉ (wrap quote text).toList) ∧
    Function.Injective (wrap quote) := by
  have spelled (text : String) :
      (wrap quote text).toList = quote :: (encode quote text.toList ++ [quote]) :=
    String.toList_ofList
  have read (text : String) := decode_encode (notMem_of_quote known) text.toList
  refine ⟨fun text => ⟨spelled text, fun after => ⟨?_, read text after⟩, ?_⟩, ?_⟩
  · obtain ⟨body, split, ends⟩ := closingQuote?_of_decode (read text after)
    rw [ends, List.append_cancel_right split]
  · have other : '\n' ≠ quote ∧ '\t' ≠ quote := by
      rcases known with rfl | rfl <;> decide
    rw [spelled]
    simp [other, raw_notMem_encode]
  · intro first second same
    have inside : encode quote first.toList ++ [quote] = encode quote second.toList ++ [quote] := by
      rw [← String.toList_inj, spelled, spelled] at same
      exact List.tail_eq_of_cons_eq same
    have found := read first []
    rw [inside, read second, Option.some.injEq, Prod.mk.injEq] at found
    exact String.toList_inj.mp found.1.symm

end Quotes

/-- A text of quotes and backslashes that ends in a backslash. -/
def quotesAndBackslashes : String :=
  "\\\"\n'\t\\"

theorem quotesAndBackslashes_read_back :
    ('"' = '"' ∨ '"' = '\'') ∧
      string quotesAndBackslashes = "\"\\\\\\\"\\n'\\t\\\\\"" ∧
      decode '"' (encode '"' quotesAndBackslashes.toList ++ '"' :: "\\\");".toList) =
        some (quotesAndBackslashes.toList, "\\\");".toList) ∧
      Function.Injective string :=
  ⟨.inl rfl, by decide,
    (((wrap_selfDelimiting (.inl rfl)).1 quotesAndBackslashes).2.1 "\\\");".toList).2,
    (wrap_selfDelimiting (.inl rfl)).2⟩

end Recordgen.Text.Quoted

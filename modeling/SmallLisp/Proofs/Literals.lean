import SmallLisp.Proofs.Lexing
import SmallLisp.Reader.Parser

/-! # String literals

A literal is closed by the first quote that no backslash stands before. Escaping a text gives one
literal token, closed where the escaping ends, and reading the literal gives the text back.
-/
namespace SmallLisp

/-- What may stand between the quotes of a literal: a backslash only in front of another
character, and a quote only behind a backslash. -/
inductive LiteralBody : List Char → Prop
  | nil : LiteralBody []
  | plain {c : Char} {body : List Char} (hbackslash : c ≠ '\\') (hquote : c ≠ '"')
      (h : LiteralBody body) : LiteralBody (c :: body)
  | pair (c : Char) {body : List Char} (h : LiteralBody body) : LiteralBody ('\\' :: c :: body)

theorem literalBody_plain {c : Char} (hbackslash : c ≠ '\\') (hquote : c ≠ '"')
    (rest : List Char) : literalBody? (c :: rest) = (literalBody? rest).map (c :: ·) := by
  rw [literalBody?]
  · simp [hbackslash, hquote]
  · intro h _
    exact hquote h
  · intro _ _ h _
    exact hbackslash h

/-- A literal is closed if the text after its first quote is a body and another quote. -/
theorem literalBody_eq_some_iff {text body : List Char} :
    literalBody? text = some body ↔ text = body ++ ['"'] ∧ LiteralBody body := by
  constructor
  · intro h
    fun_induction literalBody? text generalizing body with
    | case1 => cases h
    | case2 =>
      cases h
      exact ⟨rfl, .nil⟩
    | case3 c rest ih =>
      obtain ⟨body', hbody, rfl⟩ := Option.map_eq_some_iff.mp h
      obtain ⟨rfl, hrest⟩ := ih hbody
      exact ⟨rfl, .pair c hrest⟩
    | case4 => cases h
    | case5 c rest _ _ hplain ih =>
      obtain ⟨body', hbody, rfl⟩ := Option.map_eq_some_iff.mp h
      obtain ⟨rfl, hrest⟩ := ih hbody
      simp only [Bool.or_eq_true, decide_eq_true_eq, not_or] at hplain
      exact ⟨rfl, .plain hplain.2 hplain.1 hrest⟩
  · rintro ⟨rfl, hbody⟩
    induction hbody with
    | nil => rfl
    | plain hbackslash hquote _ ih =>
      rw [List.cons_append, literalBody_plain hbackslash hquote, ih]
      rfl
    | pair c _ ih =>
      rw [List.cons_append, List.cons_append, literalBody?, ih]
      rfl

theorem LiteralBody.not_closed {body : List Char} (h : LiteralBody body) :
    literalBody? body = none := by
  induction h with
  | nil => rfl
  | plain hbackslash hquote _ ih =>
    rw [literalBody_plain hbackslash hquote, ih]
    rfl
  | pair c _ ih =>
    rw [literalBody?, ih]
    rfl

theorem scan_escapeChar (read : List Char) (c : Char) :
    (LexerState.literal read).scan (escapeChar c) =
      ([], .literal ((escapeChar c).reverse ++ read)) := by
  unfold escapeChar
  split
  · rfl
  split
  · rfl
  split
  · rfl
  · next hb hq _ => simp [LexerState.scan, LexerState.next, hb, hq]

theorem scan_escaped (read : List Char) (text : List Char) :
    (LexerState.literal read).scan (text.flatMap escapeChar) =
      ([], .literal ((text.flatMap escapeChar).reverse ++ read)) := by
  induction text generalizing read with
  | nil => rfl
  | cons c text ih => simp [scan_append, scan_escapeChar, ih]

theorem spells_escape (text : List Char) :
    Spells (escape text) [.literal (String.ofList (escape text))] := by
  have hopen : LexerState.gap.next '"' = ([], .literal ['"']) := rfl
  have hall : LexerState.gap.scan (escape text) =
      ([.literal (String.ofList (escape text))], .gap) := by
    rw [escape, List.cons_append, LexerState.scan, hopen, scan_append, scan_escaped]
    simp [LexerState.scan, LexerState.next, textOfReversed]
  constructor
  · rw [hall]; trivial
  · rw [hall]; rfl

theorem literalBody_escapeChar (c : Char) (rest : List Char) :
    literalBody? (escapeChar c ++ rest) = (literalBody? rest).map (escapeChar c ++ ·) := by
  unfold escapeChar
  split
  · simp [literalBody?]
  split
  · simp [literalBody?]
  split
  · simp [literalBody?]
  · next hb hq _ => simp [literalBody?, hb, hq]

/-- The literal of a text is closed, and the escaped text is between its quotes. -/
theorem literalBody_escaped (text : List Char) :
    literalBody? (text.flatMap escapeChar ++ ['"']) = some (text.flatMap escapeChar) := by
  induction text with
  | nil => rfl
  | cons c text ih =>
    rw [List.flatMap_cons, List.append_assoc, literalBody_escapeChar, ih]
    rfl

theorem unescape_escapeChar (c : Char) (rest : List Char) :
    unescape (escapeChar c ++ rest) = c :: unescape rest := by
  unfold escapeChar
  split
  · next h => subst h; rfl
  split
  · next h => subst h; rfl
  split
  · next h => subst h; rfl
  · next hb _ _ =>
    rw [List.cons_append, List.nil_append, unescape]
    intro _ _ h _
    exact hb h

theorem unescape_escaped (text : List Char) : unescape (text.flatMap escapeChar) = text := by
  induction text with
  | nil => rfl
  | cons c text ih => rw [List.flatMap_cons, unescape_escapeChar, ih]

/-- Reading the literal of a text gives the text. -/
theorem literalValue_escape (text : String) :
    Parser.literalValue (String.ofList (escape text.toList)) = .ok (.str text) := by
  have hbody : (escape text.toList).drop 1 = text.toList.flatMap escapeChar ++ ['"'] := rfl
  rw [Parser.literalValue, String.toList_ofList, hbody, literalBody_escaped]
  simp [unescape_escaped]

end SmallLisp

import SmallLisp.Proofs.Literals

/-! # The tokens of a text

Every token of a text has the shape of its class: a word holds nothing that ends a word, and a
literal starts with a quote and has no other one in it but at its end. A line feed between two
texts separates their tokens, unless it stands inside a literal of the first one, which then goes
on in the second.
-/
namespace SmallLisp

/-- The shape that a token of a text has. A literal may lack its closing quote. -/
def Token.Lexed : Token → Prop
  | .word text => (∀ c ∈ text.toList, endsWord c = false) ∧
      ∃ c ∈ text.toList.head?, isMark c = false
  | .literal text => ∃ body, LiteralBody body ∧
      (text.toList = '"' :: body ∨ text.toList = '"' :: (body ++ ['"']))
  | _ => True

def Token.Closed : Token → Prop
  | .literal text => ∃ body, LiteralBody body ∧ text.toList = '"' :: (body ++ ['"'])
  | _ => True

namespace LexerState

def Shaped : LexerState → Prop
  | .word read => (Token.word (textOfReversed read)).Lexed
  | .literal read => ∃ body, LiteralBody body ∧ read.reverse = '"' :: body
  | .escape read => ∃ body, LiteralBody body ∧ read.reverse = '"' :: body
  | _ => True

end LexerState

theorem toList_textOfReversed (read : List Char) : (textOfReversed read).toList = read.reverse :=
  String.toList_ofList

theorem LiteralBody.append {a b : List Char} (ha : LiteralBody a) (hb : LiteralBody b) :
    LiteralBody (a ++ b) := by
  induction ha with
  | nil => exact hb
  | plain hbackslash hquote _ ih => exact .plain hbackslash hquote ih
  | pair c _ ih => exact .pair c ih

theorem soloToken_lexed {c : Char} {token : Token} (h : soloToken? c = some token) :
    token.Lexed := by
  unfold soloToken? at h
  split at h <;> cases h <;> trivial

theorem soloToken_closed {c : Char} {token : Token} (h : soloToken? c = some token) :
    token.Closed := by
  unfold soloToken? at h
  split at h <;> cases h <;> trivial

/-- Only a character that does not end words starts one. -/
theorem word_of_soloToken_none {c : Char} (hblank : ¬ (Text.isBlank c || c = ',') = true)
    (htilde : c ≠ '~') (hquote : c ≠ '"') (hsemicolon : c ≠ ';') (hsolo : soloToken? c = none) :
    (∀ d ∈ [c], endsWord d = false) ∧ isMark c = false := by
  simp only [Bool.or_eq_true, decide_eq_true_eq, not_or, Bool.not_eq_true] at hblank
  obtain ⟨hblank, hcomma⟩ := hblank
  unfold soloToken? at hsolo
  split at hsolo
  all_goals try cases hsolo
  next hround hround' hsquare hsquare' hcurly hcurly' htick hgrave hat hcaret =>
    constructor
    · rw [List.forall_mem_singleton]
      simp only [endsWord, hblank, List.mem_cons, hcomma, hquote, hsemicolon, List.not_mem_nil,
        Bool.false_or, or_false, false_or, decide_eq_false_iff_not, not_or]
      exact ⟨hround, hround', hsquare, hsquare', hcurly, hcurly', htick, hgrave⟩
    · simp only [isMark, htilde, decide_false, Bool.false_or, Bool.or_eq_false_iff,
        decide_eq_false_iff_not]
      exact ⟨hcaret, hat⟩

namespace LexerState

theorem start_shaped (c : Char) :
    (∀ token ∈ (start c).1, token.Lexed) ∧ (start c).2.Shaped := by
  unfold start
  split
  · exact ⟨List.forall_mem_nil _, trivial⟩
  next hblank =>
  split
  · exact ⟨List.forall_mem_nil _, trivial⟩
  next htilde =>
  split
  · exact ⟨List.forall_mem_nil _, [], .nil, rfl⟩
  next hquote =>
  split
  · exact ⟨List.forall_mem_nil _, trivial⟩
  next hsemicolon =>
  split
  · next hsolo => exact ⟨List.forall_mem_singleton.mpr (soloToken_lexed hsolo), trivial⟩
  · next hsolo =>
    obtain ⟨hends, hmark⟩ := word_of_soloToken_none hblank htilde hquote hsemicolon hsolo
    refine ⟨List.forall_mem_nil _, ?_, c, ?_, hmark⟩
    · rw [toList_textOfReversed]
      exact hends
    · rw [toList_textOfReversed]
      rfl

theorem word_shaped {read : List Char} {c : Char} (h : (word read).Shaped)
    (hc : endsWord c = false) : (word (c :: read)).Shaped := by
  obtain ⟨hends, d, hd, hmark⟩ := h
  rw [toList_textOfReversed] at hends hd
  refine ⟨?_, d, ?_, hmark⟩
  · rw [toList_textOfReversed, List.reverse_cons]
    exact List.forall_mem_append.mpr ⟨hends, List.forall_mem_singleton.mpr hc⟩
  · rw [toList_textOfReversed, List.reverse_cons, List.head?_append]
    exact Option.mem_def.mpr (by rw [Option.mem_def.mp hd]; rfl)

theorem literal_shaped {read more : List Char} (h : (literal read).Shaped)
    (hmore : LiteralBody more) : (literal (more.reverse ++ read)).Shaped := by
  obtain ⟨body, hbody, hread⟩ := h
  refine ⟨body ++ more, hbody.append hmore, ?_⟩
  rw [List.reverse_append, List.reverse_reverse, hread]
  rfl

theorem next_shaped {state : LexerState} (h : state.Shaped) (c : Char) :
    (∀ token ∈ (state.next c).1, token.Lexed) ∧ (state.next c).2.Shaped := by
  cases state with
  | gap => exact start_shaped c
  | comment =>
    refine ⟨List.forall_mem_nil _, ?_⟩
    dsimp only [next]
    split <;> trivial
  | tilde =>
    dsimp only [next]
    split
    · exact ⟨List.forall_mem_singleton.mpr trivial, trivial⟩
    · exact ⟨List.forall_mem_cons.mpr ⟨trivial, (start_shaped c).1⟩, (start_shaped c).2⟩
  | word read =>
    dsimp only [next]
    split
    · exact ⟨List.forall_mem_cons.mpr ⟨h, (start_shaped c).1⟩, (start_shaped c).2⟩
    · next hc => exact ⟨List.forall_mem_nil _, word_shaped h (Bool.eq_false_iff.mpr hc)⟩
  | literal read =>
    dsimp only [next]
    split
    · next hquote =>
      obtain ⟨body, hbody, hread⟩ := h
      refine ⟨List.forall_mem_singleton.mpr ⟨body, hbody, .inr ?_⟩, trivial⟩
      rw [toList_textOfReversed, List.reverse_cons, hread, hquote]
      rfl
    next hquote =>
    split
    · exact ⟨List.forall_mem_nil _, h⟩
    · next hbackslash =>
      exact ⟨List.forall_mem_nil _, literal_shaped h (.plain hbackslash hquote .nil)⟩
  | escape read => exact ⟨List.forall_mem_nil _, literal_shaped h (.pair c .nil)⟩

theorem start_closed (c : Char) : ∀ token ∈ (start c).1, token.Closed := by
  unfold start
  split
  · exact List.forall_mem_nil _
  split
  · exact List.forall_mem_nil _
  split
  · exact List.forall_mem_nil _
  split
  · exact List.forall_mem_nil _
  split
  · next hsolo => exact List.forall_mem_singleton.mpr (soloToken_closed hsolo)
  · exact List.forall_mem_nil _

/-- A literal that a character completes is closed by it. -/
theorem next_closed {state : LexerState} (h : state.Shaped) (c : Char) :
    ∀ token ∈ (state.next c).1, token.Closed := by
  cases state with
  | gap => exact start_closed c
  | comment => exact List.forall_mem_nil _
  | tilde =>
    dsimp only [next]
    split
    · exact List.forall_mem_singleton.mpr trivial
    · exact List.forall_mem_cons.mpr ⟨trivial, start_closed c⟩
  | word read =>
    dsimp only [next]
    split
    · exact List.forall_mem_cons.mpr ⟨trivial, start_closed c⟩
    · exact List.forall_mem_nil _
  | literal read =>
    obtain ⟨body, hbody, hread⟩ := h
    dsimp only [next]
    split
    · next hquote =>
      refine List.forall_mem_singleton.mpr ⟨body, hbody, ?_⟩
      rw [toList_textOfReversed, List.reverse_cons, hread, hquote]
      rfl
    · split <;> exact List.forall_mem_nil _
  | escape read => exact List.forall_mem_nil _

theorem finish_lexed {state : LexerState} (h : state.Shaped) :
    ∀ token ∈ state.finish, token.Lexed := by
  have hliteral : ∀ read, (literal read).Shaped → (Token.literal (textOfReversed read)).Lexed := by
    rintro read ⟨body, hbody, hread⟩
    exact ⟨body, hbody, .inl (by rw [toList_textOfReversed, hread])⟩
  cases state with
  | gap => exact List.forall_mem_nil _
  | comment => exact List.forall_mem_nil _
  | tilde => exact List.forall_mem_singleton.mpr trivial
  | word read => exact List.forall_mem_singleton.mpr h
  | literal read => exact List.forall_mem_singleton.mpr (hliteral read h)
  | escape read =>
    refine List.forall_mem_cons.mpr ⟨hliteral read h, List.forall_mem_singleton.mpr ?_⟩
    have hends : ∀ c ∈ "\\".toList, endsWord c = false := List.forall_mem_singleton.mpr rfl
    exact ⟨hends, '\\', by decide, by decide⟩

end LexerState

theorem scan_shaped {state : LexerState} (h : state.Shaped) (text : List Char) :
    (∀ token ∈ (state.scan text).1, token.Lexed) ∧ (state.scan text).2.Shaped := by
  induction text generalizing state with
  | nil => exact ⟨List.forall_mem_nil _, h⟩
  | cons c text ih =>
    obtain ⟨htokens, hstate⟩ := LexerState.next_shaped h c
    obtain ⟨hrest, hend⟩ := ih hstate
    exact ⟨List.forall_mem_append.mpr ⟨htokens, hrest⟩, hend⟩

theorem scan_closed {state : LexerState} (h : state.Shaped) (text : List Char) :
    ∀ token ∈ (state.scan text).1, token.Closed := by
  induction text generalizing state with
  | nil => exact List.forall_mem_nil _
  | cons c text ih =>
    exact List.forall_mem_append.mpr
      ⟨LexerState.next_closed h c, ih (LexerState.next_shaped h c).2⟩

theorem tokenize_lexed (source : String) : ∀ token ∈ tokenize source, token.Lexed := by
  have hgap : LexerState.gap.Shaped := trivial
  obtain ⟨htokens, hend⟩ := scan_shaped hgap source.toList
  rw [tokenize_eq_scan]
  exact List.forall_mem_append.mpr ⟨htokens, LexerState.finish_lexed hend⟩

/-- A line feed ends every token but a literal. -/
theorem next_line_feed {state : LexerState} (h : state.Shaped)
    (hclosed : ∀ token ∈ state.finish, token.Closed) :
    state.next '\n' = (state.finish, .gap) := by
  have hunclosed : ∀ read, (LexerState.literal read).Shaped →
      ¬ (Token.literal (textOfReversed read)).Closed := by
    rintro read ⟨body, hbody, hread⟩ ⟨body', hbody', htext⟩
    rw [toList_textOfReversed, hread, List.cons.injEq] at htext
    have hnone := hbody.not_closed
    rw [htext.2, literalBody_eq_some_iff.mpr ⟨rfl, hbody'⟩] at hnone
    cases hnone
  cases state with
  | gap => rfl
  | comment => rfl
  | tilde => rfl
  | word read => rfl
  | literal read => exact absurd (hclosed _ List.mem_cons_self) (hunclosed read h)
  | escape read => exact absurd (hclosed _ List.mem_cons_self) (hunclosed read h)

theorem tokenize_line_feed {a : String} (h : ∀ token ∈ tokenize a, token.Closed) (b : String) :
    tokenize (a ++ "\n" ++ b) = tokenize a ++ tokenize b := by
  have hgap : LexerState.gap.Shaped := trivial
  have hend := (scan_shaped hgap a.toList).2
  rw [tokenize_eq_scan a] at h ⊢
  have hnext := next_line_feed hend (List.forall_mem_append.mp h).2
  have htext : (a ++ "\n" ++ b).toList = a.toList ++ '\n' :: b.toList := by
    simp
  rw [tokenize_eq_scan, tokenize_eq_scan, htext, scan_append, LexerState.scan, hnext]
  simp

/-- A literal that the text does not close goes on over a line feed. -/
theorem next_line_feed_of_unclosed {state : LexerState}
    (h : ¬ ∀ token ∈ state.finish, token.Closed) :
    (state.next '\n').1 ++ (state.next '\n').2.finish ≠ state.finish := by
  cases state with
  | literal read =>
    intro hsame
    have hread : textOfReversed ('\n' :: read) = textOfReversed read :=
      Token.literal.inj (List.cons.inj hsame).1
    rw [← String.toList_inj, toList_textOfReversed, toList_textOfReversed, List.reverse_inj]
      at hread
    exact List.cons_ne_self _ _ hread
  | escape read => exact fun hsame => nomatch (List.cons.inj hsame).2
  | gap => exact absurd (List.forall_mem_nil _) h
  | comment => exact absurd (List.forall_mem_nil _) h
  | tilde => exact absurd (List.forall_mem_singleton.mpr trivial) h
  | word read => exact absurd (List.forall_mem_singleton.mpr trivial) h

/-- The tokens of two texts with a line feed between are those of the first and then those of the
second, whatever the second is, exactly if every literal of the first one is closed. -/
theorem tokenize_line_feed_iff (a : String) :
    (∀ b, tokenize (a ++ "\n" ++ b) = tokenize a ++ tokenize b) ↔
      ∀ token ∈ tokenize a, token.Closed := by
  refine ⟨fun h => ?_, fun h b => tokenize_line_feed h b⟩
  have hgap : LexerState.gap.Shaped := trivial
  -- a line feed alone shows whether the first text ends inside a literal
  have htext : (a ++ "\n" ++ "").toList = a.toList ++ ['\n'] := by
    simp
  have hempty : tokenize "" = [] := rfl
  have hsame := h ""
  rw [tokenize_eq_scan, tokenize_eq_scan a, htext, scan_append, LexerState.scan, LexerState.scan,
    hempty, List.append_nil, List.append_nil, List.append_assoc] at hsame
  have hfinish := List.append_cancel_left hsame
  rw [tokenize_eq_scan]
  refine List.forall_mem_append.mpr ⟨scan_closed hgap a.toList, ?_⟩
  exact Classical.byContradiction fun hunclosed => next_line_feed_of_unclosed hunclosed hfinish

/-- The first text ends in a comment with a quote, in a backslash or in a mark. -/
example : tokenize ("a\\" ++ "\n" ++ "~;\"" ++ "\n" ++ "~" ++ "\n" ++ "@b\"") =
    tokenize "a\\" ++ tokenize "~;\"" ++ tokenize "~" ++ tokenize "@b\"" := by
  rfl

end SmallLisp

import SmallLisp.Proofs.Tokenizing

/-! # A text in tokens and gaps

A text consists of its tokens and of the gaps before, between and behind them, which hold blanks,
commas and comments only. No token could go on further than it does. The tokens that a text can be
divided into like this are determined by the text, and they are those that the lexer finds.
-/
namespace SmallLisp

/-- Blanks, commas and comments in front of the text `after`. A comment goes on up to the next line
feed or the end of the text. -/
inductive IsGap (after : List Char) : List Char → Prop where
  | nil : IsGap after []
  | separator {c : Char} {gap : List Char} (hc : Text.isBlank c = true ∨ c = ',')
      (h : IsGap after gap) : IsGap after (c :: gap)
  | comment {body gap : List Char} (hbody : '\n' ∉ body)
      (hend : ∀ c ∈ (gap ++ after).head?, c = '\n') (h : IsGap after gap) :
      IsGap after (';' :: (body ++ gap))

/-- The token goes on as far as it can in front of the text `after`. A literal that nothing closes
leaves no more than an unpaired backslash. -/
def Token.Maximal (after : List Char) : Token → Prop
  | .mark .unquote => after.head? ≠ some '@'
  | .literal text => (Token.literal text).Closed ∨
      (∃ body, LiteralBody body ∧ text.toList = '"' :: body) ∧ (after = [] ∨ after = ['\\'])
  | .word text => (Token.word text).Lexed ∧ ∀ c ∈ after.head?, endsWord c = true
  | _ => True

inductive Segmented : List Char → List Token → Prop where
  | last {gap : List Char} (h : IsGap [] gap) : Segmented gap []
  | token {gap rest : List Char} {token : Token} {tokens : List Token}
      (hgap : IsGap (token.text.toList ++ rest) gap) (htoken : token.Maximal rest)
      (hrest : Segmented rest tokens) :
      Segmented (gap ++ (token.text.toList ++ rest)) (token :: tokens)

def LexerState.tokensOf (state : LexerState) (text : List Char) : List Token :=
  (state.scan text).1 ++ (state.scan text).2.finish

variable {gap rest text : List Char} {c : Char} {token : Token} {tokens : List Token}

theorem tokensOf_cons (state : LexerState) (c : Char) (text : List Char) :
    state.tokensOf (c :: text) = (state.next c).1 ++ (state.next c).2.tokensOf text := by
  simp [LexerState.tokensOf, LexerState.scan]

theorem start_of_separator (hc : Text.isBlank c = true ∨ c = ',') :
    LexerState.start c = ([], .gap) := by
  rcases hc with hc | rfl
  · simp [LexerState.start, hc]
  · rfl

theorem tokensOf_comment {body : List Char} (hbody : '\n' ∉ body)
    (hend : ∀ c ∈ rest.head?, c = '\n') :
    LexerState.comment.tokensOf (body ++ rest) = LexerState.gap.tokensOf rest := by
  induction body with
  | nil =>
    cases rest with
    | nil => rfl
    | cons c rest =>
      obtain rfl : c = '\n' := hend c rfl
      rfl
  | cons c body ih =>
    rw [List.mem_cons, not_or] at hbody
    obtain ⟨hc, hbody⟩ := hbody
    rw [List.cons_append, tokensOf_cons, LexerState.next, if_neg (Ne.symm hc)]
    exact ih hbody

theorem IsGap.tokensOf_append (h : IsGap rest gap) :
    LexerState.gap.tokensOf (gap ++ rest) = LexerState.gap.tokensOf rest := by
  induction h with
  | nil => rfl
  | @separator c gap hc _ ih =>
    rw [List.cons_append, tokensOf_cons, LexerState.next, start_of_separator hc]
    exact ih
  | @comment body gap hbody hend _ ih =>
    have hstart : LexerState.gap.next ';' = ([], .comment) := rfl
    rw [List.cons_append, List.append_assoc, tokensOf_cons, hstart]
    exact (tokensOf_comment hbody hend).trans ih

theorem tokensOf_word (read : List Char) (hrun : ∀ c ∈ text, endsWord c = false)
    (hend : ∀ c ∈ rest.head?, endsWord c = true) :
    (LexerState.word read).tokensOf (text ++ rest) =
      .word (textOfReversed (text.reverse ++ read)) :: LexerState.gap.tokensOf rest := by
  have hscan := scan_word read hrun
  rw [LexerState.tokensOf, scan_append, hscan]
  cases rest with
  | nil => rfl
  | cons c rest =>
    have hc : endsWord c = true := hend c rfl
    simp [LexerState.tokensOf, LexerState.scan, LexerState.next, hc]

theorem LiteralBody.tokensOf_append {body : List Char} (h : LiteralBody body)
    (read rest : List Char) :
    (LexerState.literal read).tokensOf (body ++ rest) =
      (LexerState.literal (body.reverse ++ read)).tokensOf rest := by
  induction h generalizing read with
  | nil => rfl
  | @plain c body hbackslash hquote _ ih =>
    rw [List.cons_append, tokensOf_cons, LexerState.next, if_neg hquote, if_neg hbackslash,
      List.nil_append, ih, List.reverse_cons, List.append_assoc]
    rfl
  | @pair c body _ ih =>
    have hpair : (LexerState.literal read).tokensOf ('\\' :: c :: body ++ rest) =
        (LexerState.literal (c :: '\\' :: read)).tokensOf (body ++ rest) := by
      rw [List.cons_append, List.cons_append, tokensOf_cons, tokensOf_cons]
      rfl
    rw [hpair, ih]
    simp

theorem tokensOf_closed {literal : String} (h : (Token.literal literal).Closed)
    (rest : List Char) :
    LexerState.gap.tokensOf (literal.toList ++ rest) =
      .literal literal :: LexerState.gap.tokensOf rest := by
  obtain ⟨body, hbody, htext⟩ := h
  have hopen : LexerState.gap.next '"' = ([], .literal ['"']) := rfl
  have hclose : ∀ read, (LexerState.literal read).tokensOf ('"' :: rest) =
      .literal (textOfReversed ('"' :: read)) :: LexerState.gap.tokensOf rest := by
    intro read
    rw [tokensOf_cons]
    rfl
  have hliteral : textOfReversed ('"' :: (body.reverse ++ ['"'])) = literal := by
    rw [← String.toList_inj, toList_textOfReversed, htext]
    simp
  rw [htext, List.cons_append, tokensOf_cons, hopen, List.append_assoc]
  exact (hbody.tokensOf_append _ _).trans (by rw [List.singleton_append, hclose, hliteral])

/-- A literal without a closing quote has only an unpaired backslash behind it. -/
theorem tokensOf_unclosed {literal : String} {body : List Char} (hbody : LiteralBody body)
    (htext : literal.toList = '"' :: body) (hend : rest = [] ∨ rest = ['\\']) :
    LexerState.gap.tokensOf (literal.toList ++ rest) =
      .literal literal :: LexerState.gap.tokensOf rest := by
  have hopen : LexerState.gap.next '"' = ([], .literal ['"']) := rfl
  have hliteral : textOfReversed (body.reverse ++ ['"']) = literal := by
    rw [← String.toList_inj, toList_textOfReversed, htext]
    simp
  rw [htext, List.cons_append, tokensOf_cons, hopen]
  refine (hbody.tokensOf_append _ _).trans ?_
  rcases hend with rfl | rfl
  · rw [← hliteral]
    rfl
  · rw [← hliteral]
    rfl

/-- A token that goes on as far as it can is the first one of the text. -/
theorem Token.Maximal.tokensOf_append (h : token.Maximal rest) :
    LexerState.gap.tokensOf (token.text.toList ++ rest) =
      token :: LexerState.gap.tokensOf rest := by
  cases token with
  | opening bracket => cases bracket <;> rfl
  | closing bracket => cases bracket <;> rfl
  | literal text =>
    rcases h with hclosed | ⟨⟨body, hbody, htext⟩, hend⟩
    · exact tokensOf_closed hclosed rest
    · exact tokensOf_unclosed hbody htext hend
  | word text =>
    obtain ⟨⟨hrun, c, hc, hmark⟩, hend⟩ := h
    obtain ⟨run, htext⟩ := List.head?_eq_some_iff.mp hc
    have hstart : LexerState.gap.next c = ([], .word [c]) :=
      start_of_word (hrun c (List.mem_of_mem_head? hc)) hmark
    have hword : textOfReversed (run.reverse ++ [c]) = text := by
      rw [← String.toList_inj, toList_textOfReversed, htext]
      simp
    rw [htext] at hrun
    rw [Token.text, htext, List.cons_append, tokensOf_cons, hstart]
    refine (tokensOf_word _ (List.forall_mem_cons.mp hrun).2 hend).trans ?_
    rw [hword]
  | mark mark =>
    cases mark with
    | unquote =>
      cases rest with
      | nil => rfl
      | cons c rest =>
        have hc : c ≠ '@' := fun hc => h (congrArg some hc)
        have hopen : LexerState.gap.next '~' = ([], .tilde) := rfl
        have htilde : LexerState.tilde.next c =
            (.mark .unquote :: (LexerState.start c).1, (LexerState.start c).2) := if_neg hc
        show LexerState.gap.tokensOf ('~' :: c :: rest) = _
        rw [tokensOf_cons, hopen, tokensOf_cons, htilde, tokensOf_cons, LexerState.next]
        rfl
    | _ => rfl

theorem Token.Maximal.text_ne_empty (h : token.Maximal rest) : token.text ≠ "" := by
  have hcons : ∀ {text : String} {c : Char} {more : List Char}, text.toList = c :: more →
      text ≠ "" := by
    rintro _ c more htext rfl
    cases htext
  cases token with
  | opening bracket => cases bracket <;> decide
  | closing bracket => cases bracket <;> decide
  | mark mark => cases mark <;> decide
  | literal text =>
    rcases h with ⟨body, _, htext⟩ | ⟨⟨body, _, htext⟩, _⟩
    · exact hcons htext
    · exact hcons htext
  | word text =>
    obtain ⟨⟨_, c, hc, _⟩, _⟩ := h
    obtain ⟨more, htext⟩ := List.head?_eq_some_iff.mp hc
    exact hcons htext

theorem Segmented.text_ne_empty (h : Segmented text tokens) :
    ∀ token ∈ tokens, token.text ≠ "" := by
  induction h with
  | last => exact List.forall_mem_nil _
  | token _ htoken _ ih => exact List.forall_mem_cons.mpr ⟨htoken.text_ne_empty, ih⟩

theorem Segmented.tokensOf_eq (h : Segmented text tokens) :
    LexerState.gap.tokensOf text = tokens := by
  induction h with
  | last hgap =>
    have hnone := hgap.tokensOf_append
    rw [List.append_nil] at hnone
    exact hnone
  | token hgap htoken _ ih => rw [hgap.tokensOf_append, htoken.tokensOf_append, ih]

theorem Segmented.separator (hc : Text.isBlank c = true ∨ c = ',') (h : Segmented text tokens) :
    Segmented (c :: text) tokens := by
  cases h with
  | last hgap => exact .last (.separator hc hgap)
  | token hgap htoken hrest => exact .token (.separator hc hgap) htoken hrest

theorem Segmented.comment {body : List Char} (hbody : '\n' ∉ body)
    (hend : ∀ c ∈ text.head?, c = '\n') (h : Segmented text tokens) :
    Segmented (';' :: (body ++ text)) tokens := by
  cases h with
  | @last gap hgap =>
    refine .last (.comment hbody ?_ hgap)
    rw [List.append_nil]
    exact hend
  | @token gap rest token _ hgap htoken hrest =>
    have hmoved : ';' :: (body ++ (gap ++ (token.text.toList ++ rest))) =
        (';' :: (body ++ gap)) ++ (token.text.toList ++ rest) := by
      simp
    rw [hmoved]
    exact .token (.comment hbody hend hgap) htoken hrest

/-- A text goes on without an end up to the first character that is one. -/
theorem exists_run (isEnd : Char → Bool) (text : List Char) :
    ∃ run rest, text = run ++ rest ∧ (∀ c ∈ run, isEnd c = false) ∧
      ∀ c ∈ rest.head?, isEnd c = true := by
  induction text with
  | nil => exact ⟨[], [], rfl, List.forall_mem_nil _, fun _ hc => nomatch hc⟩
  | cons c text ih =>
    cases hc : isEnd c with
    | true => exact ⟨[], c :: text, rfl, List.forall_mem_nil _, fun d hd => by cases hd; exact hc⟩
    | false =>
      obtain ⟨run, rest, rfl, hrun, hend⟩ := ih
      exact ⟨c :: run, rest, rfl, List.forall_mem_cons.mpr ⟨hc, hrun⟩, hend⟩

/-- A text behind a quote goes on as the body of a literal up to a quote or the end. -/
theorem exists_literalBody : (text : List Char) →
    ∃ body rest, text = body ++ rest ∧ LiteralBody body ∧
      (rest = [] ∨ rest = ['\\'] ∨ rest.head? = some '"')
  | [] => ⟨[], [], rfl, .nil, .inl rfl⟩
  | [c] => by
    by_cases hbackslash : c = '\\'
    · exact ⟨[], [c], rfl, .nil, .inr (.inl (congrArg (fun c => [c]) hbackslash))⟩
    by_cases hquote : c = '"'
    · exact ⟨[], [c], rfl, .nil, .inr (.inr (congrArg some hquote))⟩
    exact ⟨[c], [], rfl, .plain hbackslash hquote .nil, .inl rfl⟩
  | c :: d :: text => by
    by_cases hbackslash : c = '\\'
    · obtain ⟨body, rest, htext, hbody, hend⟩ := exists_literalBody text
      refine ⟨c :: d :: body, rest, by rw [htext]; rfl, ?_, hend⟩
      rw [hbackslash]
      exact .pair d hbody
    by_cases hquote : c = '"'
    · exact ⟨[], c :: d :: text, rfl, .nil, .inr (.inr (congrArg some hquote))⟩
    obtain ⟨body, rest, htext, hbody, hend⟩ := exists_literalBody (d :: text)
    exact ⟨c :: body, rest, by rw [htext]; rfl, .plain hbackslash hquote hbody, hend⟩

def StartsWithToken (text : List Char) : Prop :=
  ∃ (token : Token) (rest : List Char),
    text = token.text.toList ++ rest ∧ token.Maximal rest

theorem startsWithToken_tilde (text : List Char) : StartsWithToken ('~' :: text) := by
  by_cases hat : text.head? = some '@'
  · obtain ⟨rest, rfl⟩ := List.head?_eq_some_iff.mp hat
    exact ⟨.mark .spliceUnquote, rest, rfl, trivial⟩
  · exact ⟨.mark .unquote, text, rfl, hat⟩

theorem startsWithToken_quote (text : List Char) : StartsWithToken ('"' :: text) := by
  obtain ⟨body, rest, rfl, hbody, hend⟩ := exists_literalBody text
  have hunclosed (hend : rest = [] ∨ rest = ['\\']) : StartsWithToken ('"' :: (body ++ rest)) := by
    have htext : (String.ofList ('"' :: body)).toList = '"' :: body := String.toList_ofList
    refine ⟨.literal (String.ofList ('"' :: body)), rest, ?_, ?_⟩
    · rw [Token.text, htext, List.cons_append]
    · exact .inr ⟨⟨body, hbody, htext⟩, hend⟩
  rcases hend with hend | hend | hquote
  · exact hunclosed (.inl hend)
  · exact hunclosed (.inr hend)
  · obtain ⟨after, rfl⟩ := List.head?_eq_some_iff.mp hquote
    have htext : (String.ofList ('"' :: (body ++ ['"']))).toList = '"' :: (body ++ ['"']) :=
      String.toList_ofList
    refine ⟨.literal (String.ofList ('"' :: (body ++ ['"']))), after, ?_, ?_⟩
    · rw [Token.text, htext, List.cons_append, List.append_assoc, List.singleton_append]
    · exact .inl ⟨body, hbody, htext⟩

theorem startsWithToken_solo (h : soloToken? c = some token) (text : List Char) :
    StartsWithToken (c :: text) := by
  have hsolo : token.text.toList = [c] ∧ token.Maximal text := by
    unfold soloToken? at h
    split at h <;> cases h <;> exact ⟨rfl, trivial⟩
  obtain ⟨htext, hmaximal⟩ := hsolo
  refine ⟨token, text, ?_, hmaximal⟩
  rw [htext, List.singleton_append]

theorem startsWithToken_word (hc : endsWord c = false) (hmark : isMark c = false)
    (text : List Char) : StartsWithToken (c :: text) := by
  obtain ⟨run, rest, rfl, hrun, hend⟩ := exists_run endsWord text
  have htext : (String.ofList (c :: run)).toList = c :: run := String.toList_ofList
  refine ⟨.word (String.ofList (c :: run)), rest, ?_, ⟨⟨?_, c, ?_, hmark⟩, hend⟩⟩
  · rw [Token.text, htext, List.cons_append]
  · rw [htext]
    exact List.forall_mem_cons.mpr ⟨hc, hrun⟩
  · rw [htext]
    rfl

theorem startsWithToken (hblank : ¬ (Text.isBlank c || c = ',') = true) (hsemicolon : c ≠ ';')
    (text : List Char) : StartsWithToken (c :: text) := by
  by_cases htilde : c = '~'
  · rw [htilde]
    exact startsWithToken_tilde text
  by_cases hquote : c = '"'
  · rw [hquote]
    exact startsWithToken_quote text
  cases hsolo : soloToken? c with
  | some token => exact startsWithToken_solo hsolo text
  | none =>
    obtain ⟨hends, hmark⟩ := word_of_soloToken_none hblank htilde hquote hsemicolon hsolo
    exact startsWithToken_word (hends c List.mem_cons_self) hmark text

theorem exists_segmented (text : List Char) : ∃ tokens, Segmented text tokens := by
  induction hlength : text.length using Nat.strongRecOn generalizing text with
  | _ length ih =>
    subst hlength
    cases text with
    | nil => exact ⟨[], .last .nil⟩
    | cons c text =>
      by_cases hblank : (Text.isBlank c || c = ',') = true
      · obtain ⟨tokens, h⟩ := ih _ (Nat.lt_succ_self _) text rfl
        rw [Bool.or_eq_true, decide_eq_true_eq] at hblank
        exact ⟨tokens, h.separator hblank⟩
      by_cases hsemicolon : c = ';'
      · obtain ⟨body, rest, rfl, hbody, hend⟩ := exists_run (· = '\n') text
        have hshorter : rest.length < (c :: (body ++ rest)).length := by
          rw [List.length_cons, List.length_append]
          omega
        obtain ⟨tokens, h⟩ := ih _ hshorter rest rfl
        rw [hsemicolon]
        refine ⟨tokens, h.comment ?_ ?_⟩
        · exact fun hfeed => of_decide_eq_false (hbody '\n' hfeed) rfl
        · exact fun d hd => of_decide_eq_true (hend d hd)
      obtain ⟨token, rest, htext, htoken⟩ := startsWithToken hblank hsemicolon text
      have hshorter : rest.length < (c :: text).length := by
        have hpositive : token.text.toList.length ≠ 0 := by
          rw [Ne, List.length_eq_zero_iff, String.toList_eq_nil_iff]
          exact htoken.text_ne_empty
        rw [htext, List.length_append]
        omega
      obtain ⟨tokens, h⟩ := ih _ hshorter rest rfl
      rw [htext]
      exact ⟨token :: tokens, .token .nil htoken h⟩

/-- The tokens of a text are those that it consists of, apart from its gaps, if each token goes on
as far as it can. No token is empty. -/
theorem tokenize_eq_iff_segmented (source : String) (tokens : List Token) :
    (tokenize source = tokens ↔ Segmented source.toList tokens) ∧
      ∀ token ∈ tokenize source, token.text ≠ "" := by
  have hscan : tokenize source = LexerState.gap.tokensOf source.toList := tokenize_eq_scan source
  obtain ⟨segments, hsegments⟩ := exists_segmented source.toList
  have htokens : tokenize source = segments := hscan.trans hsegments.tokensOf_eq
  refine ⟨⟨?_, ?_⟩, ?_⟩
  · intro h
    rw [← h, htokens]
    exact hsegments
  · intro h
    exact hscan.trans h.tokensOf_eq
  · rw [htokens]
    exact hsegments.text_ne_empty

/-- A comment opens no literal, a literal no comment, and a backslash at the end stays alone. -/
example : tokenize "a ;\"\n~@b\";\\" =
    [.word "a", .mark .spliceUnquote, .word "b", .literal "\";", .word "\\"] := by
  rfl

end SmallLisp

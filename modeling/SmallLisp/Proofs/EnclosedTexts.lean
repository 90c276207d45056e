import SmallLisp.Proofs.Grammar

/-! # A text between brackets

The loader reads the text of a file between brackets, as one form. If the text can be read by
itself, the form holds its forms. If it cannot, neither can the whole, except in two cases: the text
closes the bracket that it does not open, or it ends in marks without a form, which then take the
`nil` that stands after the text.
-/
namespace SmallLisp

variable {source : String} {p q : Parser} {items forms : List Value} {token : Token}
  {tokens rest : List Token}

def scriptText (source : String) : String := "(do " ++ source ++ "\nnil)"

def completedTokens (source : String) : List Token := (LexerState.gap.scan source.toList).1

def endState (source : String) : LexerState := (LexerState.gap.scan source.toList).2

theorem tokenize_eq_completed (source : String) :
    tokenize source = completedTokens source ++ (endState source).finish :=
  tokenize_eq_scan source

theorem endState_shaped (source : String) : (endState source).Shaped := by
  have hgap : LexerState.gap.Shaped := trivial
  exact (scan_shaped hgap source.toList).2

theorem tokenize_scriptText_eq_scan (source : String) :
    tokenize (scriptText source) = .opening .round :: .word "do" :: (completedTokens source ++
      (((endState source).scan "\nnil)".toList).1 ++
        ((endState source).scan "\nnil)".toList).2.finish)) := by
  have hopening : LexerState.gap.scan "(do ".toList =
      ([.opening .round, .word "do"], .gap) := by rfl
  have htext : (scriptText source).toList =
      "(do ".toList ++ (source.toList ++ "\nnil)".toList) := by
    simp [scriptText]
  rw [tokenize_eq_scan, htext, scan_append, hopening, scan_append, completedTokens, endState]
  simp

theorem tokenize_scriptText (h : ∀ token ∈ (endState source).finish, token.Closed) :
    tokenize (scriptText source) =
      .opening .round :: .word "do" :: (tokenize source ++ [.word "nil", .closing .round]) := by
  have hend : LexerState.gap.scan "nil)".toList = ([.word "nil", .closing .round], .gap) := by rfl
  have hscan : (endState source).scan "\nnil)".toList =
      ((endState source).finish ++ [.word "nil", .closing .round], .gap) := by
    have htext : "\nnil)".toList = '\n' :: "nil)".toList := rfl
    rw [htext, LexerState.scan, next_line_feed (endState_shaped source) h, hend]
  rw [tokenize_scriptText_eq_scan, tokenize_eq_completed, hscan]
  simp [LexerState.finish]

/-- A literal that the text does not close is not closed by what comes after it. -/
theorem tokenize_scriptText_unclosed
    (h : ¬ ∀ token ∈ (endState source).finish, token.Closed) :
    ∃ text, tokenize (scriptText source) = .opening .round :: .word "do" ::
      (completedTokens source ++ [.literal text]) ∧
      Parser.literalValue text = .error (.fault (.reading .unclosedString)) := by
  have hunclosed : ∀ read body more : List Char, LiteralBody body → LiteralBody more →
      read.reverse = '"' :: body → Parser.literalValue (textOfReversed (more.reverse ++ read)) =
        .error (.fault (.reading .unclosedString)) := by
    intro read body more hbody hmore hread
    have hnone := (hbody.append hmore).not_closed
    rw [Parser.literalValue, toList_textOfReversed, List.reverse_append, List.reverse_reverse,
      hread, List.cons_append, List.drop_succ_cons, List.drop_zero, hnone]
  have hplain : LiteralBody "nil)".toList :=
    .plain (by decide) (by decide) (.plain (by decide) (by decide)
      (.plain (by decide) (by decide) (.plain (by decide) (by decide) .nil)))
  have hshaped := endState_shaped source
  have hscan := tokenize_scriptText_eq_scan source
  cases hstate : endState source with
  | literal read =>
    rw [hstate] at hshaped hscan
    obtain ⟨body, hbody, hread⟩ := hshaped
    refine ⟨_, hscan, hunclosed read body "\nnil)".toList hbody ?_ hread⟩
    exact .plain (by decide) (by decide) hplain
  | escape read =>
    rw [hstate] at hshaped hscan
    obtain ⟨body, hbody, hread⟩ := hshaped
    exact ⟨_, hscan, hunclosed read body "\\\nnil)".toList hbody (.pair '\n' hplain) hread⟩
  | word read =>
    rw [hstate] at h
    exact absurd (List.forall_mem_singleton.mpr trivial) h
  | tilde =>
    rw [hstate] at h
    exact absurd (List.forall_mem_singleton.mpr trivial) h
  | gap =>
    rw [hstate] at h
    exact absurd (List.forall_mem_nil _) h
  | comment =>
    rw [hstate] at h
    exact absurd (List.forall_mem_nil _) h

namespace Parser

/-- The parser after what it has taken is put inside a list, which is open and has these items
before. -/
def inside (items : List Value) (p : Parser) : Parser :=
  ⟨[], p.pending ++ [.collection .round (p.finished ++ items)]⟩

theorem deliver_inside (items finished : List Value) (form : Value) (pending : List OpenForm) :
    deliver [] form (pending ++ [.collection .round (finished ++ items)]) =
      (deliver finished form pending).inside items := by
  -- a finished call is handed on to the next open form, so the form changes on the way
  induction pending generalizing form with
  | nil => rfl
  | cons o pending ih =>
    cases o with
    | collection bracket parts => rfl
    | call name => exact ih _
    | metadata => rfl
    | target metadata => exact ih _

/-- A token does the same inside a list, unless it closes the list. -/
theorem accept_inside (h : token = .closing .round → p.pending ≠ []) (items : List Value) :
    (p.inside items).accept token = (p.accept token).map (inside items) := by
  have hdeliver : ∀ (x : Except ReadingError Value) (finished : List Value)
      (pending : List OpenForm),
      (x.map fun form => deliver [] form (pending ++ [.collection .round (finished ++ items)])) =
        (x.map fun form => deliver finished form pending).map (inside items) := by
    intro x finished pending
    cases x with
    | error e => rfl
    | ok form => exact congrArg Except.ok (deliver_inside items finished form pending)
  obtain ⟨finished, pending⟩ := p
  cases token with
  | opening bracket => rfl
  | mark mark => rfl
  | word text => exact hdeliver _ finished pending
  | literal text => exact hdeliver _ finished pending
  | closing bracket =>
    cases pending with
    | nil =>
      have hbracket : bracket ≠ .round := fun hround => h (congrArg _ hround) rfl
      simp only [accept, inside, List.nil_append, if_neg hbracket]
      rfl
    | cons o pending =>
      cases o with
      | collection bracket' parts =>
        by_cases hbracket : bracket = bracket'
        · simp only [accept, inside, List.cons_append, if_pos hbracket]
          exact hdeliver _ finished pending
        · simp only [accept, inside, List.cons_append, if_neg hbracket]
          rfl
      | call name => rfl
      | metadata => rfl
      | target metadata => rfl

theorem acceptAll_inside (h : p.acceptAll tokens = .ok q) (items : List Value) :
    (p.inside items).acceptAll tokens = .ok (q.inside items) := by
  induction tokens generalizing p with
  | nil =>
    cases h
    rfl
  | cons token tokens ih =>
    obtain ⟨r, haccept, hothers⟩ := acceptAll_cons_eq_ok h
    -- with nothing open a closing bracket would not have been accepted
    have hopen : token = .closing .round → p.pending ≠ [] := by
      rintro rfl hnone
      obtain ⟨_, _, _, hpending, -, -⟩ := accept_closing haccept
      rw [hnone] at hpending
      cases hpending
    have hinside : (p.inside items).accept token = .ok (r.inside items) := by
      rw [accept_inside hopen, haccept]
      rfl
    rw [acceptAll_cons_of_accept hinside]
    exact ih hothers

theorem Refuses.inside {e : ReadingError} (h : p.Refuses tokens e)
    (hopen : ∀ before after q, tokens = before ++ .closing .round :: after →
      p.acceptAll before = .ok q → q.pending ≠ []) (items : List Value) :
    (p.inside items).Refuses tokens e := by
  obtain ⟨before, token, after, q, rfl, hbefore, hrefused⟩ := h
  refine ⟨before, token, after, q.inside items, rfl, acceptAll_inside hbefore items, ?_⟩
  rw [accept_inside, hrefused]
  · rfl
  · rintro rfl
    exact hopen before after q rfl hbefore

end Parser

inductive Waiting : List Token → (Value → Value) → Prop where
  | nil : Waiting [] id
  | mark {marks : List Token} {wrap : Value → Value} {mark : Mark} (h : Waiting marks wrap)
      (hmark : mark ≠ .metadata) :
      Waiting (marks ++ [.mark mark]) fun v => wrap (.ofList [.symbol mark.function, v])
  | metadata {marks : List Token} {wrap : Value → Value} {tree : FormTree} {m : Value}
      (h : Waiting marks wrap) (hm : tree.Means m) :
      Waiting (marks ++ .mark .metadata :: tree.tokens)
        fun v => wrap (.ofList [.symbol Mark.metadata.function, v, m])

theorem Waiting.exists_tree {wrap : Value → Value} (h : Waiting tokens wrap) {tree : FormTree}
    {v : Value} (hv : tree.Means v) :
    ∃ tree' : FormTree, tree'.tokens = tokens ++ tree.tokens ∧ tree'.Means (wrap v) := by
  induction h generalizing tree v with
  | nil => exact ⟨tree, rfl, hv⟩
  | @mark marks wrap mark _ hmark ih =>
    obtain ⟨tree', htokens, hmeans⟩ := ih (@FormTree.Means.marked mark hmark _ _ hv)
    exact ⟨tree', by rw [htokens, FormTree.tokens, List.append_assoc]; rfl, hmeans⟩
  | metadata _ hm ih =>
    obtain ⟨tree', htokens, hmeans⟩ := ih (.withMetadata hm hv)
    exact ⟨tree', by rw [htokens, FormTree.tokens, List.append_assoc]; rfl, hmeans⟩

/-- If one more form leaves nothing open, only marks have been waiting for it. -/
theorem PendingSpelt.waiting {pending : List OpenForm} (h : PendingSpelt pending tokens)
    {finished : List Value} {form : Value}
    (hdone : (Parser.deliver finished form pending).pending = []) :
    ∃ wrap, Waiting tokens wrap := by
  induction h generalizing form with
  | nil => exact ⟨id, .nil⟩
  | cons ho _ ih =>
    cases ho with
    | collection => cases hdone
    | metadata => cases hdone
    | call hmark =>
      obtain ⟨wrap, hwaiting⟩ := ih hdone
      exact ⟨_, hwaiting.mark hmark⟩
    | target hm =>
      obtain ⟨wrap, hwaiting⟩ := ih hdone
      exact ⟨_, hwaiting.metadata hm⟩

/-- A text of forms with marks after them, if any, that wait for one more form. -/
def Awaits (source : String) (forms : List Value) (wrap : Value → Value) : Prop :=
  (∀ token ∈ tokenize source, token.Admissible ∧ token.Closed) ∧
    ∃ trees marks, tokenize source = FormTree.tokensAll trees ++ marks ∧
      FormTree.MeanAll trees forms ∧ Waiting marks wrap

theorem awaits_of_readForms (h : readForms source = .ok forms) : Awaits source forms id := by
  obtain ⟨htokens, trees, htrees, hforms⟩ := readForms_eq_ok_iff.mp h
  exact ⟨htokens, trees, [], by rw [htrees, List.append_nil], hforms, .nil⟩

/-- The forms of a text in one sequence, with the `nil` after them as the form that it waits
for. -/
theorem Awaits.readForms_scriptText {wrap : Value → Value} (h : Awaits source forms wrap) :
    readForms (scriptText source) = .ok [.ofList (.symbol "do" :: (forms ++ [wrap .nil]))] := by
  obtain ⟨htokens, trees, marks, htrees, hforms, hwaiting⟩ := h
  have hclosed : ∀ token ∈ (endState source).finish, token.Closed := by
    rw [tokenize_eq_completed] at htokens
    exact fun token ht => (htokens token (List.mem_append_right _ ht)).2
  have htext := tokenize_scriptText hclosed
  obtain ⟨last, hlast, hmeans⟩ := hwaiting.exists_tree (.word "nil")
  have hdo : FormTree.MeanAll [.word "do"] [.symbol "do"] := .cons (.word "do") .nil
  refine readForms_eq_ok_iff.mpr ⟨?_, [.group .round (.word "do" :: (trees ++ [last]))], ?_, ?_⟩
  · have hword : ∀ text, wordClass text ≠ .number →
        (Token.word text).Admissible ∧ (Token.word text).Closed :=
      fun text hclass => ⟨fun h => absurd h hclass, trivial⟩
    rw [htext]
    simp only [List.forall_mem_cons, List.forall_mem_append]
    exact ⟨⟨trivial, trivial⟩, hword "do" (by decide), htokens, hword "nil" (by decide),
      ⟨trivial, trivial⟩, List.forall_mem_nil _⟩
  · rw [htext, FormTree.tokensAll_singleton, FormTree.tokens, FormTree.tokensAll,
      FormTree.tokensAll_append, FormTree.tokensAll_singleton, htrees, hlast]
    simp [FormTree.tokens]
  · exact .cons (FormTree.means_group_iff.mpr ⟨_, hdo.append (hforms.concat hmeans), rfl⟩) .nil

/-- A text that after some forms has a closing bracket for no opening one. -/
def ClosesTooMuch (source : String) : Prop :=
  ∃ trees forms rest, tokenize source = FormTree.tokensAll trees ++ .closing .round :: rest ∧
    FormTree.MeanAll trees forms

theorem Parser.taken_of_acceptAll {before after : List Token}
    (htokens : tokenize source = before ++ after) (h : Parser.initial.acceptAll before = .ok q) :
    q.Taken before := by
  have hlexed : ∀ token ∈ before, token.Lexed :=
    fun token ht => tokenize_lexed source token (htokens ▸ List.mem_append_left _ ht)
  have hadmissible := Parser.admissible_of_acceptAll hlexed h
  exact Parser.taken_acceptAll Parser.taken_initial (fun token ht => (hadmissible token ht).1) h

theorem pending_of_not_closesTooMuch (h : ¬ ClosesTooMuch source) {before after : List Token}
    (htokens : tokenize source = before ++ .closing .round :: after)
    (haccept : Parser.initial.acceptAll before = .ok q) : q.pending ≠ [] := by
  intro hdone
  obtain ⟨trees, rfl, hforms⟩ := (Parser.taken_of_acceptAll htokens haccept).trees hdone
  exact h ⟨trees, _, after, htokens, hforms⟩

/-- What is open around everything is still open unless it is closed. -/
theorem Parser.readAllFrom_inside_fault
    (hopen : (deliver q.finished .nil q.pending).pending ≠ []) (items : List Value) :
    ∃ f, (readAllFrom (q.inside items) [.word "nil", .closing .round]).outcome =
      .error (.fault f) := by
  have hword : Token.word "nil" = .closing .round → q.pending ≠ [] := nofun
  have hnil : (q.inside items).accept (.word "nil") =
      .ok ((deliver q.finished .nil q.pending).inside items) := by
    rw [accept_inside hword]
    rfl
  have hclosing : (Token.closing .round).Admissible := trivial
  cases haccept : (deliver q.finished .nil q.pending).accept (.closing .round) with
  | error e =>
    obtain ⟨f, rfl⟩ := accept_fault hclosing haccept
    have hrefuses : (q.inside items).Refuses [.word "nil", .closing .round] (.fault f) := by
      refine ⟨[.word "nil"], .closing .round, [], _, rfl, acceptAll_cons_of_accept hnil [], ?_⟩
      rw [accept_inside fun _ => hopen, haccept]
      rfl
    exact ⟨f, hrefuses.readAllFrom⟩
  | ok r =>
    have hall : (q.inside items).acceptAll [.word "nil", .closing .round] =
        .ok (r.inside items) := by
      have hlast : ((deliver q.finished .nil q.pending).inside items).accept (.closing .round) =
          .ok (r.inside items) := by
        rw [accept_inside fun _ => hopen, haccept]
        rfl
      rw [acceptAll_cons_of_accept hnil, acceptAll_cons_of_accept hlast]
      rfl
    exact ⟨_, readAllFrom_of_open hall (List.append_ne_nil_of_right_ne_nil _ nofun)⟩

/-- If all tokens of a text are taken, the form that comes after it leaves something open. -/
theorem pending_of_not_awaits (h : ¬ ∃ forms wrap, Awaits source forms wrap)
    (haccept : Parser.initial.acceptAll (tokenize source) = .ok q) :
    (Parser.deliver q.finished .nil q.pending).pending ≠ [] := by
  intro hdone
  have htokens := Parser.admissible_of_acceptAll (tokenize_lexed source) haccept
  obtain ⟨trees, marks, hforms, hpending, htrees⟩ :=
    Parser.taken_of_acceptAll (List.append_nil _).symm haccept
  obtain ⟨wrap, hwaiting⟩ := hpending.waiting hdone
  exact h ⟨_, wrap, htokens, trees, marks, htrees, hforms, hwaiting⟩

/-- Between brackets a text that cannot be read can still not be read, unless it closes too much
or waits for a form. -/
theorem readForms_scriptText_fault {f : Fault} (hread : readForms source = .error (.fault f))
    (hcloses : ¬ ClosesTooMuch source) (hawaits : ¬ ∃ forms wrap, Awaits source forms wrap) :
    ∃ f', readForms (scriptText source) = .error (.fault f') := by
  have hopening : ∀ rest, readAll (.opening .round :: .word "do" :: rest) =
      readAllFrom (Parser.initial.inside [.symbol "do"]) rest := fun rest => rfl
  -- a token that is refused in the text is refused between the brackets
  have hrefused : ∀ tokens rest e, tokenize source = tokens ++ rest →
      Parser.initial.Refuses tokens e →
      e = .fault f ∧ (Parser.initial.inside [.symbol "do"]).Refuses tokens e := by
    intro tokens rest e htokens hrefuses
    have hwhole := (hrefuses.append rest).readAllFrom
    rw [← htokens] at hwhole
    refine ⟨Except.error.inj (hwhole.symm.trans hread), hrefuses.inside ?_ _⟩
    rintro before after q rfl
    rw [List.append_assoc, List.cons_append] at htokens
    exact pending_of_not_closesTooMuch hcloses htokens
  by_cases hclosed : ∀ token ∈ (endState source).finish, token.Closed
  · rw [readForms, tokenize_scriptText hclosed, hopening]
    rcases Parser.initial.acceptAll_or_refuses (tokenize source) with ⟨q, hq⟩ | ⟨e, hrefuses⟩
    · rw [readAllFrom_append (Parser.acceptAll_inside hq _)]
      exact Parser.readAllFrom_inside_fault (pending_of_not_awaits hawaits hq) _
    · obtain ⟨rfl, hinside⟩ := hrefused _ [] e (List.append_nil _).symm hrefuses
      exact ⟨f, (hinside.append _).readAllFrom⟩
  -- the literal that is left open takes in the closing bracket
  · obtain ⟨text, htext, hvalue⟩ := tokenize_scriptText_unclosed hclosed
    rw [readForms, htext, hopening]
    rcases Parser.initial.acceptAll_or_refuses (completedTokens source) with
      ⟨q, hq⟩ | ⟨e, hrefuses⟩
    · have hliteral : (q.inside [.symbol "do"]).accept (.literal text) =
          .error (.fault (.reading .unclosedString)) := by
        rw [Parser.accept, hvalue]
        rfl
      have hinside : (Parser.initial.inside [.symbol "do"]).Refuses
          (completedTokens source ++ [.literal text]) (.fault (.reading .unclosedString)) :=
        ⟨_, _, [], _, rfl, Parser.acceptAll_inside hq _, hliteral⟩
      exact ⟨_, hinside.readAllFrom⟩
    · obtain ⟨rfl, hinside⟩ := hrefused _ _ e (tokenize_eq_completed source) hrefuses
      exact ⟨f, (hinside.append _).readAllFrom⟩

end SmallLisp

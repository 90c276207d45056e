import SmallLisp.Proofs.Grammar

/-! # Tokens that break off

If tokens hold forms, then the first ones of them hold the first of these forms, or they break off
inside of one. Reading says so in the second case and finds no other fault, since the parser takes
each of these tokens as before and only misses the ones after them.
-/
namespace SmallLisp

/-- A literal starts with a quote, which is how it is told from a word. -/
def Token.Quoted : Token → Prop
  | .literal text => text.toList.head? = some '"'
  | _ => True

instance : (token : Token) → Decidable token.Quoted
  | .literal text => inferInstanceAs (Decidable (text.toList.head? = some '"'))
  | .word _ => .isTrue trivial
  | .opening _ => .isTrue trivial
  | .closing _ => .isTrue trivial
  | .mark _ => .isTrue trivial

def ReadingFault.Incomplete (fault : ReadingFault) : Prop :=
  fault.message = "unexpected end of input" ∨ ∃ bracket : Bracket, fault.message =
    "unterminated form: expected '" ++ String.singleton bracket.closing ++ "', got EOF"

inductive CutReading (trees : List FormTree) (forms : List Value) (cut : List Token) : Prop where
  | whole (count : Nat) (hcut : cut = FormTree.tokensAll (trees.take count))
      (hread : (readAll cut).outcome = .ok (forms.take count))
  | incomplete {fault : ReadingFault}
      (hcut : ∀ count, cut ≠ FormTree.tokensAll (trees.take count))
      (hread : (readAll cut).outcome = .error (.fault (.reading fault)))
      (hfault : fault.Incomplete)

variable {trees : List FormTree} {forms : List Value} {tokens cut rest : List Token}

theorem Parser.admissible_of_quoted {p q : Parser} {token : Token} (hquoted : token.Quoted)
    (h : p.accept token = .ok q) : token.Admissible := by
  cases token with
  | word text => exact word_admissible_of_accept h
  | literal text => exact hquoted
  | _ => trivial

theorem Parser.admissible_of_all_quoted {p q : Parser}
    (hquoted : ∀ token ∈ tokens, token.Quoted) (h : p.acceptAll tokens = .ok q) :
    ∀ token ∈ tokens, token.Admissible := by
  induction tokens generalizing p with
  | nil => exact List.forall_mem_nil _
  | cons token tokens ih =>
    obtain ⟨htoken, hrest⟩ := List.forall_mem_cons.mp hquoted
    obtain ⟨r, hp, hothers⟩ := acceptAll_cons_eq_ok h
    exact List.forall_mem_cons.mpr ⟨admissible_of_quoted htoken hp, ih hrest hothers⟩

theorem FormTree.MeanAll.take (h : MeanAll trees forms) (count : Nat) :
    MeanAll (trees.take count) (forms.take count) := by
  induction count generalizing trees forms with
  | zero =>
    rw [List.take_zero, List.take_zero]
    exact .nil
  | succ count ih =>
    cases h with
    | nil => exact .nil
    | cons hfirst hothers => exact .cons hfirst (ih hothers)

theorem FormTree.take_of_tokensAll_append {first : List FormTree}
    (h : tokensAll first ++ rest = tokensAll trees) : first = trees.take first.length := by
  induction first generalizing trees with
  | nil => rw [List.length_nil, List.take_zero]
  | cons tree first ih =>
    rw [tokensAll, List.append_assoc] at h
    cases trees with
    | nil =>
      obtain ⟨token, others, htokens, _⟩ := tree.exists_first_token
      rw [htokens] at h
      cases h
    | cons tree' trees =>
      obtain ⟨rfl, hothers⟩ := tokens_append_inj h
      rw [List.length_cons, List.take_succ_cons, ← ih hothers]

/-- The first of the tokens that are accepted are accepted, since nothing behind them matters. -/
theorem Parser.acceptAll_of_append {p q : Parser} (h : p.acceptAll (cut ++ rest) = .ok q) :
    ∃ r, p.acceptAll cut = .ok r := by
  rcases p.acceptAll_or_refuses cut with haccepted | ⟨e, hrefuses⟩
  · exact haccepted
  · obtain ⟨before, token, after, r, rfl, hbefore, hrefused⟩ := hrefuses
    rw [List.append_assoc, acceptAll_append hbefore, List.cons_append, acceptAll, hrefused] at h
    cases h

theorem Parser.inputEnded_incomplete (p : Parser) : p.inputEnded.Incomplete := by
  unfold inputEnded
  split
  · next bracket _ _ _ => exact .inr ⟨bracket, rfl⟩
  · exact .inl rfl

/-- The first tokens of forms are those of the first forms, or reading them says that the input
ended inside of a form. -/
theorem readAll_take (hquoted : ∀ token ∈ tokens, token.Quoted)
    (h : (readAll tokens).outcome = .ok forms) :
    ∃ trees, FormTree.tokensAll trees = tokens ∧ FormTree.MeanAll trees forms ∧
      ∀ count, CutReading trees forms (tokens.take count) := by
  obtain ⟨q, haccept, _, _⟩ := readAllFrom_eq_ok_iff.mp h
  have hadmissible := Parser.admissible_of_all_quoted hquoted haccept
  obtain ⟨trees, htrees, hmean⟩ := readAll_derived hadmissible h
  refine ⟨trees, htrees, hmean, fun count => ?_⟩
  have hcut : ∀ token ∈ tokens.take count, token.Admissible :=
    fun token htoken => hadmissible token (List.mem_of_mem_take htoken)
  have hwhole : ∀ j, tokens.take count = FormTree.tokensAll (trees.take j) →
      (readAll (tokens.take count)).outcome = .ok (forms.take j) := by
    intro j hj
    rw [hj] at hcut ⊢
    rw [(hmean.take j).readAll hcut]
  rw [← List.take_append_drop count tokens] at haccept
  obtain ⟨r, hr⟩ := Parser.acceptAll_of_append haccept
  by_cases hopen : r.pending = []
  · -- what has been read is derived from trees of its own, which are the first of all trees
    have hread := readAllFrom_eq_ok_iff.mpr ⟨r, hr, hopen, rfl⟩
    obtain ⟨first, hfirst, _⟩ := readAll_derived hcut hread
    have htokens : FormTree.tokensAll first ++ tokens.drop count = FormTree.tokensAll trees := by
      rw [hfirst, List.take_append_drop, htrees]
    have hj : tokens.take count = FormTree.tokensAll (trees.take first.length) := by
      rw [← FormTree.take_of_tokensAll_append htokens, hfirst]
    exact .whole first.length hj (hwhole _ hj)
  · have hread := readAllFrom_of_open hr hopen
    refine .incomplete (fun j hj => ?_) hread r.inputEnded_incomplete
    rw [readAll] at hwhole
    rw [hwhole j hj] at hread
    cases hread

/-- The tokens of `{:k ^m ()} 'a`, cut anywhere. -/
theorem readAll_take_metadata :
    let tokens : List Token := [.opening .curly, .word ":k", .mark .metadata, .word "m",
      .opening .round, .closing .round, .closing .curly, .mark .quote, .word "a"]
    let tagged := Value.ofList [.symbol "with-meta", .ofList [], .symbol "m"]
    let forms : List Value :=
      [.ofEntries [(.keyword "k", tagged)], .ofList [.symbol "quote", .symbol "a"]]
    (∀ token ∈ tokens, token.Quoted) ∧ (readAll tokens).outcome = .ok forms ∧
      ∃ trees, FormTree.tokensAll trees = tokens ∧ FormTree.MeanAll trees forms ∧
        ∀ count, CutReading trees forms (tokens.take count) := by
  intro tokens tagged forms
  have hquoted : ∀ token ∈ tokens, token.Quoted := by decide
  have hread : (readAll tokens).outcome = .ok forms := by rfl
  exact ⟨hquoted, hread, readAll_take hquoted hread⟩

end SmallLisp

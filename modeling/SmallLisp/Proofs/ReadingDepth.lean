import SmallLisp.Proofs.Parsing
import SmallLisp.Reader.Depth

/-! # How many levels a text takes

A text is too deep for some levels just if a beginning of its tokens, all of them accepted, leaves
more forms open than that. For every text there are enough levels, and for any number of levels
there is a text that takes more.
-/
namespace SmallLisp

variable {levels : Nat} {p q : Parser} {tokens : List Token}

theorem Parser.goesBeyond_iff :
    p.goesBeyond levels tokens = true ↔
      ∃ first rest q, tokens = first ++ rest ∧ p.acceptAll first = .ok q ∧
        levels < q.pending.length := by
  induction tokens generalizing p with
  | nil =>
    rw [goesBeyond, decide_eq_true_iff]
    constructor
    · intro h
      exact ⟨[], [], p, rfl, rfl, h⟩
    · rintro ⟨first, rest, q, htokens, haccepted, h⟩
      obtain ⟨rfl, rfl⟩ := List.append_eq_nil_iff.mp htokens.symm
      cases haccepted
      exact h
  | cons token tokens ih =>
    rw [goesBeyond, Bool.or_eq_true, decide_eq_true_iff]
    constructor
    · rintro (h | h)
      · exact ⟨[], token :: tokens, p, rfl, rfl, h⟩
      · cases haccept : p.accept token with
        | error e =>
          rw [haccept] at h
          cases h
        | ok r =>
          rw [haccept] at h
          obtain ⟨first, rest, q, rfl, haccepted, h⟩ := ih.mp h
          refine ⟨token :: first, rest, q, rfl, ?_, h⟩
          rw [acceptAll_cons_of_accept haccept, haccepted]
    · rintro ⟨first, rest, q, htokens, haccepted, h⟩
      cases first with
      | nil =>
        cases haccepted
        exact .inl h
      | cons token' first =>
        obtain ⟨rfl, rfl⟩ := List.cons_eq_cons.mp htokens
        obtain ⟨r, haccept, hrest⟩ := acceptAll_cons_eq_ok haccepted
        rw [haccept]
        exact .inr (ih.mpr ⟨first, rest, q, rfl, hrest, h⟩)

theorem Parser.pending_deliver (finished : List Value) (form : Value) (pending : List OpenForm) :
    (deliver finished form pending).pending.length ≤ pending.length := by
  induction pending generalizing form with
  | nil => exact Nat.le_refl _
  | cons openForm pending ih =>
    have hmore : ∀ form, (deliver finished form pending).pending.length ≤ pending.length + 1 :=
      fun form => Nat.le_succ_of_le (ih form)
    cases openForm with
    | collection bracket items => exact Nat.le_refl _
    | call name => exact hmore _
    | metadata => exact Nat.le_refl _
    | target metadata => exact hmore _

theorem Parser.pending_map {x : Except ReadingError Value} {finished : List Value}
    {pending : List OpenForm} (h : x.map (fun form => deliver finished form pending) = .ok q) :
    q.pending.length ≤ pending.length := by
  cases x with
  | error e => cases h
  | ok form =>
    cases h
    exact pending_deliver finished form pending

/-- A token opens at most one form. -/
theorem Parser.pending_accept {token : Token} (h : p.accept token = .ok q) :
    q.pending.length ≤ p.pending.length + 1 := by
  cases token with
  | opening bracket =>
    cases h
    exact Nat.le_refl _
  | mark mark =>
    cases h
    exact Nat.le_refl _
  | closing bracket =>
    unfold accept at h
    dsimp only at h
    split at h
    · next bracket' items pending hpending =>
      split at h
      · have hle := pending_map h
        rw [hpending, List.length_cons]
        omega
      · cases h
    · cases h
  | literal text => exact Nat.le_succ_of_le (pending_map h)
  | word text => exact Nat.le_succ_of_le (pending_map h)

theorem Parser.pending_acceptAll (h : p.acceptAll tokens = .ok q) :
    q.pending.length ≤ p.pending.length + tokens.length := by
  induction tokens generalizing p with
  | nil =>
    cases h
    exact Nat.le_refl _
  | cons token tokens ih =>
    obtain ⟨r, haccept, hrest⟩ := acceptAll_cons_eq_ok h
    have hfirst := pending_accept haccept
    have hothers := ih hrest
    rw [List.length_cons]
    omega

theorem isTooDeep_eq_false {source : String} (h : (tokenize source).length ≤ levels) :
    isTooDeep levels source = false := by
  rw [Bool.eq_false_iff, isTooDeep]
  intro hdeep
  obtain ⟨first, rest, q, htokens, haccepted, hlevels⟩ := Parser.goesBeyond_iff.mp hdeep
  have hpending := Parser.pending_acceptAll haccepted
  have hinitial : Parser.initial.pending.length = 0 := rfl
  rw [htokens, List.length_append] at h
  omega

theorem tokenize_replicate (count : Nat) :
    tokenize (String.ofList (List.replicate count '(')) =
      List.replicate count (.opening .round) := by
  have hscan : LexerState.gap.scan (List.replicate count '(') =
      (List.replicate count (.opening .round), .gap) := by
    have hnext : LexerState.gap.next '(' = ([.opening .round], .gap) := rfl
    induction count with
    | zero => rfl
    | succ count ih =>
      rw [List.replicate_succ, List.replicate_succ, LexerState.scan, hnext, ih]
      rfl
  rw [tokenize_eq_scan, String.toList_ofList, hscan]
  exact List.append_nil _

theorem Parser.exists_acceptAll_replicate (p : Parser) (count : Nat) :
    ∃ q, p.acceptAll (List.replicate count (.opening .round)) = .ok q ∧
      q.pending.length = p.pending.length + count := by
  induction count generalizing p with
  | zero => exact ⟨p, rfl, rfl⟩
  | succ count ih =>
    obtain ⟨q, haccepted, hpending⟩ :=
      ih ⟨p.finished, .collection .round [] :: p.pending⟩
    refine ⟨q, haccepted, ?_⟩
    rw [hpending, List.length_cons]
    omega

theorem isTooDeep_replicate (levels : Nat) :
    isTooDeep levels (String.ofList (List.replicate (levels + 1) '(')) = true := by
  obtain ⟨q, haccepted, hpending⟩ :=
    Parser.exists_acceptAll_replicate .initial (levels + 1)
  rw [isTooDeep, tokenize_replicate, Parser.goesBeyond_iff]
  refine ⟨_, [], q, (List.append_nil _).symm, haccepted, ?_⟩
  have hinitial : Parser.initial.pending.length = 0 := rfl
  omega

end SmallLisp

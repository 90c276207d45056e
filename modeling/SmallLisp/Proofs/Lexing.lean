import SmallLisp.Reader.Lexer

/-! # Lexing a text piece by piece

The lexer is a machine, so a text is lexed by lexing its pieces one after the other. A piece that
ends between tokens or inside a word can be followed by any separator or bracket without a change
to its tokens.
-/
namespace SmallLisp

def LexerState.scan (state : LexerState) : List Char → List Token × LexerState
  | [] => ([], state)
  | c :: text =>
    let rest := (state.next c).2.scan text
    ((state.next c).1 ++ rest.1, rest.2)

theorem scan_append (state : LexerState) (a b : List Char) :
    state.scan (a ++ b) =
      ((state.scan a).1 ++ ((state.scan a).2.scan b).1, ((state.scan a).2.scan b).2) := by
  induction a generalizing state with
  | nil => rfl
  | cons c a ih => simp [LexerState.scan, ih]

theorem foldl_advance (lexer : Lexer) (text : List Char) :
    text.foldl Lexer.advance lexer =
      ⟨(lexer.state.scan text).1.reverse ++ lexer.emitted, (lexer.state.scan text).2⟩ := by
  induction text generalizing lexer with
  | nil => rfl
  | cons c text ih => simp [ih, Lexer.advance, LexerState.scan]

theorem tokenize_eq_scan (source : String) :
    tokenize source = (LexerState.gap.scan source.toList).1 ++
      (LexerState.gap.scan source.toList).2.finish := by
  simp [tokenize, foldl_advance, Lexer.initial, Lexer.tokens]

/-- The states in which a token may end without a closing sign of its own. -/
def LexerState.Open : LexerState → Prop
  | .gap => True
  | .word _ => True
  | _ => False

theorem next_of_endsWord {state : LexerState} (h : state.Open) {c : Char}
    (hc : endsWord c = true) :
    state.next c = (state.finish ++ (LexerState.start c).1, (LexerState.start c).2) := by
  cases state with
  | gap => rfl
  | word read => simp [LexerState.next, hc, LexerState.finish]
  | comment => exact h.elim
  | tilde => exact h.elim
  | literal read => exact h.elim
  | escape read => exact h.elim

/-- A text that holds these tokens wherever it starts between tokens and is followed by a
separator, a bracket or the end. -/
structure Spells (text : List Char) (tokens : List Token) : Prop where
  open_end : (LexerState.gap.scan text).2.Open
  tokens_eq : (LexerState.gap.scan text).1 ++ (LexerState.gap.scan text).2.finish = tokens

theorem Spells.tokenize {text : List Char} {tokens : List Token} (h : Spells text tokens) :
    tokenize (String.ofList text) = tokens := by
  rw [tokenize_eq_scan, String.toList_ofList]
  exact h.tokens_eq

theorem spells_nil : Spells [] [] := ⟨trivial, rfl⟩

/-- After a text that ends open, a character that ends words starts afresh. -/
theorem Spells.scan_cons {text : List Char} {tokens : List Token} (h : Spells text tokens)
    {c : Char} (hc : endsWord c = true) (rest : List Char) :
    LexerState.gap.scan (text ++ c :: rest) =
      (tokens ++ ((LexerState.start c).1 ++ ((LexerState.start c).2.scan rest).1),
        ((LexerState.start c).2.scan rest).2) := by
  rw [scan_append, LexerState.scan, next_of_endsWord h.open_end hc, ← h.tokens_eq]
  simp

/-- Separators put nothing between the tokens of their neighbours. -/
theorem Spells.separate {a b : List Char} {ta tb : List Token} (ha : Spells a ta)
    (hb : Spells b tb) {c : Char} (hc : Text.isBlank c = true ∨ c = ',') :
    Spells (a ++ c :: b) (ta ++ tb) := by
  have hends : endsWord c = true := by
    rcases hc with hc | rfl
    · simp [endsWord, hc]
    · rfl
  have hstart : LexerState.start c = ([], .gap) := by
    rcases hc with hc | rfl
    · simp [LexerState.start, hc]
    · rfl
  have hscan := ha.scan_cons hends b
  rw [hstart] at hscan
  constructor
  · rw [hscan]; exact hb.open_end
  · rw [hscan, ← hb.tokens_eq]; simp

theorem Spells.bracket {text : List Char} {tokens : List Token} (h : Spells text tokens)
    (bracket : Bracket) :
    Spells (bracket.opening :: text ++ [bracket.closing])
      (.opening bracket :: tokens ++ [.closing bracket]) := by
  have hopen : LexerState.gap.next bracket.opening = ([.opening bracket], .gap) := by
    cases bracket <;> rfl
  have hclose : LexerState.start bracket.closing = ([.closing bracket], .gap) := by
    cases bracket <;> rfl
  have hends : endsWord bracket.closing = true := by cases bracket <;> rfl
  have hscan := h.scan_cons hends []
  rw [hclose] at hscan
  have hall : LexerState.gap.scan (bracket.opening :: text ++ [bracket.closing]) =
      (.opening bracket :: tokens ++ [.closing bracket], .gap) := by
    rw [List.cons_append, LexerState.scan, hopen, hscan]
    rfl
  constructor
  · rw [hall]; trivial
  · rw [hall]; exact List.append_nil _

theorem scan_word (read : List Char) {text : List Char}
    (h : ∀ c ∈ text, endsWord c = false) :
    (LexerState.word read).scan text = ([], .word (text.reverse ++ read)) := by
  induction text generalizing read with
  | nil => rfl
  | cons c text ih =>
    have hc := h c List.mem_cons_self
    simp [LexerState.scan, LexerState.next, hc,
      ih (c :: read) fun d hd => h d (List.mem_cons_of_mem c hd)]

def isMark (c : Char) : Bool := c = '~' || c = '^' || c = '@'

theorem start_of_word {c : Char} (hc : endsWord c = false) (hm : isMark c = false) :
    LexerState.start c = ([], .word [c]) := by
  simp only [endsWord, List.mem_cons, List.not_mem_nil, or_false, Bool.or_eq_false_iff,
    decide_eq_false_iff_not, not_or] at hc
  obtain ⟨hblank, hcomma, hr, hr', hs, hs', hb, hb', hq, hd, hg, hsemi⟩ := hc
  simp only [isMark, Bool.or_eq_false_iff, decide_eq_false_iff_not] at hm
  obtain ⟨⟨htilde, hcaret⟩, hat⟩ := hm
  have hsolo : soloToken? c = none := by
    unfold soloToken?
    split <;> first | contradiction | rfl
  simp [LexerState.start, hblank, hcomma, htilde, hd, hsemi, hsolo]

theorem spells_word {c : Char} {text : List Char} (hm : isMark c = false)
    (h : ∀ d ∈ c :: text, endsWord d = false) :
    Spells (c :: text) [.word (String.ofList (c :: text))] := by
  have hall : LexerState.gap.scan (c :: text) = ([], .word (text.reverse ++ [c])) := by
    rw [LexerState.scan, LexerState.next, start_of_word (h c List.mem_cons_self) hm,
      scan_word [c] fun d hd => h d (List.mem_cons_of_mem c hd)]
    rfl
  constructor
  · rw [hall]; trivial
  · rw [hall]; simp [LexerState.finish, textOfReversed]

end SmallLisp

import Mathlib.Data.List.Forall2
import SmallLisp.Proofs.Lexing
import SmallLisp.Reader.Parser

/-! # Parsing a text piece by piece

A text denotes forms if its tokens hand exactly these forms to the parser, whatever is open at
that point. Texts that denote forms can be put side by side with separators between them, and
between brackets, so what a printed collection denotes follows from what its parts denote.
-/
namespace SmallLisp

namespace Parser

def acceptAll (parser : Parser) : List Token → Except ReadingError Parser
  | [] => .ok parser
  | token :: tokens => do
    let parser ← parser.accept token
    parser.acceptAll tokens

def deliverAll (parser : Parser) : List Value → Parser
  | [] => parser
  | form :: forms => (deliver parser.finished form parser.pending).deliverAll forms

theorem acceptAll_cons_of_accept {p q : Parser} {token : Token} (h : p.accept token = .ok q)
    (tokens : List Token) : p.acceptAll (token :: tokens) = q.acceptAll tokens := by
  rw [acceptAll, h]
  rfl

theorem acceptAll_cons_eq_ok {p q : Parser} {token : Token} {tokens : List Token}
    (h : p.acceptAll (token :: tokens) = .ok q) :
    ∃ r, p.accept token = .ok r ∧ r.acceptAll tokens = .ok q := by
  cases hp : p.accept token with
  | error e =>
    rw [acceptAll, hp] at h
    cases h
  | ok r =>
    rw [acceptAll_cons_of_accept hp] at h
    exact ⟨r, rfl, h⟩

theorem acceptAll_append {p q : Parser} {a : List Token} (h : p.acceptAll a = .ok q)
    (b : List Token) : p.acceptAll (a ++ b) = q.acceptAll b := by
  induction a generalizing p with
  | nil =>
    rw [acceptAll, Except.ok.injEq] at h
    rw [h, List.nil_append]
  | cons token a ih =>
    obtain ⟨r, hp, hrest⟩ := acceptAll_cons_eq_ok h
    rw [List.cons_append, acceptAll_cons_of_accept hp]
    exact ih hrest

theorem deliverAll_append (p : Parser) (a b : List Value) :
    p.deliverAll (a ++ b) = (p.deliverAll a).deliverAll b := by
  induction a generalizing p with
  | nil => rfl
  | cons form a ih => exact ih _

theorem deliverAll_of_no_pending (finished forms : List Value) :
    (Parser.mk finished []).deliverAll forms = ⟨forms.reverse ++ finished, []⟩ := by
  induction forms generalizing finished with
  | nil => rfl
  | cons form forms ih => simp [deliverAll, deliver, ih]

/-- An open collection takes all forms. -/
theorem deliverAll_of_collection (finished : List Value) (bracket : Bracket)
    (items : List Value) (pending : List OpenForm) (forms : List Value) :
    (Parser.mk finished (.collection bracket items :: pending)).deliverAll forms =
      ⟨finished, .collection bracket (forms.reverse ++ items) :: pending⟩ := by
  induction forms generalizing items with
  | nil => rfl
  | cons form forms ih => simp [deliverAll, deliver, ih]

end Parser

def Parser.Refuses (p : Parser) (tokens : List Token) (e : ReadingError) : Prop :=
  ∃ before token after q, tokens = before ++ token :: after ∧ p.acceptAll before = .ok q ∧
    q.accept token = .error e

theorem Parser.acceptAll_or_refuses (p : Parser) (tokens : List Token) :
    (∃ q, p.acceptAll tokens = .ok q) ∨ ∃ e, p.Refuses tokens e := by
  induction tokens generalizing p with
  | nil => exact .inl ⟨p, rfl⟩
  | cons token tokens ih =>
    cases haccept : p.accept token with
    | error e => exact .inr ⟨e, [], token, tokens, p, rfl, rfl, haccept⟩
    | ok r =>
      rcases ih r with ⟨q, hq⟩ | ⟨e, before, token', after, q, rfl, hbefore, hrefused⟩
      · exact .inl ⟨q, by rw [acceptAll_cons_of_accept haccept, hq]⟩
      · refine .inr ⟨e, token :: before, token', after, q, rfl, ?_, hrefused⟩
        rw [acceptAll_cons_of_accept haccept, hbefore]

theorem Parser.Refuses.append {p : Parser} {tokens : List Token} {e : ReadingError}
    (h : p.Refuses tokens e) (rest : List Token) : p.Refuses (tokens ++ rest) e := by
  obtain ⟨before, token, after, q, rfl, hbefore, hrefused⟩ := h
  exact ⟨before, token, after ++ rest, q, by simp, hbefore, hrefused⟩

theorem readAllFrom_append {p q : Parser} {tokens : List Token} (h : p.acceptAll tokens = .ok q)
    (rest : List Token) : readAllFrom p (tokens ++ rest) = readAllFrom q rest := by
  induction tokens generalizing p with
  | nil =>
    cases h
    rfl
  | cons token tokens ih =>
    obtain ⟨r, hp, hrest⟩ := Parser.acceptAll_cons_eq_ok h
    rw [List.cons_append, readAllFrom]
    simp only [hp]
    exact ih hrest

theorem readAllFrom_of_acceptAll {p : Parser} {forms : List Value} {tokens : List Token}
    (h : p.acceptAll tokens = .ok ⟨forms, []⟩) :
    readAllFrom p tokens = ⟨.ok forms.reverse, []⟩ := by
  have hread := readAllFrom_append h []
  rwa [List.append_nil] at hread

theorem readAllFrom_of_open {p q : Parser} {tokens : List Token} (h : p.acceptAll tokens = .ok q)
    (hopen : q.pending ≠ []) :
    (readAllFrom p tokens).outcome = .error (.fault (.reading q.inputEnded)) := by
  have hread := readAllFrom_append h []
  rw [List.append_nil] at hread
  rw [hread, readAllFrom]
  split
  · next hnone => exact absurd hnone hopen
  · rfl

theorem Parser.Refuses.readAllFrom {p : Parser} {tokens : List Token} {e : ReadingError}
    (h : p.Refuses tokens e) : (SmallLisp.readAllFrom p tokens).outcome = .error e := by
  obtain ⟨before, token, after, q, rfl, hbefore, hrefused⟩ := h
  rw [readAllFrom_append hbefore, SmallLisp.readAllFrom]
  simp only [hrefused]

/-- Reading ends with forms exactly if all tokens are taken and nothing is open after them. -/
theorem readAllFrom_eq_ok_iff {p : Parser} {tokens : List Token} {forms : List Value} :
    (readAllFrom p tokens).outcome = .ok forms ↔
      ∃ q, p.acceptAll tokens = .ok q ∧ q.pending = [] ∧ forms = q.finished.reverse := by
  constructor
  · intro h
    rcases p.acceptAll_or_refuses tokens with ⟨⟨finished, pending⟩, hq⟩ | ⟨e, hrefuses⟩
    · by_cases hopen : pending = []
      · subst hopen
        rw [readAllFrom_of_acceptAll hq] at h
        exact ⟨_, hq, rfl, (Except.ok.inj h).symm⟩
      · rw [readAllFrom_of_open hq hopen] at h
        cases h
    · rw [hrefuses.readAllFrom] at h
      cases h
  · rintro ⟨⟨finished, pending⟩, hq, rfl, rfl⟩
    rw [readAllFrom_of_acceptAll hq]

/-- A text whose tokens hand these forms to any parser. -/
def Denotes (text : List Char) (forms : List Value) : Prop :=
  ∃ tokens, Spells text tokens ∧ ∀ p : Parser, p.acceptAll tokens = .ok (p.deliverAll forms)

theorem denotes_nil : Denotes [] [] := ⟨[], spells_nil, fun _ => rfl⟩

theorem Denotes.readForms {text : List Char} {forms : List Value} (h : Denotes text forms) :
    readForms (String.ofList text) = .ok forms := by
  obtain ⟨tokens, hspells, haccepts⟩ := h
  have hall := haccepts .initial
  rw [Parser.initial, Parser.deliverAll_of_no_pending, List.append_nil] at hall
  rw [SmallLisp.readForms, hspells.tokenize, readAll, Parser.initial,
    readAllFrom_of_acceptAll hall, List.reverse_reverse]

theorem Denotes.separate {a b : List Char} {vs ws : List Value} (ha : Denotes a vs)
    (hb : Denotes b ws) {c : Char} (hc : Text.isBlank c = true ∨ c = ',') :
    Denotes (a ++ c :: b) (vs ++ ws) := by
  obtain ⟨ta, hsa, hta⟩ := ha
  obtain ⟨tb, hsb, htb⟩ := hb
  refine ⟨ta ++ tb, hsa.separate hsb hc, fun p => ?_⟩
  rw [Parser.acceptAll_append (hta p), htb, Parser.deliverAll_append]

/-- A separator of any length between two texts. -/
theorem Denotes.separateBy {a b separator : List Char} {vs ws : List Value} (ha : Denotes a vs)
    (hb : Denotes b ws) (hne : separator ≠ [])
    (hs : ∀ c ∈ separator, Text.isBlank c = true ∨ c = ',') :
    Denotes (a ++ separator ++ b) (vs ++ ws) := by
  induction separator generalizing a vs with
  | nil => exact absurd rfl hne
  | cons c separator ih =>
    have hc := hs c List.mem_cons_self
    by_cases hlast : separator = []
    · subst hlast
      simpa using ha.separate hb hc
    · have hrest := ih denotes_nil hlast fun d hd => hs d (List.mem_cons_of_mem c hd)
      simpa using ha.separate hrest hc

/-- Texts that denote forms, joined by a separator, denote all these forms in order. -/
theorem denotes_intercalate {separator : List Char} (hne : separator ≠ [])
    (hs : ∀ c ∈ separator, Text.isBlank c = true ∨ c = ',') {parts : List (List Char)}
    {formss : List (List Value)} (h : List.Forall₂ Denotes parts formss) :
    Denotes (separator.intercalate parts) formss.flatten := by
  induction h with
  | nil => exact denotes_nil
  | cons hpart hparts ih =>
    cases hparts with
    | nil => simpa [List.intercalate] using hpart
    | cons hnext hrest =>
      rw [List.intercalate_cons_cons, List.flatten_cons]
      exact hpart.separateBy ih hne hs

/-- Brackets around tokens that hand items to any parser hand it the collection of the items. -/
theorem Parser.acceptAll_bracket {tokens : List Token} {items : List Value}
    (h : ∀ p : Parser, p.acceptAll tokens = .ok (p.deliverAll items)) {bracket : Bracket}
    {form : Value} (hform : Parser.collect bracket items = .ok form) (p : Parser) :
    p.acceptAll (.opening bracket :: (tokens ++ [.closing bracket])) =
      .ok (Parser.deliver p.finished form p.pending) := by
  -- the opening bracket opens a collection, which takes the items and is closed by the last token
  have hopen : p.accept (.opening bracket) =
      .ok ⟨p.finished, .collection bracket [] :: p.pending⟩ := rfl
  have hclose : (Parser.mk p.finished (.collection bracket items.reverse :: p.pending)).accept
      (.closing bracket) = .ok (Parser.deliver p.finished form p.pending) := by
    simp only [Parser.accept, if_pos, List.reverse_reverse, hform]
    rfl
  have hinside := h ⟨p.finished, .collection bracket [] :: p.pending⟩
  rw [Parser.deliverAll_of_collection, List.append_nil] at hinside
  rw [Parser.acceptAll_cons_of_accept hopen, Parser.acceptAll_append hinside,
    Parser.acceptAll_cons_of_accept hclose]
  rfl

/-- A text between brackets denotes the collection of the forms it denotes by itself. -/
theorem Denotes.bracket {text : List Char} {items : List Value} (h : Denotes text items)
    (bracket : Bracket) {form : Value} (hform : Parser.collect bracket items = .ok form) :
    Denotes (bracket.opening :: text ++ [bracket.closing]) [form] := by
  obtain ⟨tokens, hspells, haccepts⟩ := h
  exact ⟨_, hspells.bracket bracket, Parser.acceptAll_bracket haccepts hform⟩

theorem denotes_of_wordValue {text : List Char} {form : Value}
    (hspells : Spells text [.word (String.ofList text)])
    (hform : Parser.wordValue (String.ofList text) = .ok form) : Denotes text [form] := by
  refine ⟨_, hspells, fun p => ?_⟩
  have haccept : p.accept (.word (String.ofList text)) =
      .ok (Parser.deliver p.finished form p.pending) := by
    rw [Parser.accept, hform]
    rfl
  rw [Parser.acceptAll_cons_of_accept haccept]
  rfl

theorem denotes_of_literalValue {text : List Char} {form : Value}
    (hspells : Spells text [.literal (String.ofList text)])
    (hform : Parser.literalValue (String.ofList text) = .ok form) : Denotes text [form] := by
  refine ⟨_, hspells, fun p => ?_⟩
  have haccept : p.accept (.literal (String.ofList text)) =
      .ok (Parser.deliver p.finished form p.pending) := by
    rw [Parser.accept, hform]
    rfl
  rw [Parser.acceptAll_cons_of_accept haccept]
  rfl

end SmallLisp

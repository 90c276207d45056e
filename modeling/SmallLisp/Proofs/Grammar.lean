import SmallLisp.Proofs.Parsing
import SmallLisp.Proofs.TableKeys
import SmallLisp.Proofs.Tokenizing

/-! # The grammar of forms

Tokens are read as forms exactly if they spell trees that have a meaning. The trees are then the
only ones that these tokens spell, and the forms are what the trees mean. All other tokens are
refused with a fault.
-/
namespace SmallLisp

inductive FormTree where
  | word (text : String)
  | literal (text : String)
  | group (bracket : Bracket) (parts : List FormTree)
  | marked (mark : Mark) (hmark : mark ≠ .metadata) (operand : FormTree)
  | withMetadata (metadata target : FormTree)

namespace FormTree

mutual

def tokens : FormTree → List Token
  | .word text => [.word text]
  | .literal text => [.literal text]
  | .group bracket parts => .opening bracket :: (tokensAll parts ++ [.closing bracket])
  | .marked mark _ operand => .mark mark :: tokens operand
  | .withMetadata metadata target => .mark .metadata :: (tokens metadata ++ tokens target)
termination_by structural x => x

def tokensAll : List FormTree → List Token
  | [] => []
  | tree :: trees => tokens tree ++ tokensAll trees
termination_by structural x => x

end

theorem tokensAll_append (trees trees' : List FormTree) :
    tokensAll (trees ++ trees') = tokensAll trees ++ tokensAll trees' := by
  induction trees with
  | nil => rfl
  | cons tree trees ih => rw [List.cons_append, tokensAll, tokensAll, ih, List.append_assoc]

theorem tokensAll_singleton (tree : FormTree) : tokensAll [tree] = tree.tokens := by
  rw [tokensAll, tokensAll, List.append_nil]

theorem exists_first_token (tree : FormTree) :
    ∃ token rest, tree.tokens = token :: rest ∧ ∀ bracket, token ≠ .closing bracket := by
  cases tree with
  | word text => exact ⟨_, _, rfl, nofun⟩
  | literal text => exact ⟨_, _, rfl, nofun⟩
  | group bracket parts => exact ⟨_, _, rfl, nofun⟩
  | marked mark hmark operand => exact ⟨_, _, rfl, nofun⟩
  | withMetadata metadata target => exact ⟨_, _, rfl, nofun⟩

theorem tokens_ne_closing (tree : FormTree) (bracket : Bracket) (rest rest' : List Token) :
    tree.tokens ++ rest ≠ .closing bracket :: rest' := by
  obtain ⟨token, tokens, htokens, hopen⟩ := tree.exists_first_token
  rw [htokens]
  intro h
  exact hopen bracket (List.cons.inj h).1

mutual

/-- Where a tree ends is known from its tokens, whatever follows. -/
theorem tokens_append_inj {tree tree' : FormTree} {rest rest' : List Token}
    (h : tree.tokens ++ rest = tree'.tokens ++ rest') : tree = tree' ∧ rest = rest' := by
  match tree, tree' with
  | .word text, .word text' =>
    cases h
    exact ⟨rfl, rfl⟩
  | .literal text, .literal text' =>
    cases h
    exact ⟨rfl, rfl⟩
  | .group bracket parts, .group bracket' parts' =>
    simp only [tokens, List.cons_append, List.append_assoc, List.nil_append, List.cons.injEq,
      Token.opening.injEq] at h
    obtain ⟨rfl, hinside⟩ := h
    obtain ⟨rfl, hrest⟩ := tokensAll_append_inj hinside
    exact ⟨rfl, hrest⟩
  | .marked mark hmark operand, .marked mark' hmark' operand' =>
    simp only [tokens, List.cons_append, List.cons.injEq, Token.mark.injEq] at h
    obtain ⟨rfl, hoperand⟩ := h
    obtain ⟨rfl, hrest⟩ := tokens_append_inj hoperand
    exact ⟨rfl, hrest⟩
  | .withMetadata metadata target, .withMetadata metadata' target' =>
    simp only [tokens, List.cons_append, List.append_assoc, List.cons.injEq, true_and] at h
    obtain ⟨rfl, htarget⟩ := tokens_append_inj h
    obtain ⟨rfl, hrest⟩ := tokens_append_inj htarget
    exact ⟨rfl, hrest⟩
  | .marked mark hmark operand, .withMetadata metadata' target' =>
    simp only [tokens, List.cons_append, List.cons.injEq, Token.mark.injEq] at h
    exact absurd h.1 hmark
  | .withMetadata metadata target, .marked mark' hmark' operand' =>
    simp only [tokens, List.cons_append, List.cons.injEq, Token.mark.injEq] at h
    exact absurd h.1.symm hmark'
termination_by structural tree

/-- The trees between brackets end at the first bracket that closes none of them. -/
theorem tokensAll_append_inj {trees trees' : List FormTree} {bracket bracket' : Bracket}
    {rest rest' : List Token}
    (h : tokensAll trees ++ .closing bracket :: rest =
      tokensAll trees' ++ .closing bracket' :: rest') : trees = trees' ∧ rest = rest' := by
  match trees, trees' with
  | [], [] =>
    cases h
    exact ⟨rfl, rfl⟩
  | [], tree' :: trees' =>
    rw [tokensAll, tokensAll, List.append_assoc] at h
    exact absurd h.symm (tree'.tokens_ne_closing bracket _ _)
  | tree :: trees, [] =>
    rw [tokensAll, tokensAll, List.append_assoc] at h
    exact absurd h (tree.tokens_ne_closing bracket' _ _)
  | tree :: trees, tree' :: trees' =>
    rw [tokensAll, tokensAll, List.append_assoc, List.append_assoc] at h
    obtain ⟨rfl, htrees⟩ := tokens_append_inj h
    obtain ⟨rfl, hrest⟩ := tokensAll_append_inj htrees
    exact ⟨rfl, hrest⟩
termination_by structural trees

end

theorem tokensAll_inj {trees trees' : List FormTree} (h : tokensAll trees = tokensAll trees') :
    trees = trees' := by
  -- a closing bracket after both is the end of both
  have hclosed : tokensAll trees ++ [.closing .round] = tokensAll trees' ++ [.closing .round] := by
    rw [h]
  exact (tokensAll_append_inj hclosed).1

end FormTree

/-! ## Meanings -/

def wordMeaning (text : String) : Value :=
  match wordClass text with
  | .nil => .nil
  | .true => .bool true
  | .false => .bool false
  | .number => .int (Text.numeralValue text.toList)
  | .name =>
    match text.toList with
    | ':' :: name => .keyword (String.ofList name)
    | _ => .symbol text

def Mark.function : Mark → String
  | quote => "quote"
  | quasiquote => "quasiquote"
  | unquote => "unquote"
  | spliceUnquote => "splice-unquote"
  | deref => "deref"
  | metadata => "with-meta"

def Entries.ofPairs (pairs : List (Value × Value)) : Entries :=
  pairs.foldl (fun entries pair => entries.insert pair.1 pair.2) []

namespace FormTree

mutual

inductive Means : FormTree → Value → Prop where
  | word (text : String) : Means (.word text) (wordMeaning text)
  | literal {text : String} {body : List Char} (htext : text.toList = '"' :: (body ++ ['"']))
      (hbody : LiteralBody body) : Means (.literal text) (.str (String.ofList (unescape body)))
  | list {parts : List FormTree} {items : List Value} (h : MeanAll parts items) :
      Means (.group .round parts) (.ofList items)
  | vector {parts : List FormTree} {items : List Value} (h : MeanAll parts items) :
      Means (.group .square parts) (.ofVector items)
  | table {parts : List FormTree} {items : List Value} (h : MeanAll parts items)
      (heven : items.length % 2 = 0) (hkeys : ∀ e ∈ Entries.pairUp items, e.1.isKey = true) :
      Means (.group .curly parts) (.ofEntries (Entries.ofPairs (Entries.pairUp items)))
  | marked {mark : Mark} {hmark : mark ≠ .metadata} {operand : FormTree} {v : Value}
      (h : Means operand v) :
      Means (.marked mark hmark operand) (.ofList [.symbol mark.function, v])
  | withMetadata {metadata target : FormTree} {m v : Value} (hmetadata : Means metadata m)
      (htarget : Means target v) : Means (.withMetadata metadata target)
        (.ofList [.symbol Mark.metadata.function, v, m])

inductive MeanAll : List FormTree → List Value → Prop where
  | nil : MeanAll [] []
  | cons {tree : FormTree} {trees : List FormTree} {v : Value} {vs : List Value}
      (h : Means tree v) (hs : MeanAll trees vs) : MeanAll (tree :: trees) (v :: vs)

end

theorem MeanAll.append {trees trees' : List FormTree} {vs vs' : List Value}
    (h : MeanAll trees vs) (h' : MeanAll trees' vs') : MeanAll (trees ++ trees') (vs ++ vs') := by
  induction trees generalizing vs with
  | nil =>
    cases h
    exact h'
  | cons tree trees ih =>
    cases h with
    | cons h hs => exact .cons h (ih hs)

theorem MeanAll.concat {trees : List FormTree} {tree : FormTree} {vs : List Value} {v : Value}
    (hs : MeanAll trees vs) (h : Means tree v) : MeanAll (trees ++ [tree]) (vs ++ [v]) :=
  hs.append (.cons h .nil)

end FormTree

/-- What is known of a token by its class: a literal starts with its quote, and a numeral is
within the limit. -/
def Token.Admissible : Token → Prop
  | .word text => wordClass text = .number → Text.numeralLength text.toList ≤ Text.digitLimit
  | .literal text => text.toList.head? = some '"'
  | _ => True

instance : (token : Token) → Decidable token.Admissible
  | .word text =>
    inferInstanceAs (Decidable (wordClass text = .number →
      Text.numeralLength text.toList ≤ Text.digitLimit))
  | .literal text => inferInstanceAs (Decidable (text.toList.head? = some '"'))
  | .opening _ => .isTrue trivial
  | .closing _ => .isTrue trivial
  | .mark _ => .isTrue trivial

theorem wordValue_of_admissible {text : String} (h : (Token.word text).Admissible) :
    Parser.wordValue text = .ok (wordMeaning text) := by
  unfold Parser.wordValue wordMeaning
  cases hclass : wordClass text with
  | number => exact if_pos (h hclass)
  | name =>
    dsimp only
    rcases text.toList with _ | ⟨c, name⟩
    · rfl
    · by_cases hc : c = ':'
      · subst hc
        rfl
      · simp [hc]
  | _ => rfl

theorem literalValue_iff {text : String} (h : (Token.literal text).Admissible) {v : Value} :
    Parser.literalValue text = .ok v ↔ (FormTree.literal text).Means v := by
  obtain ⟨rest, htext⟩ : ∃ rest, text.toList = '"' :: rest := List.head?_eq_some_iff.mp h
  constructor
  · intro hvalue
    rw [Parser.literalValue, htext] at hvalue
    cases hbody : literalBody? rest with
    | none =>
      simp only [List.drop_succ_cons, List.drop_zero, hbody] at hvalue
      cases hvalue
    | some body =>
      simp only [List.drop_succ_cons, List.drop_zero, hbody] at hvalue
      cases hvalue
      obtain ⟨rfl, hliteral⟩ := literalBody_eq_some_iff.mp hbody
      exact .literal htext hliteral
  · rintro (_ | ⟨htext', hbody⟩)
    rw [Parser.literalValue, htext', List.drop_succ_cons, List.drop_zero,
      literalBody_eq_some_iff.mpr ⟨rfl, hbody⟩]

theorem Entries.insertAll_eq_ok_iff {entries pairs written : Entries} :
    Entries.insertAll entries pairs = .ok written ↔ (∀ e ∈ pairs, e.1.isKey = true) ∧
      written = pairs.foldl (fun entries pair => entries.insert pair.1 pair.2) entries := by
  induction pairs generalizing entries with
  | nil =>
    simp only [Entries.insertAll, Except.ok.injEq, List.foldl_nil, List.not_mem_nil, false_implies,
      implies_true, true_and]
    exact eq_comm
  | cons pair pairs ih =>
    rw [Entries.insertAll, List.foldl_cons, List.forall_mem_cons]
    split
    · next hkey => rw [ih, and_iff_right hkey]
    · next hkey => exact iff_of_false (by simp) fun h => hkey h.1.1

theorem tableOfItems_eq_ok_iff {items : List Value} {v : Value} :
    Parser.tableOfItems items = .ok v ↔ items.length % 2 = 0 ∧
      (∀ e ∈ Entries.pairUp items, e.1.isKey = true) ∧
      v = .ofEntries (Entries.ofPairs (Entries.pairUp items)) := by
  unfold Parser.tableOfItems
  split
  · next heven =>
    rw [and_iff_right heven, writeEntries, Entries.insertMany_eq_insertAll, Entries.ofPairs]
    cases hwritten : Entries.insertAll [] (Entries.pairUp items) with
    | ok written =>
      obtain ⟨hkeys, rfl⟩ := Entries.insertAll_eq_ok_iff.mp hwritten
      rw [and_iff_right hkeys]
      exact ⟨fun h => (Except.ok.inj h).symm, fun h => congrArg Except.ok h.symm⟩
    | error key =>
      refine ⟨nofun, fun ⟨hkeys, _⟩ => ?_⟩
      rw [Entries.insertAll_eq_ok_iff.mpr ⟨hkeys, rfl⟩] at hwritten
      cases hwritten
  · next hodd => exact ⟨nofun, fun h => absurd h.1 hodd⟩

namespace FormTree

/-- A tree between brackets is a form if its parts are and their values can be collected. -/
theorem means_group_iff {bracket : Bracket} {parts : List FormTree} {v : Value} :
    Means (.group bracket parts) v ↔
      ∃ items, MeanAll parts items ∧ Parser.collect bracket items = .ok v := by
  constructor
  · intro h
    cases h with
    | list h => exact ⟨_, h, rfl⟩
    | vector h => exact ⟨_, h, rfl⟩
    | table h heven hkeys =>
      refine ⟨_, h, ?_⟩
      rw [Parser.collect, tableOfItems_eq_ok_iff.mpr ⟨heven, hkeys, rfl⟩]
      rfl
  · rintro ⟨items, h, hv⟩
    cases bracket with
    | round =>
      cases hv
      exact .list h
    | square =>
      cases hv
      exact .vector h
    | curly =>
      rw [Parser.collect] at hv
      cases htable : Parser.tableOfItems items with
      | error f =>
        rw [htable] at hv
        cases hv
      | ok table =>
        rw [htable] at hv
        cases hv
        obtain ⟨heven, hkeys, rfl⟩ := tableOfItems_eq_ok_iff.mp htable
        exact .table h heven hkeys

theorem ofMark_of_ne {mark : Mark} (hmark : mark ≠ .metadata) :
    Parser.ofMark mark = .call mark.function := by
  cases mark with
  | metadata => exact absurd rfl hmark
  | _ => rfl

mutual

theorem Means.acceptAll_tokens {tree : FormTree} {v : Value} (h : tree.Means v)
    (htokens : ∀ token ∈ tree.tokens, token.Admissible) (p : Parser) :
    p.acceptAll tree.tokens = .ok (Parser.deliver p.finished v p.pending) := by
  match tree, h with
  | .word text, .word _ =>
    have hvalue := wordValue_of_admissible (htokens _ List.mem_cons_self)
    have haccept : p.accept (.word text) =
        .ok (Parser.deliver p.finished (wordMeaning text) p.pending) := by
      rw [Parser.accept, hvalue]
      rfl
    rw [tokens, Parser.acceptAll_cons_of_accept haccept]
    rfl
  | .literal text, h =>
    have hvalue := (literalValue_iff (htokens _ List.mem_cons_self)).mpr h
    have haccept : p.accept (.literal text) =
        .ok (Parser.deliver p.finished v p.pending) := by
      rw [Parser.accept, hvalue]
      rfl
    rw [tokens, Parser.acceptAll_cons_of_accept haccept]
    rfl
  | .group bracket parts, h =>
    obtain ⟨items, hparts, hcollect⟩ := means_group_iff.mp h
    rw [tokens] at htokens ⊢
    refine Parser.acceptAll_bracket (hparts.acceptAll_tokens fun token ht => ?_) hcollect p
    exact htokens token (List.mem_cons_of_mem _ (List.mem_append_left _ ht))
  | .marked mark hmark operand, .marked hoperand =>
    rw [tokens] at htokens ⊢
    have haccept : p.accept (.mark mark) =
        .ok ⟨p.finished, .call mark.function :: p.pending⟩ := by
      rw [Parser.accept, ofMark_of_ne hmark]
    rw [Parser.acceptAll_cons_of_accept haccept, hoperand.acceptAll_tokens
      (fun token ht => htokens token (List.mem_cons_of_mem _ ht))]
    rfl
  | .withMetadata metadata target, .withMetadata hmetadata htarget =>
    rw [tokens] at htokens ⊢
    have haccept : p.accept (.mark .metadata) = .ok ⟨p.finished, .metadata :: p.pending⟩ := rfl
    have hfirst := hmetadata.acceptAll_tokens
      (fun token ht => htokens token (List.mem_cons_of_mem _ (List.mem_append_left _ ht)))
      ⟨p.finished, .metadata :: p.pending⟩
    rw [Parser.acceptAll_cons_of_accept haccept, Parser.acceptAll_append hfirst,
      htarget.acceptAll_tokens
        (fun token ht => htokens token (List.mem_cons_of_mem _ (List.mem_append_right _ ht)))]
    rfl
termination_by structural tree

theorem MeanAll.acceptAll_tokens {trees : List FormTree} {vs : List Value}
    (h : MeanAll trees vs) (htokens : ∀ token ∈ tokensAll trees, token.Admissible) (p : Parser) :
    p.acceptAll (tokensAll trees) = .ok (p.deliverAll vs) := by
  match trees, h with
  | [], .nil => rfl
  | tree :: trees, .cons hfirst hothers =>
    rw [tokensAll] at htokens ⊢
    rw [Parser.acceptAll_append (hfirst.acceptAll_tokens
        (fun token ht => htokens token (List.mem_append_left _ ht)) p),
      hothers.acceptAll_tokens (fun token ht => htokens token (List.mem_append_right _ ht))]
    rfl
termination_by structural trees

end

end FormTree

/-! ## What a parser has taken -/

inductive OpenForm.Spelt : OpenForm → List Token → Prop where
  | collection {bracket : Bracket} {items : List Value} {parts : List FormTree}
      (h : FormTree.MeanAll parts items.reverse) :
      Spelt (.collection bracket items) (.opening bracket :: FormTree.tokensAll parts)
  | call {mark : Mark} (hmark : mark ≠ .metadata) : Spelt (.call mark.function) [.mark mark]
  | metadata : Spelt .metadata [.mark .metadata]
  | target {tree : FormTree} {m : Value} (h : tree.Means m) :
      Spelt (.target m) (.mark .metadata :: tree.tokens)

inductive PendingSpelt : List OpenForm → List Token → Prop where
  | nil : PendingSpelt [] []
  | cons {o : OpenForm} {pending : List OpenForm} {tokens tokens' : List Token}
      (ho : o.Spelt tokens') (h : PendingSpelt pending tokens) :
      PendingSpelt (o :: pending) (tokens ++ tokens')

/-- The parser has taken these tokens: those of the finished forms, then those of the open ones. -/
def Parser.Taken (p : Parser) (tokens : List Token) : Prop :=
  ∃ trees rest, FormTree.MeanAll trees p.finished.reverse ∧ PendingSpelt p.pending rest ∧
    tokens = FormTree.tokensAll trees ++ rest

namespace Parser

theorem taken_initial : Parser.initial.Taken [] := ⟨[], [], .nil, .nil, rfl⟩

theorem taken_deliver {finished : List Value} {trees : List FormTree} {tree : FormTree}
    {form : Value} {pending : List OpenForm} {rest : List Token}
    (hfinished : FormTree.MeanAll trees finished.reverse) (hform : tree.Means form)
    (hpending : PendingSpelt pending rest) :
    (deliver finished form pending).Taken (FormTree.tokensAll trees ++ (rest ++ tree.tokens)) := by
  induction hpending generalizing tree form with
  | nil =>
    refine ⟨trees ++ [tree], [], ?_, .nil, ?_⟩
    · rw [deliver, List.reverse_cons]
      exact hfinished.concat hform
    · rw [FormTree.tokensAll_append, FormTree.tokensAll_singleton, List.nil_append,
        List.append_nil]
  | @cons o pending tokens tokens' ho hpending ih =>
    cases ho with
    | @collection bracket items parts h =>
      have hparts : FormTree.MeanAll (parts ++ [tree]) (form :: items).reverse := by
        rw [List.reverse_cons]
        exact h.concat hform
      refine ⟨trees, _, hfinished, .cons (.collection hparts) hpending, ?_⟩
      · rw [FormTree.tokensAll_append, FormTree.tokensAll_singleton, List.append_assoc,
          List.cons_append]
    | @call mark hmark =>
      have hcall := ih (@FormTree.Means.marked mark hmark _ _ hform)
      rw [FormTree.tokens] at hcall
      rw [List.append_assoc]
      exact hcall
    | metadata =>
      exact ⟨trees, _, hfinished, .cons (.target hform) hpending, by rw [List.append_assoc]; rfl⟩
    | @target first m h =>
      have hcall := ih (FormTree.Means.withMetadata h hform)
      rw [FormTree.tokens] at hcall
      rw [List.append_assoc]
      exact hcall

theorem accept_literal {p q : Parser} {text : String} (h : p.accept (.literal text) = .ok q) :
    ∃ form, literalValue text = .ok form ∧ q = deliver p.finished form p.pending := by
  rw [accept] at h
  cases hvalue : literalValue text with
  | error e =>
    rw [hvalue] at h
    cases h
  | ok form =>
    rw [hvalue] at h
    cases h
    exact ⟨form, rfl, rfl⟩

theorem accept_closing {p q : Parser} {bracket : Bracket}
    (h : p.accept (.closing bracket) = .ok q) :
    ∃ items pending form, p.pending = .collection bracket items :: pending ∧
      collect bracket items.reverse = .ok form ∧ q = deliver p.finished form pending := by
  rw [accept] at h
  split at h
  · next bracket' items pending hopen =>
    split at h
    · next hbracket =>
      subst hbracket
      cases hvalue : collect bracket items.reverse with
      | error e =>
        rw [hvalue] at h
        cases h
      | ok form =>
        rw [hvalue] at h
        cases h
        exact ⟨items, pending, form, hopen, hvalue, rfl⟩
    · cases h
  · cases h

theorem taken_accept {p q : Parser} {tokens : List Token} {token : Token} (h : p.Taken tokens)
    (htoken : token.Admissible) (haccept : p.accept token = .ok q) :
    q.Taken (tokens ++ [token]) := by
  obtain ⟨trees, rest, hfinished, hpending, rfl⟩ := h
  rw [List.append_assoc]
  cases token with
  | opening bracket =>
    cases haccept
    exact ⟨trees, _, hfinished, .cons (.collection .nil) hpending, rfl⟩
  | mark mark =>
    cases haccept
    refine ⟨trees, rest ++ [.mark mark], hfinished, .cons ?_ hpending, rfl⟩
    by_cases hmark : mark = .metadata
    · subst hmark
      exact .metadata
    · rw [FormTree.ofMark_of_ne hmark]
      exact .call hmark
  | word text =>
    rw [accept, wordValue_of_admissible htoken] at haccept
    cases haccept
    exact taken_deliver hfinished (.word text) hpending
  | literal text =>
    obtain ⟨form, hvalue, rfl⟩ := accept_literal haccept
    exact taken_deliver hfinished ((literalValue_iff htoken).mp hvalue) hpending
  | closing bracket =>
    obtain ⟨items, pending, form, hopen, hvalue, rfl⟩ := accept_closing haccept
    rw [hopen] at hpending
    obtain _ | ⟨hcollection, hpending⟩ := hpending
    obtain @⟨_, _, parts, hparts⟩ := hcollection
    have hgroup := FormTree.means_group_iff.mpr ⟨_, hparts, hvalue⟩
    have htaken := taken_deliver hfinished hgroup hpending
    rw [FormTree.tokens] at htaken
    rw [List.append_assoc]
    exact htaken

end Parser

theorem Parser.taken_acceptAll {p q : Parser} {tokens rest : List Token} (h : p.Taken tokens)
    (hrest : ∀ token ∈ rest, token.Admissible) (haccept : p.acceptAll rest = .ok q) :
    q.Taken (tokens ++ rest) := by
  induction rest generalizing p tokens with
  | nil =>
    cases haccept
    rwa [List.append_nil]
  | cons token rest ih =>
    obtain ⟨htoken, hrest⟩ := List.forall_mem_cons.mp hrest
    obtain ⟨r, hp, hothers⟩ := acceptAll_cons_eq_ok haccept
    have htaken := ih (taken_accept h htoken hp) hrest hothers
    rwa [List.append_assoc] at htaken

/-- If nothing is open, what has been taken are forms. -/
theorem Parser.Taken.trees {p : Parser} {tokens : List Token} (h : p.Taken tokens)
    (hdone : p.pending = []) : ∃ trees, FormTree.tokensAll trees = tokens ∧
      FormTree.MeanAll trees p.finished.reverse := by
  obtain ⟨trees, rest, hfinished, hpending, rfl⟩ := h
  rw [hdone] at hpending
  cases hpending
  exact ⟨trees, (List.append_nil _).symm, hfinished⟩

theorem readAll_derived {tokens : List Token} {forms : List Value}
    (htokens : ∀ token ∈ tokens, token.Admissible) (hread : (readAll tokens).outcome = .ok forms) :
    ∃ trees, FormTree.tokensAll trees = tokens ∧ FormTree.MeanAll trees forms := by
  obtain ⟨q, haccept, hdone, rfl⟩ := readAllFrom_eq_ok_iff.mp hread
  exact (Parser.taken_acceptAll Parser.taken_initial htokens haccept).trees hdone

/-- Tokens within the limit are refused with faults only. -/
theorem Parser.accept_fault {p : Parser} {token : Token} {e : ReadingError}
    (htoken : token.Admissible) (h : p.accept token = .error e) : ∃ f, e = .fault f := by
  cases token with
  | opening bracket => cases h
  | mark mark => cases h
  | word text =>
    rw [accept, wordValue_of_admissible htoken] at h
    cases h
  | literal text =>
    rw [accept, literalValue] at h
    split at h
    · cases h
    · cases h
      exact ⟨_, rfl⟩
  | closing bracket =>
    rw [accept] at h
    split at h
    · next bracket' items pending hopen =>
      split at h
      · cases bracket with
        | round => cases h
        | square => cases h
        | curly =>
          rw [collect] at h
          cases htable : tableOfItems items.reverse with
          | ok table =>
            rw [htable] at h
            cases h
          | error f =>
            rw [htable] at h
            cases h
            exact ⟨f, rfl⟩
      · cases h
        exact ⟨_, rfl⟩
    · cases h
      exact ⟨_, rfl⟩

theorem readAllFrom_fault {p : Parser} {tokens : List Token} {e : ReadingError}
    (htokens : ∀ token ∈ tokens, token.Admissible)
    (h : (readAllFrom p tokens).outcome = .error e) : ∃ f, e = .fault f := by
  rcases p.acceptAll_or_refuses tokens with ⟨q, hq⟩ | ⟨e', hrefuses⟩
  · by_cases hopen : q.pending = []
    · rw [readAllFrom_eq_ok_iff.mpr ⟨q, hq, hopen, rfl⟩] at h
      cases h
    · rw [readAllFrom_of_open hq hopen] at h
      cases h
      exact ⟨_, rfl⟩
  · rw [hrefuses.readAllFrom] at h
    cases h
    obtain ⟨before, token, after, q, rfl, -, hrefused⟩ := hrefuses
    exact Parser.accept_fault (htokens token (by simp)) hrefused

/-! ## Reading follows the grammar -/

theorem FormTree.MeanAll.readAll {trees : List FormTree} {forms : List Value}
    (h : MeanAll trees forms) (htokens : ∀ token ∈ tokensAll trees, token.Admissible) :
    readAll (tokensAll trees) = ⟨.ok forms, []⟩ := by
  have hall := h.acceptAll_tokens htokens .initial
  rw [Parser.initial, Parser.deliverAll_of_no_pending, List.append_nil] at hall
  rw [SmallLisp.readAll, Parser.initial, readAllFrom_of_acceptAll hall, List.reverse_reverse]

/-- The forms of these tokens are what the only trees that they spell mean, and there is a fault
if there are none. -/
structure FollowsGrammar (tokens : List Token) : Prop where
  accepted : ∀ trees forms, FormTree.tokensAll trees = tokens → FormTree.MeanAll trees forms →
    readAll tokens = ⟨.ok forms, []⟩
  derived : ∀ forms, (readAll tokens).outcome = .ok forms →
    ∃ trees, FormTree.tokensAll trees = tokens ∧ FormTree.MeanAll trees forms
  unique : ∀ trees trees', FormTree.tokensAll trees = tokens →
    FormTree.tokensAll trees' = tokens → trees = trees'
  refused : (¬ ∃ trees forms, FormTree.tokensAll trees = tokens ∧ FormTree.MeanAll trees forms) →
    ∃ f, (readAll tokens).outcome = .error (.fault f)

/-- Every list of tokens is read as the grammar says. -/
theorem readAll_follows_grammar {tokens : List Token}
    (h : ∀ token ∈ tokens, token.Admissible) : FollowsGrammar tokens := by
  have hderived : ∀ forms, (readAll tokens).outcome = .ok forms →
      ∃ trees, FormTree.tokensAll trees = tokens ∧ FormTree.MeanAll trees forms :=
    fun forms hread => readAll_derived h hread
  refine ⟨?_, hderived, ?_, ?_⟩
  · rintro trees forms rfl hforms
    exact hforms.readAll h
  · exact fun trees trees' htrees htrees' => FormTree.tokensAll_inj (htrees.trans htrees'.symm)
  · intro hnone
    cases hread : (readAll tokens).outcome with
    | ok forms =>
      obtain ⟨trees, htrees, hforms⟩ := hderived forms hread
      exact absurd ⟨trees, forms, htrees, hforms⟩ hnone
    | error e =>
      obtain ⟨f, rfl⟩ := readAllFrom_fault h hread
      exact ⟨f, rfl⟩

/-- The tokens of `'{:k "v" :k 2} ^m ()`, where the key is written twice. -/
theorem readAll_follows_grammar_repeated :
    let tokens : List Token := [.mark .quote, .opening .curly, .word ":k", .literal "\"v\"",
      .word ":k", .word "2", .closing .curly, .mark .metadata, .word "m", .opening .round,
      .closing .round]
    let quoted := Value.ofList [.symbol "quote", .ofEntries [(.keyword "k", .int 2)]]
    let tagged := Value.ofList [.symbol "with-meta", .ofList [], .symbol "m"]
    (∀ token ∈ tokens, token.Admissible) ∧ (readAll tokens).outcome = .ok [quoted, tagged] ∧
      ∃ trees, FormTree.tokensAll trees = tokens ∧ FormTree.MeanAll trees [quoted, tagged] := by
  intro tokens quoted tagged
  have hadmissible : ∀ token ∈ tokens, token.Admissible := by decide
  have hread : (readAll tokens).outcome = .ok [quoted, tagged] := by rfl
  exact ⟨hadmissible, hread, (readAll_follows_grammar hadmissible).derived _ hread⟩

theorem Parser.word_admissible_of_accept {p q : Parser} {text : String}
    (h : p.accept (.word text) = .ok q) : (Token.word text).Admissible := by
  refine fun hclass => Classical.byContradiction fun hlong => ?_
  rw [accept, wordValue, hclass] at h
  simp only [if_neg hlong] at h
  cases h

/-- What can be read of a text has numerals within the limit and closed literals. -/
theorem Parser.admissible_of_accept {p q : Parser} {token : Token} (hlexed : token.Lexed)
    (h : p.accept token = .ok q) : token.Admissible ∧ token.Closed := by
  cases token with
  | opening bracket => exact ⟨trivial, trivial⟩
  | closing bracket => exact ⟨trivial, trivial⟩
  | mark mark => exact ⟨trivial, trivial⟩
  | word text => exact ⟨word_admissible_of_accept h, trivial⟩
  | literal text =>
    have hquote : (Token.literal text).Admissible := by
      obtain ⟨body, _, htext | htext⟩ := hlexed <;> exact congrArg List.head? htext
    refine ⟨hquote, ?_⟩
    obtain ⟨form, hvalue, -⟩ := accept_literal h
    obtain _ | ⟨htext, hbody⟩ := (literalValue_iff hquote).mp hvalue
    exact ⟨_, hbody, htext⟩

theorem Parser.admissible_of_acceptAll {p q : Parser} {tokens : List Token}
    (hlexed : ∀ token ∈ tokens, token.Lexed) (h : p.acceptAll tokens = .ok q) :
    ∀ token ∈ tokens, token.Admissible ∧ token.Closed := by
  induction tokens generalizing p with
  | nil => exact List.forall_mem_nil _
  | cons token tokens ih =>
    obtain ⟨htoken, hrest⟩ := List.forall_mem_cons.mp hlexed
    obtain ⟨r, hp, hothers⟩ := acceptAll_cons_eq_ok h
    exact List.forall_mem_cons.mpr ⟨admissible_of_accept htoken hp, ih hrest hothers⟩

theorem readForms_eq_ok_iff {source : String} {forms : List Value} :
    readForms source = .ok forms ↔
      (∀ token ∈ tokenize source, token.Admissible ∧ token.Closed) ∧
        ∃ trees, FormTree.tokensAll trees = tokenize source ∧ FormTree.MeanAll trees forms := by
  constructor
  · intro h
    obtain ⟨q, haccept, -, -⟩ := readAllFrom_eq_ok_iff.mp h
    have htokens := Parser.admissible_of_acceptAll (tokenize_lexed source) haccept
    exact ⟨htokens, readAll_derived (fun token ht => (htokens token ht).1) h⟩
  · rintro ⟨htokens, trees, htrees, hforms⟩
    have hadmissible : ∀ token ∈ FormTree.tokensAll trees, token.Admissible :=
      fun token ht => (htokens token (htrees ▸ ht)).1
    rw [readForms, ← htrees, hforms.readAll hadmissible]

end SmallLisp

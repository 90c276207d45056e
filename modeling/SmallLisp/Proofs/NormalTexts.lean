import SmallLisp.Proofs.Grammar
import SmallLisp.Proofs.Reading
import SmallLisp.Proofs.RoundTrip

/-! # Printing what was read

Whatever can be read can be printed and read back. The names, numerals and literals of a text are
looked at through its tokens, so each tree that a text spells means data that has a text of its
own: the normal one, without comments, reader marks and repeated keys.
-/
namespace SmallLisp

/-- A value as the reader makes it, which has a text to read it from. -/
def Value.IsRead (v : Value) : Prop := v.Readable ∧ v.asRead = v

theorem isNameChar_of_endsWord {c : Char} (h : endsWord c = false) : isNameChar c = true := by
  simp only [endsWord, Bool.or_eq_false_iff, decide_eq_false_iff_not, List.mem_cons,
    List.not_mem_nil, or_false, not_or] at h
  obtain ⟨hblank, hchars⟩ := h
  simp [isNameChar, hblank, hchars]

theorem wordClass_eq_name {text : String} (h : wordClass text = .name) :
    text ∉ ["nil", "true", "false"] ∧ Text.isNumeral text.toList = false := by
  unfold wordClass at h
  split at h
  · cases h
  split at h
  · cases h
  split at h
  · cases h
  split at h
  · cases h
  next hnil htrue hfalse hnumeral =>
    simp only [List.mem_cons, List.not_mem_nil, or_false, not_or]
    exact ⟨⟨hnil, htrue, hfalse⟩, Bool.eq_false_iff.mpr hnumeral⟩

/-- The name of a symbol that a text holds is one under which it can be read. -/
theorem symbolName_of_lexed {text : String} (hlexed : (Token.word text).Lexed)
    (hclass : wordClass text = .name) (hcolon : ∀ name, text.toList ≠ ':' :: name) :
    SymbolName text := by
  obtain ⟨hends, c, hc, hmark⟩ := hlexed
  obtain ⟨hreserved, hnumeral⟩ := wordClass_eq_name hclass
  obtain ⟨rest, htext⟩ := List.head?_eq_some_iff.mp hc
  simp only [isMark, Bool.or_eq_false_iff, decide_eq_false_iff_not] at hmark
  obtain ⟨⟨htilde, hcaret⟩, hat⟩ := hmark
  refine ⟨?_, fun d hd => isNameChar_of_endsWord (hends d hd), ?_, hreserved, hnumeral⟩
  · rw [htext]
    exact List.cons_ne_nil c rest
  · rw [htext]
    rintro d ⟨⟩
    have hne : c ≠ ':' := fun h => hcolon rest (by rw [htext, h])
    simp only [List.mem_cons, List.not_mem_nil, or_false, not_or]
    exact ⟨htilde, hcaret, hat, hne⟩

theorem wordMeaning_isRead {text : String} (hlexed : (Token.word text).Lexed)
    (hadmissible : (Token.word text).Admissible) : (wordMeaning text).IsRead := by
  unfold wordMeaning
  cases hclass : wordClass text with
  | nil => exact ⟨.nil, rfl⟩
  | true => exact ⟨.bool true, rfl⟩
  | false => exact ⟨.bool false, rfl⟩
  | number => exact ⟨.int (Text.natAbs_numeralValue_lt (hadmissible hclass)), rfl⟩
  | name =>
    dsimp only
    split
    · next name htext =>
      refine ⟨.keyword fun c hc => ?_, rfl⟩
      rw [String.toList_ofList] at hc
      exact isNameChar_of_endsWord (hlexed.1 c (htext ▸ List.mem_cons_of_mem _ hc))
    · next hcolon => exact ⟨.symbol (symbolName_of_lexed hlexed hclass hcolon), rfl⟩

theorem isRead_symbol {name : String} (h : SymbolName name) : (Value.symbol name).IsRead :=
  ⟨.symbol h, rfl⟩

theorem asReadAll_eq_self {items : List Value} (h : ∀ v ∈ items, v.IsRead) :
    Value.asReadAll items = items := by
  rw [Value.asReadAll_eq_map]
  exact (List.map_congr_left fun v hv => (h v hv).2).trans (List.map_id items)

theorem isRead_ofList {items : List Value} (h : ∀ v ∈ items, v.IsRead) :
    (Value.ofList items).IsRead := by
  refine ⟨.list fun v hv => (h v hv).1, ?_⟩
  rw [Value.ofList, Value.asRead, asReadAll_eq_self h]

theorem isRead_ofVector {items : List Value} (h : ∀ v ∈ items, v.IsRead) :
    (Value.ofVector items).IsRead := by
  refine ⟨.vector fun v hv => (h v hv).1, ?_⟩
  rw [Value.ofVector, Value.asRead, asReadAll_eq_self h]

theorem isRead_ofEntries {entries : Entries} (hkeyed : Entries.Keyed entries)
    (h : ∀ e ∈ entries, e.1.IsRead ∧ e.2.IsRead) : (Value.ofEntries entries).IsRead := by
  refine ⟨.table hkeyed (fun e he => (h e he).1.1) fun e he => (h e he).2.1, ?_⟩
  rw [Value.ofEntries, Value.asRead, Value.asReadEntries_eq_map]
  refine congrArg (Value.table · .nil) ((List.map_congr_left fun e he => ?_).trans
    (List.map_id entries))
  rw [(h e he).1.2, (h e he).2.2]
  rfl

theorem isRead_collect {bracket : Bracket} {items : List Value} {v : Value}
    (h : ∀ u ∈ items, u.IsRead) (hcollect : Parser.collect bracket items = .ok v) : v.IsRead := by
  cases bracket with
  | round =>
    cases hcollect
    exact isRead_ofList h
  | square =>
    cases hcollect
    exact isRead_ofVector h
  | curly =>
    rw [Parser.collect, Parser.tableOfItems] at hcollect
    split at hcollect
    · cases hwritten : writeEntries [] (Entries.pairUp items) with
      | error f =>
        rw [hwritten] at hcollect
        cases hcollect
      | ok entries =>
        rw [hwritten] at hcollect
        cases hcollect
        obtain ⟨hkeyed, hentries⟩ := writeEntries_forall Entries.keyed_nil (List.forall_mem_nil _)
          (fun e he => ⟨h _ (mem_pairUp he).1, h _ (mem_pairUp he).2⟩) hwritten
        exact isRead_ofEntries hkeyed hentries
    · cases hcollect

theorem Mark.symbolName_function (mark : Mark) : SymbolName mark.function := by
  cases mark <;> decide

def Token.IsRead (token : Token) : Prop := token.Lexed ∧ token.Admissible

namespace FormTree

mutual

/-- Every form of a text is data as the reader makes it. -/
theorem Means.isRead {tree : FormTree} {v : Value} (h : tree.Means v)
    (htokens : ∀ token ∈ tree.tokens, token.IsRead) : v.IsRead := by
  match tree, h with
  | .word text, .word _ =>
    obtain ⟨hlexed, hadmissible⟩ := htokens _ List.mem_cons_self
    exact wordMeaning_isRead hlexed hadmissible
  | .literal text, .literal _ _ => exact ⟨.str _, rfl⟩
  | .group bracket parts, h =>
    obtain ⟨items, hparts, hcollect⟩ := means_group_iff.mp h
    rw [tokens] at htokens
    refine isRead_collect (hparts.isRead fun token ht => ?_) hcollect
    exact htokens token (List.mem_cons_of_mem _ (List.mem_append_left _ ht))
  | .marked mark hmark operand, .marked hoperand =>
    rw [tokens] at htokens
    refine isRead_ofList ?_
    simp only [List.forall_mem_cons]
    exact ⟨isRead_symbol mark.symbolName_function,
      hoperand.isRead (List.forall_mem_cons.mp htokens).2, List.forall_mem_nil _⟩
  | .withMetadata metadata target, .withMetadata hmetadata htarget =>
    rw [tokens] at htokens
    obtain ⟨_, hparts⟩ := List.forall_mem_cons.mp htokens
    obtain ⟨hfirst, hsecond⟩ := List.forall_mem_append.mp hparts
    refine isRead_ofList ?_
    simp only [List.forall_mem_cons]
    exact ⟨isRead_symbol Mark.metadata.symbolName_function, htarget.isRead hsecond,
      hmetadata.isRead hfirst, List.forall_mem_nil _⟩
termination_by structural tree

theorem MeanAll.isRead {trees : List FormTree} {vs : List Value} (h : MeanAll trees vs)
    (htokens : ∀ token ∈ tokensAll trees, token.IsRead) : ∀ v ∈ vs, v.IsRead := by
  match trees, h with
  | [], .nil => exact List.forall_mem_nil _
  | tree :: trees, .cons hfirst hothers =>
    rw [tokensAll] at htokens
    obtain ⟨htree, htrees⟩ := List.forall_mem_append.mp htokens
    exact List.forall_mem_cons.mpr ⟨hfirst.isRead htree, hothers.isRead htrees⟩
termination_by structural trees

end

end FormTree

theorem readForms_isRead {source : String} {forms : List Value}
    (h : readForms source = .ok forms) : ∀ v ∈ forms, v.IsRead := by
  obtain ⟨htokens, trees, htrees, hforms⟩ := readForms_eq_ok_iff.mp h
  refine hforms.isRead fun token ht => ?_
  rw [htrees] at ht
  exact ⟨tokenize_lexed source token ht, (htokens token ht).1⟩

/-- Reading a text, printing its forms and reading again gives the forms again. -/
theorem readForms_normalised (heap : Heap) {source : String} {forms : List Value}
    (h : readForms source = .ok forms) :
    ∃ text, printJoined heap true " " forms = .ok text ∧ readForms text = .ok forms := by
  have hread := readForms_isRead h
  obtain ⟨parts, hparts, hall⟩ := renderAll_of_prints (cellPrinter true heap)
    fun v hv => prints_of_readable _ (hread v hv).1
  have hforms := denotes_spaced hall
  rw [← Value.asReadAll_eq_map, asReadAll_eq_self hread] at hforms
  refine ⟨String.ofList ([' '].intercalate parts), ?_, hforms.readForms⟩
  rw [printJoined, hparts]
  rfl

/-- A text with a comment, a comma, marks, digits of another script and a backslash before a letter
that it does not escape. -/
theorem readForms_normalised_marks :
    let source := "; note\n'{:k +٣}, ^m ~@[-0 \"\\q\\n\"]"
    let forms := [.ofList [.symbol "quote", .ofEntries [(.keyword "k", .int 3)]],
      .ofList [.symbol "with-meta",
        .ofList [.symbol "splice-unquote", .ofVector [.int 0, .str "\\q\n"]], .symbol "m"]]
    readForms source = .ok forms ∧
      ∃ text, printJoined Heap.empty true " " forms = .ok text ∧ readForms text = .ok forms := by
  refine ⟨?read, readForms_normalised Heap.empty ?read⟩
  rfl

end SmallLisp

import SmallLisp.Proofs.Literals
import SmallLisp.Proofs.Numerals
import SmallLisp.Proofs.Parsing
import SmallLisp.Proofs.TableKeys
import SmallLisp.Value.Printer

/-! # Reading what was printed

Data that is printed readably can be read back: the reader returns the same forms in the same
order. The induction follows the value. At each level the text of a value denotes the value in the
sense of the parser, so it does not matter what it is printed inside of.
-/
namespace SmallLisp

def isNameChar (c : Char) : Bool :=
  !Text.isBlank c &&
    c ∉ ['[', ']', '\x7b', '\x7d', '(', ')', '\'', '"', '\x60', ',', ';']

structure SymbolName (name : String) : Prop where
  ne_nil : name.toList ≠ []
  chars : ∀ c ∈ name.toList, isNameChar c = true
  start : ∀ c ∈ name.toList.head?, c ∉ ['~', '^', '@', ':']
  not_reserved : name ∉ ["nil", "true", "false"]
  not_numeral : Text.isNumeral name.toList = false

instance (name : String) : Decidable (SymbolName name) :=
  decidable_of_iff (name.toList ≠ [] ∧ name.toList.all isNameChar = true ∧
      name.toList.head?.all (· ∉ ['~', '^', '@', ':']) = true ∧
      name ∉ ["nil", "true", "false"] ∧ Text.isNumeral name.toList = false)
    ⟨fun ⟨hne, hchars, hstart, hreserved, hnumeral⟩ =>
      ⟨hne, List.all_eq_true.mp hchars,
        fun c hc => of_decide_eq_true ((Option.all_eq_true _ _).mp hstart c hc), hreserved, hnumeral⟩,
      fun h => ⟨h.ne_nil, List.all_eq_true.mpr h.chars,
        (Option.all_eq_true _ _).mpr fun c hc => decide_eq_true (h.start c hc), h.not_reserved,
        h.not_numeral⟩⟩

def KeywordName (name : String) : Prop := ∀ c ∈ name.toList, isNameChar c = true

instance (name : String) : Decidable (KeywordName name) :=
  decidable_of_iff (name.toList.all isNameChar = true) List.all_eq_true

namespace Value

/-- Data that has a text to read it from. Nothing carries metadata, and the keys of tables are
no collections. -/
inductive Readable : Value → Prop
  | nil : Readable .nil
  | bool (b : Bool) : Readable (.bool b)
  | int {n : Int} (h : n.natAbs < Text.numeralBound) : Readable (.int n)
  | str (text : String) : Readable (.str text)
  | symbol {name : String} (h : SymbolName name) : Readable (.symbol name)
  | keyword {name : String} (h : KeywordName name) : Readable (.keyword name)
  | list {items : List Value} {identity : Option Identity} (h : ∀ v ∈ items, Readable v) :
      Readable (.list items .nil identity)
  | vector {items : List Value} {identity : Option Identity} (h : ∀ v ∈ items, Readable v) :
      Readable (.vector items .nil identity)
  | table {entries : List (Value × Value)} (hkeyed : Entries.Keyed entries)
      (hkeys : ∀ e ∈ entries, Readable e.1) (hvalues : ∀ e ∈ entries, Readable e.2) :
      Readable (.table entries .nil)

mutual

/-- A value as the reader makes it: its lists and vectors have no identity. -/
def asRead : Value → Value
  | .list items metadata _ => .list (asReadAll items) metadata none
  | .vector items metadata _ => .vector (asReadAll items) metadata none
  | .table entries metadata => .table (asReadEntries entries) metadata
  | v => v
termination_by structural x => x

def asReadAll : List Value → List Value
  | [] => []
  | v :: vs => asRead v :: asReadAll vs
termination_by structural x => x

def asReadEntries : List (Value × Value) → List (Value × Value)
  | [] => []
  | (k, v) :: entries => (asRead k, asRead v) :: asReadEntries entries
termination_by structural x => x

end

theorem asReadAll_eq_map (vs : List Value) : asReadAll vs = vs.map asRead := by
  induction vs with
  | nil => rfl
  | cons v vs ih => rw [asReadAll, ih, List.map_cons]

theorem asReadEntries_eq_map (entries : List (Value × Value)) :
    asReadEntries entries = entries.map fun e => (e.1.asRead, e.2.asRead) := by
  induction entries with
  | nil => rfl
  | cons e entries ih => rw [asReadEntries, ih, List.map_cons]

theorem asRead_of_isKey {v : Value} (h : v.isKey = true) : v.asRead = v := by
  cases v <;> first | rfl | cases h

end Value

theorem keyed_asReadEntries {entries : Entries} (h : Entries.Keyed entries) :
    Entries.Keyed (Value.asReadEntries entries) := by
  rw [Value.asReadEntries_eq_map]
  refine ⟨fun e he => ?_, List.pairwise_map.mpr (h.distinct.imp_of_mem ?_)⟩
  · obtain ⟨f, hf, rfl⟩ := List.mem_map.mp he
    have hkey := h.usable f hf
    exact (Value.asRead_of_isKey hkey).symm ▸ hkey
  · intro e f he hf hef
    rw [Value.asRead_of_isKey (h.usable e he), Value.asRead_of_isKey (h.usable f hf)]
    exact hef

theorem endsWord_of_isNameChar {c : Char} (h : isNameChar c = true) : endsWord c = false := by
  simp only [isNameChar, Bool.and_eq_true, Bool.not_eq_true', decide_eq_true_eq, List.mem_cons,
    List.not_mem_nil, or_false, not_or] at h
  obtain ⟨hblank, hchars⟩ := h
  simp [endsWord, hblank, hchars]

theorem denotes_reserved : Denotes "nil".toList [.nil] ∧ Denotes "true".toList [.bool true] ∧
    Denotes "false".toList [.bool false] := by
  have hname : ∀ word ∈ ["nil", "true", "false"], word.toList.all isNameChar = true := by decide
  have hword : ∀ word ∈ ["nil", "true", "false"], ∀ c ∈ word.toList, endsWord c = false :=
    fun word h c hc => endsWord_of_isNameChar (List.all_eq_true.mp (hname word h) c hc)
  refine ⟨?_, ?_, ?_⟩
  · exact denotes_of_wordValue (spells_word rfl (hword "nil" (by simp))) rfl
  · exact denotes_of_wordValue (spells_word rfl (hword "true" (by simp))) rfl
  · exact denotes_of_wordValue (spells_word rfl (hword "false" (by simp))) rfl

theorem isMark_endsWord_of_isDigit {c : Char} (h : c.isDigit = true) :
    isMark c = false ∧ endsWord c = false := by
  obtain ⟨hl, hr⟩ := Char.isDigit_iff_toNat.mp h
  have hzero : '0'.toNat = 48 := rfl
  have hnine : '9'.toNat = 57 := rfl
  obtain ⟨n, hn, hc⟩ : ∃ n < 10, c.toNat = 48 + n := ⟨c.toNat - 48, by omega, by omega⟩
  have hall : ∀ n < 10, isMark (Char.ofNat (48 + n)) = false ∧
      endsWord (Char.ofNat (48 + n)) = false := by decide
  rw [← Char.ofNat_toNat c, hc]
  exact hall n hn

theorem reserved_not_numeral : ∀ text ∈ ["nil", "true", "false"],
    Text.isNumeral text.toList = false := by decide

theorem wordClass_of_isNumeral {text : String} (h : Text.isNumeral text.toList = true) :
    wordClass text = .number := by
  have hne : text ∉ ["nil", "true", "false"] := by
    intro hmem
    rw [reserved_not_numeral text hmem] at h
    cases h
  simp only [List.mem_cons, List.not_mem_nil, or_false, not_or] at hne
  simp [wordClass, hne, h]

theorem numeralText_of_numeral {n : Int} {text : String} (h : Text.numeral? n = some text) :
    numeralText n = .ok text.toList := by
  unfold numeralText
  rw [h]

theorem denotes_numeral {n : Int} {text : String} (h : Text.numeral? n = some text) :
    Denotes text.toList [.int n] := by
  have hword : ∀ c ∈ text.toList, isMark c = false ∧ endsWord c = false := by
    intro c hc
    rcases Text.mem_numeral h hc with hdigit | rfl
    · exact isMark_endsWord_of_isDigit hdigit
    · exact ⟨rfl, rfl⟩
  have hvalue : Parser.wordValue text = .ok (.int n) := by
    rw [Parser.wordValue, wordClass_of_isNumeral (Text.isNumeral_numeral h),
      Text.numeralValue_numeral h]
    exact if_pos (Text.numeralLength_numeral h)
  obtain ⟨c, rest, hcons⟩ := List.exists_cons_of_ne_nil (Text.numeral_ne_nil h)
  have hspells : Spells text.toList [.word (String.ofList text.toList)] := by
    rw [hcons] at hword ⊢
    exact spells_word (hword c List.mem_cons_self).1 fun d hd => (hword d hd).2
  rw [← String.ofList_toList (s := text)] at hvalue
  exact denotes_of_wordValue hspells hvalue

theorem denotes_symbol {name : String} (h : SymbolName name) :
    Denotes name.toList [.symbol name] := by
  obtain ⟨c, rest, hcons⟩ := List.exists_cons_of_ne_nil h.ne_nil
  have hstart := h.start c (by rw [hcons]; rfl)
  simp only [List.mem_cons, List.not_mem_nil, or_false, not_or] at hstart
  obtain ⟨htilde, hcaret, hat, hcolon⟩ := hstart
  have hchars : ∀ d ∈ c :: rest, endsWord d = false := by
    intro d hd
    exact endsWord_of_isNameChar (h.chars d (hcons ▸ hd))
  have hmark : isMark c = false := by simp [isMark, htilde, hcaret, hat]
  have hspells : Spells name.toList [.word (String.ofList name.toList)] := by
    rw [hcons]
    exact spells_word hmark hchars
  have hne := h.not_reserved
  simp only [List.mem_cons, List.not_mem_nil, or_false, not_or] at hne
  have hclass : wordClass name = .name := by simp [wordClass, hne, h.not_numeral]
  have hvalue : Parser.wordValue (String.ofList name.toList) = .ok (.symbol name) := by
    rw [String.ofList_toList]
    simp only [Parser.wordValue, hclass, hcons]
    split
    · next hc => exact absurd (List.cons.inj hc).1 hcolon
    · rfl
  exact denotes_of_wordValue hspells hvalue

theorem denotes_keyword {name : String} (h : KeywordName name) :
    Denotes (':' :: name.toList) [.keyword name] := by
  have hchars : ∀ d ∈ ':' :: name.toList, endsWord d = false := by
    intro d hd
    rcases List.mem_cons.mp hd with rfl | hd
    · rfl
    · exact endsWord_of_isNameChar (h d hd)
  have hspells := spells_word (c := ':') rfl hchars
  have hreserved : ∀ text ∈ ["nil", "true", "false"], text.toList.head? ≠ some ':' := by decide
  have hne : String.ofList (':' :: name.toList) ∉ ["nil", "true", "false"] := by
    intro hmem
    refine hreserved _ hmem ?_
    rw [String.toList_ofList]
    rfl
  simp only [List.mem_cons, List.not_mem_nil, or_false, not_or] at hne
  have hnumeral : Text.isNumeral (':' :: name.toList) = false := by
    have hcolon : Text.isDecimal ':' = false := by decide
    simp [Text.isNumeral, Text.splitSign, hcolon]
  have hclass : wordClass (String.ofList (':' :: name.toList)) = .name := by
    simp only [wordClass, if_neg hne.1, if_neg hne.2.1, if_neg hne.2.2, String.toList_ofList,
      hnumeral, Bool.false_eq_true, if_false]
  have hvalue : Parser.wordValue (String.ofList (':' :: name.toList)) = .ok (.keyword name) := by
    simp only [Parser.wordValue, hclass, String.toList_ofList, String.ofList_toList]
  exact denotes_of_wordValue hspells hvalue

theorem denotes_str (text : String) : Denotes (escape text.toList) [.str text] :=
  denotes_of_literalValue (spells_escape text.toList) (literalValue_escape text)

/-- A value whose readable text denotes it, in a store where cells have these texts. -/
def Prints (cell : CellId → Except Abort (List Char)) (v : Value) : Prop :=
  ∃ text, v.render true cell = .ok text ∧ Denotes text [v.asRead]

variable (cell : CellId → Except Abort (List Char))

theorem renderAll_of_prints {vs : List Value} (h : ∀ v ∈ vs, Prints cell v) :
    ∃ parts, Value.renderAll true cell vs = .ok parts ∧
      List.Forall₂ Denotes parts (vs.map fun v => [v.asRead]) := by
  induction vs with
  | nil => exact ⟨[], rfl, .nil⟩
  | cons v vs ih =>
    obtain ⟨part, hpart, hdenotes⟩ := h v List.mem_cons_self
    obtain ⟨parts, hparts, hall⟩ := ih fun w hw => h w (List.mem_cons_of_mem v hw)
    refine ⟨part :: parts, ?_, .cons hdenotes hall⟩
    rw [Value.renderAll, hpart, hparts]
    rfl

theorem renderEntries_of_prints {entries : List (Value × Value)}
    (hkeys : ∀ e ∈ entries, Prints cell e.1) (hvalues : ∀ e ∈ entries, Prints cell e.2) :
    ∃ parts, Value.renderEntries true cell entries = .ok parts ∧
      List.Forall₂ Denotes parts (entries.map fun e => [e.1.asRead, e.2.asRead]) := by
  induction entries with
  | nil => exact ⟨[], rfl, .nil⟩
  | cons e entries ih =>
    obtain ⟨key, hkey, hdenotesKey⟩ := hkeys e List.mem_cons_self
    obtain ⟨value, hvalue, hdenotesValue⟩ := hvalues e List.mem_cons_self
    obtain ⟨parts, hparts, hall⟩ := ih (fun f hf => hkeys f (List.mem_cons_of_mem e hf))
      fun f hf => hvalues f (List.mem_cons_of_mem e hf)
    have hblank : Text.isBlank ' ' = true := rfl
    refine ⟨(key ++ ' ' :: value) :: parts, ?_,
      .cons (hdenotesKey.separate hdenotesValue (.inl hblank)) hall⟩
    rw [Value.renderEntries, hkey, hvalue, hparts]
    rfl

theorem denotes_spaced {parts : List (List Char)} {vs : List Value}
    (h : List.Forall₂ Denotes parts (vs.map fun v => [v.asRead])) :
    Denotes ([' '].intercalate parts) (vs.map Value.asRead) := by
  have hspace : ∀ c ∈ [' '], Text.isBlank c = true ∨ c = ',' :=
    List.forall_mem_singleton.mpr (by decide)
  have hall := denotes_intercalate (by decide) hspace h
  rwa [← List.flatMap_def, ← List.map_eq_flatMap] at hall

theorem collect_curly {entries : Entries} (h : Entries.Keyed entries) :
    Parser.collect .curly (entries.map fun e => [e.1, e.2]).flatten = .ok (.ofEntries entries) := by
  have hlength : (entries.map fun e => [e.1, e.2]).flatten.length % 2 = 0 := by
    simp [Function.comp_def]
  have hpairs : Entries.pairUp (entries.map fun e => [e.1, e.2]).flatten = entries := by
    clear h hlength
    induction entries with
    | nil => rfl
    | cons e entries ih =>
      simp only [List.map_cons, List.flatten_cons, List.cons_append, List.nil_append,
        Entries.pairUp, ih]
  simp only [Parser.collect, Parser.tableOfItems, if_pos hlength, hpairs, writeEntries,
    Entries.insertMany_eq_insertAll, Entries.insertAll_nil h]
  rfl

theorem prints_of_readable {v : Value} (h : v.Readable) : Prints cell v := by
  induction h with
  | nil => exact ⟨_, rfl, denotes_reserved.1⟩
  | bool b =>
    cases b with
    | true => exact ⟨_, rfl, denotes_reserved.2.1⟩
    | false => exact ⟨_, rfl, denotes_reserved.2.2⟩
  | @int n hn =>
    obtain ⟨text, htext⟩ := Text.exists_numeral hn
    refine ⟨text.toList, ?_, denotes_numeral htext⟩
    rw [Value.render]
    exact numeralText_of_numeral htext
  | str text => exact ⟨_, rfl, denotes_str text⟩
  | symbol hname => exact ⟨_, rfl, denotes_symbol hname⟩
  | keyword hname => exact ⟨_, rfl, denotes_keyword hname⟩
  | @list items identity _ ih =>
    obtain ⟨parts, hparts, hall⟩ := renderAll_of_prints cell ih
    refine ⟨'(' :: [' '].intercalate parts ++ [')'], ?_, ?_⟩
    · rw [Value.render, hparts]
      rfl
    · rw [Value.asRead, Value.asReadAll_eq_map]
      exact (denotes_spaced hall).bracket .round rfl
  | @vector items identity _ ih =>
    obtain ⟨parts, hparts, hall⟩ := renderAll_of_prints cell ih
    refine ⟨'[' :: [' '].intercalate parts ++ [']'], ?_, ?_⟩
    · rw [Value.render, hparts]
      rfl
    · rw [Value.asRead, Value.asReadAll_eq_map]
      exact (denotes_spaced hall).bracket .square rfl
  | @table entries hkeyed _ _ ihkeys ihvalues =>
    obtain ⟨parts, hparts, hall⟩ := renderEntries_of_prints cell ihkeys ihvalues
    have hseparator : ∀ c ∈ [',', ' '], Text.isBlank c = true ∨ c = ',' :=
      List.forall_mem_cons.mpr ⟨by decide, List.forall_mem_singleton.mpr (by decide)⟩
    have hitems := denotes_intercalate (by decide) hseparator hall
    have hentries : (entries.map fun e => [e.1.asRead, e.2.asRead]) =
        (Value.asReadEntries entries).map fun e => [e.1, e.2] := by
      rw [Value.asReadEntries_eq_map, List.map_map]
      rfl
    refine ⟨'\x7b' :: [',', ' '].intercalate parts ++ ['\x7d'], ?_, ?_⟩
    · rw [Value.render, hparts]
      rfl
    · rw [hentries] at hitems
      exact hitems.bracket .curly (collect_curly (keyed_asReadEntries hkeyed))

/-- Readable data printed with spaces between is read back as it was, and so is each value by
itself. -/
theorem readForms_printJoined (heap : Heap) {vs : List Value} (h : ∀ v ∈ vs, v.Readable) :
    (∃ text, printJoined heap true " " vs = .ok text ∧
      readForms text = .ok (vs.map Value.asRead)) ∧
    ∀ v ∈ vs, ∃ text, printValue heap true v = .ok text ∧
      (readForms text).map lastForm = .ok v.asRead := by
  constructor
  · obtain ⟨parts, hparts, hall⟩ := renderAll_of_prints (cellPrinter true heap)
      fun v hv => prints_of_readable _ (h v hv)
    refine ⟨String.ofList ([' '].intercalate parts), ?_, (denotes_spaced hall).readForms⟩
    rw [printJoined, hparts]
    rfl
  · intro v hv
    obtain ⟨text, htext, hdenotes⟩ := prints_of_readable (cellPrinter true heap) (h v hv)
    refine ⟨String.ofList text, ?_, ?_⟩
    · rw [printValue, htext]
      rfl
    · rw [hdenotes.readForms]
      rfl

theorem readForms_printJoined_nested :
    let call := Value.list
      [.symbol "+", .int (-12),
        .vector [.str "a\\ \"b\"\n", .keyword "", .nil] .nil (some 3)] .nil none
    let table := Value.table
      [(.str "x", .list [] .nil (some 4)), (.keyword "y", .table [(.int 0, .bool false)] .nil)] .nil
    (∀ v ∈ [call, table], v.Readable) ∧
      (∃ text, printJoined Heap.empty true " " [call, table] = .ok text ∧
        readForms text = .ok ([call, table].map Value.asRead)) ∧
      ∀ v ∈ [call, table], ∃ text, printValue Heap.empty true v = .ok text ∧
        (readForms text).map lastForm = .ok v.asRead := by
  intro call table
  have hsmall : ∀ n : Int, n.natAbs < 100 → Value.Readable (.int n) := fun n hn =>
    .int (Nat.lt_trans hn (by decide +kernel))
  have hstart : ∀ c ∈ "+".toList.head?, c ∉ ['~', '^', '@', ':'] := by
    rintro c ⟨⟩
    decide
  have hsymbol : SymbolName "+" :=
    ⟨by decide, List.all_eq_true.mp (by decide), hstart, by decide, by decide⟩
  have hvector : Value.Readable
      (.vector [.str "a\\ \"b\"\n", .keyword "", .nil] .nil (some 3)) := by
    refine .vector ?_
    simp only [List.forall_mem_cons]
    exact ⟨.str _, .keyword (by decide), .nil, List.forall_mem_nil _⟩
  have hcall : call.Readable := by
    refine .list ?_
    simp only [List.forall_mem_cons]
    exact ⟨.symbol hsymbol, hsmall _ (by decide), hvector, List.forall_mem_nil _⟩
  have hinner : Value.Readable (.table [(.int 0, .bool false)] .nil) := by
    refine .table ⟨by decide, by decide⟩ ?_ ?_
    · simp only [List.forall_mem_cons]
      exact ⟨hsmall _ (by decide), List.forall_mem_nil _⟩
    · simp only [List.forall_mem_cons]
      exact ⟨.bool _, List.forall_mem_nil _⟩
  have htable : table.Readable := by
    refine .table ⟨by decide, by decide⟩ ?_ ?_
    · simp only [List.forall_mem_cons]
      exact ⟨.str _, .keyword (by decide), List.forall_mem_nil _⟩
    · simp only [List.forall_mem_cons]
      exact ⟨.list (List.forall_mem_nil _), hinner, List.forall_mem_nil _⟩
  have hall : ∀ v ∈ [call, table], v.Readable := by
    simp only [List.forall_mem_cons]
    exact ⟨hcall, htable, List.forall_mem_nil _⟩
  exact ⟨hall, readForms_printJoined Heap.empty hall⟩

end SmallLisp

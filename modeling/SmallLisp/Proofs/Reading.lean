import SmallLisp.Proofs.Layout
import SmallLisp.Proofs.Numerals
import SmallLisp.Reader.Parser

/-! # What is read is plain data

The reader makes no functions, cells or error values, only tables with usable keys and only
integers that can be written. So the forms of a text are valid whatever the frames of the store
are, and have a representation whatever the heap is.
-/
namespace SmallLisp

variable {home : FrameId} {tolerant : Bool} {layout : Layout home tolerant}

def Value.MayBeRead : Value → Prop
  | .int n => n.natAbs < Text.numeralBound
  | .table entries _ => Entries.Keyed entries
  | .atom _ => False
  | .native .. => False
  | .closure .. => False
  | .error .. => False
  | _ => True

def Value.Plain (v : Value) : Prop := v.Every MayBeRead

theorem Value.Plain.valid {v : Value} (h : v.Plain) : v.Valid layout := by
  refine Every.mono (fun u hu => ?_) h
  cases u with
  | table => exact hu
  | native => cases hu
  | closure => cases hu
  | error => cases hu
  | _ => trivial

theorem Value.plain_ofList {items : List Value} (h : ∀ v ∈ items, v.Plain) :
    (Value.ofList items).Plain :=
  every_list.mpr ⟨trivial, every_of_parts_nil trivial rfl, h⟩

theorem Value.plain_symbol (name : String) : (Value.symbol name).Plain :=
  every_of_parts_nil trivial rfl

theorem mem_pairUp {vs : List Value} {e : Value × Value} (h : e ∈ Entries.pairUp vs) :
    e.1 ∈ vs ∧ e.2 ∈ vs := by
  induction vs using Entries.pairUp.induct with
  | case1 key value rest ih =>
    rw [Entries.pairUp] at h
    rcases List.mem_cons.mp h with rfl | h
    · exact ⟨List.mem_cons_self, List.mem_cons_of_mem _ List.mem_cons_self⟩
    · obtain ⟨hkey, hvalue⟩ := ih h
      exact ⟨List.mem_cons_of_mem _ (List.mem_cons_of_mem _ hkey),
        List.mem_cons_of_mem _ (List.mem_cons_of_mem _ hvalue)⟩
  | case2 vs hne =>
    rw [Entries.pairUp] at h
    · cases h
    · exact hne

/-- Written entries have usable keys, and what holds of the keys and values of both parts holds of
theirs. -/
theorem writeEntries_forall {p : Value → Prop} {entries pairs written : Entries}
    (hkeyed : Entries.Keyed entries) (hentries : ∀ e ∈ entries, p e.1 ∧ p e.2)
    (hpairs : ∀ e ∈ pairs, p e.1 ∧ p e.2) (h : writeEntries entries pairs = .ok written) :
    Entries.Keyed written ∧ ∀ e ∈ written, p e.1 ∧ p e.2 := by
  have hall : ∀ e ∈ entries ++ pairs, p e.1 ∧ p e.2 :=
    List.forall_mem_append.mpr ⟨hentries, hpairs⟩
  rw [writeEntries, Entries.insertMany_eq_insertAll] at h
  cases hw : Entries.insertAll entries pairs with
  | error key =>
    rw [hw] at h
    cases h
  | ok written' =>
    rw [hw] at h
    cases h
    refine ⟨Entries.keyed_insertAll hkeyed hw, fun e he => ?_⟩
    obtain ⟨⟨f, hf, hkey⟩, g, hg, hvalue⟩ := Entries.mem_insertAll hw he
    rw [← hkey, ← hvalue]
    exact ⟨(hall f hf).1, (hall g hg).2⟩

/-- The only mistake in writing is a key that cannot be one. -/
theorem writeEntries_fault {entries pairs : Entries} {f : Fault}
    (h : writeEntries entries pairs = .error f) :
    ∃ e ∈ pairs, f = .kind (.unusableKey e.1) := by
  rw [writeEntries, Entries.insertMany_eq_insertAll] at h
  induction pairs generalizing entries with
  | nil => cases h
  | cons pair pairs ih =>
    rw [Entries.insertAll] at h
    split at h
    · obtain ⟨e, he, hf⟩ := ih h
      exact ⟨e, List.mem_cons_of_mem pair he, hf⟩
    · cases h
      exact ⟨pair, List.mem_cons_self, rfl⟩

/-- Either a mistake whose message shows no value but a plain one, or a literal beyond the
limit. -/
def ReadingError.Plain : ReadingError → Prop
  | .fault (.kind (.unusableKey key)) => key.Plain
  | .fault (.kind _) => False
  | .fault _ => True
  | .longLiteral digits => Text.digitLimit < digits

def OpenForm.Plain : OpenForm → Prop
  | .collection _ items => ∀ v ∈ items, v.Plain
  | .target m => m.Plain
  | _ => True

structure Parser.Plain (parser : Parser) : Prop where
  finished : ∀ v ∈ parser.finished, v.Plain
  pending : ∀ o ∈ parser.pending, o.Plain

def ReadsPlain {α : Type} (plain : α → Prop) : Except ReadingError α → Prop
  | .ok a => plain a
  | .error e => e.Plain

theorem ReadsPlain.map {α β : Type} {p : α → Prop} {q : β → Prop} {f : α → β}
    {x : Except ReadingError α} (h : ReadsPlain p x) (hf : ∀ a, p a → q (f a)) :
    ReadsPlain q (x.map f) := by
  cases x with
  | ok a => exact hf a h
  | error e => exact h

namespace Parser

theorem initial_plain : Parser.initial.Plain := ⟨List.forall_mem_nil _, List.forall_mem_nil _⟩

theorem deliver_plain {finished : List Value} {form : Value} {pending : List OpenForm}
    (hfinished : ∀ v ∈ finished, v.Plain) (hform : form.Plain)
    (hpending : ∀ o ∈ pending, o.Plain) : (deliver finished form pending).Plain := by
  induction pending generalizing form with
  | nil => exact ⟨List.forall_mem_cons.mpr ⟨hform, hfinished⟩, List.forall_mem_nil _⟩
  | cons o pending ih =>
    obtain ⟨ho, hrest⟩ := List.forall_mem_cons.mp hpending
    cases o with
    | collection bracket items =>
      refine ⟨hfinished, List.forall_mem_cons.mpr ⟨?_, hrest⟩⟩
      exact List.forall_mem_cons.mpr ⟨hform, ho⟩
    | call name =>
      refine ih (Value.plain_ofList ?_) hrest
      simp only [List.forall_mem_cons]
      exact ⟨Value.plain_symbol name, hform, List.forall_mem_nil _⟩
    | metadata => exact ⟨hfinished, List.forall_mem_cons.mpr ⟨hform, hrest⟩⟩
    | target metadata =>
      refine ih (Value.plain_ofList ?_) hrest
      simp only [List.forall_mem_cons]
      exact ⟨Value.plain_symbol _, hform, ho, List.forall_mem_nil _⟩

theorem wordValue_plain (text : String) : ReadsPlain Value.Plain (wordValue text) := by
  unfold wordValue
  split
  · exact Value.every_of_parts_nil trivial rfl
  · exact Value.every_of_parts_nil trivial rfl
  · exact Value.every_of_parts_nil trivial rfl
  · dsimp only
    split
    · next hdigits => exact Value.every_of_parts_nil (Text.natAbs_numeralValue_lt hdigits) rfl
    · next hlong => exact Nat.lt_of_not_le hlong
  · split
    · exact Value.every_of_parts_nil trivial rfl
    · exact Value.plain_symbol text

theorem literalValue_plain (text : String) : ReadsPlain Value.Plain (literalValue text) := by
  unfold literalValue
  split
  · exact Value.every_of_parts_nil trivial rfl
  · trivial

theorem collect_plain (bracket : Bracket) {items : List Value} (hitems : ∀ v ∈ items, v.Plain) :
    ReadsPlain Value.Plain (collect bracket items) := by
  have hpairs : ∀ e ∈ Entries.pairUp items, e.1.Plain ∧ e.2.Plain :=
    fun e he => ⟨hitems _ (mem_pairUp he).1, hitems _ (mem_pairUp he).2⟩
  cases bracket with
  | round => exact Value.plain_ofList hitems
  | square => exact Value.every_vector.mpr ⟨trivial, Value.every_of_parts_nil trivial rfl, hitems⟩
  | curly =>
    simp only [collect, tableOfItems]
    split
    · cases hw : writeEntries [] (Entries.pairUp items) with
      | error f =>
        obtain ⟨e, he, rfl⟩ := writeEntries_fault hw
        exact (hpairs e he).1
      | ok written =>
        obtain ⟨hkeyed, hplain⟩ :=
          writeEntries_forall Entries.keyed_nil (List.forall_mem_nil _) hpairs hw
        exact Value.every_table.mpr ⟨hkeyed, Value.every_of_parts_nil trivial rfl, hplain⟩
    · trivial

theorem accept_plain {parser : Parser} (hp : parser.Plain) (token : Token) :
    ReadsPlain Parser.Plain (parser.accept token) := by
  have hdeliver : ∀ form : Value, form.Plain →
      (deliver parser.finished form parser.pending).Plain :=
    fun form hform => deliver_plain hp.finished hform hp.pending
  cases token with
  | opening bracket =>
    exact ⟨hp.finished, List.forall_mem_cons.mpr ⟨List.forall_mem_nil _, hp.pending⟩⟩
  | mark mark =>
    refine ⟨hp.finished, List.forall_mem_cons.mpr ⟨?_, hp.pending⟩⟩
    cases mark <;> trivial
  | closing bracket =>
    simp only [accept]
    split
    · next bracket' items pending hpending =>
      obtain ⟨hitems, hrest⟩ := List.forall_mem_cons.mp (hpending ▸ hp.pending)
      split
      · refine (collect_plain bracket fun v hv => hitems v (List.mem_reverse.mp hv)).map ?_
        exact fun form hform => deliver_plain hp.finished hform hrest
      · trivial
    · trivial
  | literal text => exact (literalValue_plain text).map hdeliver
  | word text => exact (wordValue_plain text).map hdeliver

end Parser

theorem readAllFrom_plain {parser : Parser} (hp : parser.Plain) (tokens : List Token) :
    ReadsPlain (fun forms => ∀ v ∈ forms, v.Plain) (readAllFrom parser tokens).outcome := by
  induction tokens generalizing parser with
  | nil =>
    unfold readAllFrom
    split
    · exact fun v hv => hp.finished v (List.mem_reverse.mp hv)
    · trivial
  | cons token tokens ih =>
    have haccept := Parser.accept_plain hp token
    unfold readAllFrom
    split
    · next e he => rwa [he] at haccept
    · next parser' hok =>
      rw [hok] at haccept
      exact ih haccept

theorem readForms_plain (source : String) :
    ReadsPlain (fun forms => ∀ v ∈ forms, v.Plain) (readForms source) :=
  readAllFrom_plain Parser.initial_plain (tokenize source)

theorem readForms_valid {source : String} {forms : List Value}
    (h : readForms source = .ok forms) : ∀ v ∈ forms, v.Valid layout := by
  have hplain := readForms_plain source
  rw [h] at hplain
  exact fun v hv => (hplain v hv).valid

theorem readForms_longLiteral {source : String} {digits : Nat}
    (h : readForms source = .error (.longLiteral digits)) : Text.digitLimit < digits := by
  have hplain := readForms_plain source
  rwa [h] at hplain

theorem lastForm_of_forall {p : Value → Prop} (hnil : p .nil) {forms : List Value}
    (h : ∀ v ∈ forms, p v) : p (lastForm forms) := by
  unfold lastForm
  rw [List.getLastD_eq_getLast?]
  cases hlast : forms.getLast? with
  | none => exact hnil
  | some v => exact h v (List.mem_of_getLast? hlast)

theorem lastForm_valid {forms : List Value} (h : ∀ v ∈ forms, v.Valid layout) :
    (lastForm forms).Valid layout :=
  lastForm_of_forall Value.valid_nil h

/-- What is read is no error value. -/
theorem isError_lastForm {source : String} {forms : List Value}
    (h : readForms source = .ok forms) : (lastForm forms).isError = false := by
  have hplain := readForms_plain source
  rw [h] at hplain
  have hlast : (lastForm forms).Plain :=
    lastForm_of_forall (Value.every_of_parts_nil trivial rfl) hplain
  have hroot := hlast.root
  cases hv : lastForm forms with
  | error message payload =>
    rw [hv] at hroot
    cases hroot
  | _ => rfl

end SmallLisp

import Mathlib.Data.List.TakeWhile
import SmallLisp.Settings

/-! # Values of settings

What every assignment of texts to the variables makes of the settings. A setting has its default
where the text says nothing. A limit written in digits that cannot be read, and a list of paths
that names none, leave a setting without a value.
-/
namespace SmallLisp

namespace Text

variable {separator c : Char} {text piece : List Char}

def IsBlankText (text : List Char) : Prop := ∀ c ∈ text, isBlank c

theorem strip_eq_nil_iff : strip text = [] ↔ IsBlankText text := by
  rw [strip, List.reverse_eq_nil_iff, List.dropWhile_eq_nil_iff]
  constructor
  · intro hrest c hc
    rw [← List.takeWhile_append_dropWhile (p := isBlank) (l := text), List.mem_append] at hc
    rcases hc with hc | hc
    · exact List.mem_takeWhile_imp hc
    · exact hrest c (List.mem_reverse.mpr hc)
  · intro hblank c hc
    exact hblank c (List.dropWhile_sublist _ |>.mem (List.mem_reverse.mp hc))

theorem pieces_cons (separator c : Char) (text : List Char) :
    ∃ piece others, pieces separator text = piece :: others ∧
      pieces separator (c :: text) =
        if c = separator then [] :: piece :: others else (c :: piece) :: others := by
  have hne : pieces separator text ≠ [] := by
    intro hnil
    cases text with
    | nil => exact absurd hnil (List.cons_ne_nil _ _)
    | cons d text =>
      unfold pieces at hnil
      split at hnil
      · exact absurd hnil (List.cons_ne_nil _ _)
      · split at hnil <;> exact absurd hnil (List.cons_ne_nil _ _)
  obtain ⟨piece, others, h⟩ := List.exists_cons_of_ne_nil hne
  refine ⟨piece, others, h, ?_⟩
  rw [pieces, h]

/-- The characters of the pieces are those of the text other than the separator. -/
theorem forall_pieces_iff (P : Char → Prop) :
    (∀ piece ∈ pieces separator text, ∀ c ∈ piece, P c) ↔ ∀ c ∈ text, c = separator ∨ P c := by
  induction text with
  | nil => simp [pieces]
  | cons d text ih =>
    obtain ⟨piece, others, h, hcons⟩ := pieces_cons separator d text
    rw [h] at ih
    rw [hcons, List.forall_mem_cons, ← ih]
    by_cases hd : d = separator
    · simp [hd]
    · simp [hd, and_assoc]

end Text

namespace Settings

open Text

def raw (vars : Variables) (name : String) : List Char := ((vars.lookup name).getD "").toList

variable {vars : Variables} {name : String}

structure IsLimit (text : List Char) : Prop where
  nonempty : text ≠ []
  decimal : ∀ c ∈ text, isDecimal c
  short : text.length ≤ digitLimit

theorem readLimit_of_isLimit {text : List Char} (h : IsLimit text) :
    readLimit text = .ok (decimalNumber text) := by
  have hall : text.all isDecimal := List.all_eq_true.mpr h.decimal
  have hdigits : text.takeWhile isDecimal = text := List.takeWhile_eq_self_iff.mpr h.decimal
  have hshort : ¬ digitLimit < text.length := Nat.not_lt.mpr h.short
  simp only [readLimit, hdigits, if_neg hshort, if_pos hall]

theorem readLimit_fails {text : List Char} (hne : text ≠ []) (h : ¬ IsLimit text) :
    ∃ fault, readLimit text = .error fault := by
  unfold readLimit
  by_cases hlong : digitLimit < (text.takeWhile isDecimal).length
  · exact ⟨_, if_pos hlong⟩
  · rw [if_neg hlong]
    have hdecimal : ¬ text.all isDecimal := by
      intro hall
      have hall : ∀ c ∈ text, isDecimal c := List.all_eq_true.mp hall
      rw [List.takeWhile_eq_self_iff.mpr hall] at hlong
      exact h ⟨hne, hall, Nat.not_lt.mp hlong⟩
    exact ⟨_, if_neg hdecimal⟩

structure LimitIsChosen (text : List Char) (limit : Except SettingFault Nat) : Prop where
  fails_iff : (∃ fault, limit = .error fault) ↔
    text ≠ [] ∧ (∀ c ∈ text, isDigitLike c) ∧ ¬ IsLimit text
  of_isLimit : IsLimit text → limit = .ok (decimalNumber text)
  otherwise : text = [] ∨ (∃ c ∈ text, ¬ isDigitLike c) → limit = .ok 20000

theorem recursionLimit_chosen (vars : Variables) :
    LimitIsChosen (strip (raw vars "MALLET_RECURSION_LIMIT")) (recursionLimit vars) := by
  obtain ⟨text, htext⟩ : ∃ text, text = strip (raw vars "MALLET_RECURSION_LIMIT") := ⟨_, rfl⟩
  have hlimit : recursionLimit vars =
      if !text.isEmpty && text.all isDigitLike then readLimit text else .ok 20000 := by
    rw [htext]
    rfl
  rw [← htext, hlimit]
  by_cases hdigits : text ≠ [] ∧ ∀ c ∈ text, isDigitLike c
  · have hguard : (!text.isEmpty && text.all isDigitLike) = true := by simpa using hdigits
    rw [if_pos hguard]
    refine ⟨⟨?_, ?_⟩, readLimit_of_isLimit, ?_⟩
    · rintro ⟨fault, hfault⟩
      refine ⟨hdigits.1, hdigits.2, fun h => ?_⟩
      rw [readLimit_of_isLimit h] at hfault
      contradiction
    · rintro ⟨hne, -, h⟩
      exact readLimit_fails hne h
    · rintro (rfl | ⟨c, hc, hnot⟩)
      · exact absurd rfl hdigits.1
      · exact absurd (hdigits.2 c hc) hnot
  · have hguard : ¬ (!text.isEmpty && text.all isDigitLike) = true := by simpa using hdigits
    rw [if_neg hguard]
    refine ⟨⟨?_, ?_⟩, fun h => ?_, fun _ => rfl⟩
    · rintro ⟨fault, hfault⟩
      contradiction
    · rintro ⟨hne, hall, -⟩
      exact absurd ⟨hne, hall⟩ hdigits
    · have hall : ∀ c ∈ text, isDigitLike c := fun c hc => by simp [isDigitLike, h.decimal c hc]
      exact absurd ⟨h.nonempty, hall⟩ hdigits

structure PathIsChosen (text : List Char) (path : Except SettingFault (Option Path)) : Prop where
  fails_iff : (∃ fault, path = .error fault) ↔
    text ≠ [] ∧ ∀ c ∈ text, c = ':' ∨ isBlank c
  of_first : ∀ before piece after, pieces ':' text = before ++ piece :: after →
    (∀ p ∈ before, IsBlankText p) → ¬ IsBlankText piece →
    path = .ok (some (Path.ofText (String.ofList (strip piece))))
  otherwise : text = [] → path = .ok none

def named (text : List Char) : List (List Char) :=
  ((pieces ':' text).map strip).filter fun piece => !piece.isEmpty

theorem named_eq_nil_iff {text : List Char} :
    named text = [] ↔ ∀ c ∈ text, c = ':' ∨ isBlank c := by
  calc named text = [] ↔ ∀ piece ∈ pieces ':' text, strip piece = [] := by
        simp [named, List.filter_eq_nil_iff]
    _ ↔ ∀ piece ∈ pieces ':' text, IsBlankText piece := by simp only [strip_eq_nil_iff]
    _ ↔ ∀ c ∈ text, c = ':' ∨ isBlank c := forall_pieces_iff (isBlank ·)

theorem named_of_first {text piece : List Char} {before after : List (List Char)}
    (h : pieces ':' text = before ++ piece :: after) (hbefore : ∀ p ∈ before, IsBlankText p)
    (hpiece : ¬ IsBlankText piece) : ∃ others, named text = strip piece :: others := by
  have hskipped : (before.map strip).filter (fun piece => !piece.isEmpty) = [] := by
    rw [List.filter_eq_nil_iff, List.forall_mem_map]
    intro p hp
    simp [strip_eq_nil_iff.mpr (hbefore p hp)]
  have hkept : (!(strip piece).isEmpty) = true := by
    simpa [strip_eq_nil_iff] using hpiece
  refine ⟨(after.map strip).filter fun piece => !piece.isEmpty, ?_⟩
  rw [named, h, List.map_append, List.filter_append, hskipped, List.nil_append, List.map_cons]
  exact List.filter_cons_of_pos hkept

theorem isEmpty_raw_iff : ((vars.lookup name).getD "").isEmpty = true ↔ raw vars name = [] := by
  rw [raw, String.isEmpty_iff, String.toList_eq_nil_iff]

theorem firstPath_of_empty (h : raw vars name = []) : firstPath vars name = .ok none :=
  if_pos (isEmpty_raw_iff.mpr h)

theorem firstPath_of_nothing (hne : raw vars name ≠ []) (h : named (raw vars name) = []) :
    firstPath vars name = .error .noPath := by
  unfold named raw at h
  rw [firstPath, if_neg fun hempty => hne (isEmpty_raw_iff.mp hempty), h]

theorem firstPath_of_named {piece : List Char} {others : List (List Char)}
    (hne : raw vars name ≠ []) (h : named (raw vars name) = piece :: others) :
    firstPath vars name = .ok (some (Path.ofText (String.ofList piece))) := by
  unfold named raw at h
  rw [firstPath, if_neg fun hempty => hne (isEmpty_raw_iff.mp hempty), h]

theorem firstPath_chosen (vars : Variables) (name : String) :
    PathIsChosen (raw vars name) (firstPath vars name) := by
  by_cases hne : raw vars name = []
  · rw [hne, firstPath_of_empty hne]
    refine ⟨by simp, fun before piece after h _ hpiece => ?_, fun _ => rfl⟩
    have hnil : piece ∈ pieces ':' [] := by rw [h]; exact List.mem_append_cons_self
    exact absurd (by simp [List.mem_singleton.mp hnil, IsBlankText]) hpiece
  · refine ⟨?_, fun before piece after h hbefore hpiece => ?_, fun h => absurd h hne⟩
    · rw [← named_eq_nil_iff]
      cases hnamed : named (raw vars name) with
      | nil => simp [firstPath_of_nothing hne hnamed, hne]
      | cons piece others => simp [firstPath_of_named hne hnamed]
    · obtain ⟨others, hothers⟩ := named_of_first h hbefore hpiece
      exact firstPath_of_named hne hothers

theorem preludeFile_eq (vars : Variables) (files : FileTree) :
    preludeFile vars files = (firstPath vars "MALLET_PRELUDE_PATH").map (Option.map fun path =>
      if files.isDirectory path then path.child "core.mal" else path) := by
  unfold preludeFile
  cases firstPath vars "MALLET_PRELUDE_PATH" with
  | error fault => rfl
  | ok path => cases path <;> rfl

structure LevelIsChosen (name : String) (level : Nat) : Prop where
  of_mem : ∀ entry ∈ logLevels, entry.1 = name → level = entry.2
  otherwise : (∀ entry ∈ logLevels, entry.1 ≠ name) → level = 30

theorem lookup_logLevels (name : String) :
    LevelIsChosen name ((logLevels.lookup name).getD 30) := by
  constructor
  · have hfound : ∀ entry ∈ logLevels, (logLevels.lookup entry.1).getD 30 = entry.2 := by decide
    rintro entry hentry rfl
    exact hfound entry hentry
  · intro hunknown
    have hnone : logLevels.lookup name = none := by
      rw [List.lookup_eq_none_iff]
      exact fun entry hentry => bne_iff_ne.mpr (hunknown entry hentry).symm
    rw [hnone]
    rfl

theorem logLevel_chosen (vars : Variables) :
    LevelIsChosen (String.ofList ((strip (raw vars "MALLET_LOG_LEVEL")).map capital))
      (logLevel vars) := by
  unfold raw logLevel
  cases vars.lookup "MALLET_LOG_LEVEL" with
  | none => exact ⟨by decide, fun _ => by decide⟩
  | some text => exact lookup_logLevels _

/-- Every assignment of texts gives a prompt, a log level and, unless its text is one of those
that are refused, a recursion limit and the paths of two files. A text that says nothing leaves the
default in force. -/
theorem settings_chosen (vars : Variables) (files : FileTree) :
    LimitIsChosen (strip (raw vars "MALLET_RECURSION_LIMIT")) (recursionLimit vars) ∧
    PathIsChosen (raw vars "MALLET_HISTORY_FILE") (historyFile vars) ∧
    (∃ path, PathIsChosen (raw vars "MALLET_PRELUDE_PATH") path ∧
      preludeFile vars files = path.map (Option.map fun path =>
        if files.isDirectory path then path.child "core.mal" else path)) ∧
    LevelIsChosen (String.ofList ((strip (raw vars "MALLET_LOG_LEVEL")).map capital))
      (logLevel vars) ∧
    (∀ text, vars.lookup "MALLET_PROMPT" = some text → prompt vars = text) ∧
    (vars.lookup "MALLET_PROMPT" = none → prompt vars = "user> ") := by
  refine ⟨recursionLimit_chosen vars, firstPath_chosen vars _,
    ⟨_, firstPath_chosen vars _, preludeFile_eq vars files⟩, logLevel_chosen vars, ?_, ?_⟩
  · intro text h
    rw [prompt, h]
    rfl
  · intro h
    rw [prompt, h]
    rfl

/-- A superscript is a digit but no number can be read from it, and a colon names no path. -/
theorem settings_refused :
    let vars := [("MALLET_RECURSION_LIMIT", "²"), ("MALLET_HISTORY_FILE", " : "),
      ("MALLET_PRELUDE_PATH", ":")]
    recursionLimit vars = .error (.notDecimal "²") ∧ historyFile vars = .error .noPath ∧
      preludeFile vars .empty = .error .noPath := by
  decide

end Settings

end SmallLisp

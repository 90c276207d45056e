import SmallLisp.Proofs.CallRules
import SmallLisp.Proofs.Loading

/-! # The bundled prelude

The text of the bundled prelude is six definitions. A session that is started with it binds `cond`,
`or` and the generator of names, beside the builtins that these use.
-/
namespace SmallLisp

def longerThan (n : Int) : Value :=
  .ofList [.symbol ">", .ofList [.symbol "count", .symbol "xs"], .int n]

def oddClauses : Value := .str "odd number of forms to cond"

def condSelected : Value :=
  .ofList [.symbol "if", longerThan 1, .ofList [.symbol "nth", .symbol "xs", .int 1],
    .ofList [.symbol "throw", oddClauses]]

def condOthers : Value :=
  .ofList [.symbol "cons", .ofList [.symbol "quote", .symbol "cond"],
    .ofList [.symbol "rest", .ofList [.symbol "rest", .symbol "xs"]]]

def condBody : Value :=
  .ofList [.symbol "if", longerThan 0,
    .ofList [.symbol "list", .ofList [.symbol "quote", .symbol "if"],
      .ofList [.symbol "first", .symbol "xs"], condSelected, condOthers]]

def successorBody : Value := .ofList [.symbol "+", .int 1, .symbol "x"]

def successor : Value := .ofList [.symbol "fn*", .ofVector [.symbol "x"], successorBody]

def countingForm : Value := .ofList [.symbol "swap!", .symbol "*gensym-counter*", successor]

def generatorBody : Value :=
  .ofList [.symbol "symbol", .ofList [.symbol "str", .str "G__", countingForm]]

def unquoted (form : Value) : Value := .ofList [.symbol "unquote", form]

def orBinding : Value :=
  .ofList [unquoted (.symbol "condvar"), unquoted (.ofList [.symbol "first", .symbol "xs"])]

def orOthers : Value :=
  .ofList [.symbol "or", .ofList [.symbol "splice-unquote", .ofList [.symbol "rest", .symbol "xs"]]]

/-- The code that evaluates the first form once and, if it does not hold, the others. -/
def orTemplate : Value :=
  .ofList [.symbol "let*", orBinding,
    .ofList [.symbol "if", unquoted (.symbol "condvar"), unquoted (.symbol "condvar"), orOthers]]

def orSeveral : Value :=
  .ofList [.symbol "let*", .ofList [.symbol "condvar", .ofList [.symbol "gensym"]],
    .ofList [.symbol "quasiquote", orTemplate]]

def orSome : Value :=
  .ofList [.symbol "if", .ofList [.symbol "=", .int 1, .ofList [.symbol "count", .symbol "xs"]],
    .ofList [.symbol "first", .symbol "xs"], orSeveral]

def orBody : Value :=
  .ofList [.symbol "if", .ofList [.symbol "empty?", .symbol "xs"], .nil, orSome]

def expanderDefinition (name : String) (body : Value) : Value :=
  .ofList [.symbol "defmacro!", .symbol name,
    .ofList [.symbol "fn*", .ofList [.symbol "&", .symbol "xs"], body]]

def preludeForms : List Value :=
  [.ofList [.symbol "def!", .symbol "not", .ofList [.symbol "fn*", .ofList [.symbol "a"],
      .ofList [.symbol "if", .symbol "a", .bool false, .bool true]]],
    loaderDefinition,
    expanderDefinition "cond" condBody,
    .ofList [.symbol "def!", .symbol "*gensym-counter*", .ofList [.symbol "atom", .int 0]],
    .ofList [.symbol "def!", .symbol "gensym",
      .ofList [.symbol "fn*", .ofVector [], generatorBody]],
    expanderDefinition "or" orBody]

set_option maxRecDepth 40000 in
theorem readForms_bundledPrelude : readForms bundledPrelude = .ok preludeForms := by
  -- a list of characters can be evaluated, which the text itself cannot in reasonable time
  rw [readForms, tokenize, show bundledPrelude = String.ofList _ from rfl, String.toList_ofList]
  rfl

def condBuiltins : List PlainBuiltin :=
  [.number .greater, .collection .count, .collection .list, .collection .first, .collection .nth,
    .collection .cons, .collection .rest, .state .throwValue]

def orBuiltins : List PlainBuiltin :=
  [.collection .isEmpty, .collection .equal, .collection .count, .collection .first,
    .collection .rest, .collection .cons, .collection .concat, .label .symbol, .text .printPlain,
    .call .swap, .number .add]

/-- `cond` is the expander of the prelude in the scope, and what it uses has its first meaning in
the global scope. -/
structure Store.HasClauses (store : Store) (scope : Scope) (home : FrameId) : Prop where
  expands : store.Expands scope "cond" home condBody
  offers : ∀ op ∈ condBuiltins, store.Offers (.global home) op

structure Store.HasGenerator (store : Store) (home : FrameId) (counter : CellId) : Prop where
  generator : ∃ id metadata, store.lookup? (.global home) "gensym" =
    some (.closure id ⟨[], none⟩ generatorBody (.global home) false metadata)
  counter : store.lookup? (.global home) "*gensym-counter*" = some (.atom counter)
  offers : ∀ op ∈ orBuiltins, store.Offers (.global home) op

structure Store.HasAlternatives (store : Store) (scope : Scope) (home : FrameId)
    (counter : CellId) : Prop extends store.HasGenerator home counter where
  expands : store.Expands scope "or" home orBody

theorem Store.Expands.of_lookup {name : String} {scope : Scope} {store store' : Store}
    {home : FrameId} {body : Value} (h : store.Expands scope name home body)
    (hlookup : store'.lookup? scope name = store.lookup? scope name) :
    store'.Expands scope name home body := by
  rw [Store.Expands, hlookup]
  exact h

theorem Store.HasClauses.of_lookup {scope : Scope} {store store' : Store} {home : FrameId}
    (h : store.HasClauses scope home)
    (hcond : store'.lookup? scope "cond" = store.lookup? scope "cond")
    (hglobal : ∀ name, store'.lookup? (.global home) name = store.lookup? (.global home) name) :
    store'.HasClauses scope home :=
  ⟨h.expands.of_lookup hcond, fun op hop => (h.offers op hop).of_lookup (hglobal op.name)⟩

theorem Store.HasGenerator.of_lookup {store store' : Store} {home : FrameId} {counter : CellId}
    (h : store.HasGenerator home counter)
    (hglobal : ∀ name, store'.lookup? (.global home) name = store.lookup? (.global home) name) :
    store'.HasGenerator home counter where
  generator := hglobal "gensym" ▸ h.generator
  counter := hglobal "*gensym-counter*" ▸ h.counter
  offers := fun op hop => (h.offers op hop).of_lookup (hglobal op.name)

theorem Store.HasAlternatives.of_lookup {scope scope' : Scope} {store store' : Store}
    {home : FrameId} {counter : CellId} (h : store.HasAlternatives scope home counter)
    (hor : store'.lookup? scope' "or" = store.lookup? scope "or")
    (hglobal : ∀ name, store'.lookup? (.global home) name = store.lookup? (.global home) name) :
    store'.HasAlternatives scope' home counter where
  toHasGenerator := h.toHasGenerator.of_lookup hglobal
  expands := by
    rw [Store.Expands, hor]
    exact h.expands

variable {run : Runner} {vars : Variables} {arguments : List String} {scope : Scope}
  {store store' store'' : Store} {v : Value}

theorem loadPrelude_of_source {name source : String}
    (hsource : preludeSource vars store = .ok (name, source) store')
    (h : evaluateText run scope source store' = .ok v store'') (hv : v.isError = false) :
    loadPrelude run vars scope store = .ok () store'' := by
  simp only [loadPrelude, Bind.bind, EStateM.bind, hsource, StartM.ofEval, h]
  cases v with
  | error => cases hv
  | _ => rfl

theorem start_of_prelude {limit : Nat} (hlimit : Settings.recursionLimit vars = .ok limit)
    (hlarge : limit ≤ greatestRecursionLimit)
    (hopen : openGlobal arguments store = .ok scope store')
    (hload : loadPrelude run vars scope store' = .ok () store'') :
    Session.start run vars arguments true store =
      .ok ⟨run, scope, (store''.frame scope.here).names⟩ store'' := by
  have hglobal : buildGlobal run vars arguments true store = .ok scope store'' := by
    simp only [buildGlobal, Bind.bind, EStateM.bind, StartM.ofEval, hopen, if_true, hload]
    rfl
  simp only [Session.start, hlimit, StartM.ofSetting, if_neg (Nat.not_lt.mpr hlarge), pure_bind]
  simp only [Bind.bind, EStateM.bind, hglobal]
  rfl

theorem start_bundled {files : FileTree} {input : String} {clock : Int}
    (hopen : openGlobal arguments (.initial files input clock) = .ok scope store)
    (hforms : evaluateForms run scope preludeForms store = .ok v store') (hv : v.isError = false) :
    Session.start run [] arguments true (.initial files input clock) =
      .ok ⟨run, scope, (store'.frame scope.here).names⟩ store' := by
  have htext : evaluateText run scope bundledPrelude store = .ok v store' := by
    rw [evaluateText, readForms_bundledPrelude]
    exact hforms
  have hsource : preludeSource [] store = .ok (bundledPreludeName, bundledPrelude) store := rfl
  exact start_of_prelude rfl (by decide) hopen (loadPrelude_of_source hsource htext hv)

theorem exists_start_bundled :
    ∃ session store home counter,
      Session.start (Limits.runner ⟨9, 9⟩) [] [] true (.initial .empty "" 0) = .ok session store ∧
        session.scope = .global home ∧ store.HasClauses session.scope home ∧
        store.HasAlternatives session.scope home counter ∧
        store.heap.content counter = .int 0 := by
  refine ⟨_, _, _, _, start_bundled rfl rfl rfl, rfl, ⟨⟨_, _, rfl⟩, ?_⟩,
    ⟨⟨⟨_, _, rfl⟩, rfl, ?_⟩, ⟨_, _, rfl⟩⟩, rfl⟩
  · decide +kernel
  · decide +kernel

end SmallLisp

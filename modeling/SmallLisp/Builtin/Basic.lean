/-! # Names of the builtin functions

Builtins come in families by what they need: the first four only look at their arguments, the
others use the store, and the last family calls functions.
-/
namespace SmallLisp

inductive NumberOp where
  | add | subtract | multiply | divide
  | less | lessEqual | greater | greaterEqual
deriving DecidableEq, Repr

inductive KindTest where
  | isNil | isTrue | isFalse | isSymbol | isKeyword | isString | isNumber
  | isFunction | isExpander | isList | isVector | isSequential | isTable | isAtom
deriving DecidableEq, Repr

inductive CollectionOp where
  | equal | isEmpty | count
  | list | vector | vec | cons | concat | nth | first | rest | conj | seq
  | table | assoc | dissoc | get | contains | keys | vals
deriving DecidableEq, Repr

inductive LabelOp where
  | symbol | keyword | metadata
deriving DecidableEq, Repr

inductive TextOp where
  | printReadable | printPlain | printLineReadable | printLinePlain
  | readForm | readFile | readLine
deriving DecidableEq, Repr

inductive StateOp where
  | atom | deref | reset | withMetadata | throwValue | time
deriving DecidableEq, Repr

inductive CallOp where
  | map | swap | eval
deriving DecidableEq, Repr

inductive PlainBuiltin where
  | number (op : NumberOp)
  | test (op : KindTest)
  | collection (op : CollectionOp)
  | label (op : LabelOp)
  | text (op : TextOp)
  | state (op : StateOp)
  | call (op : CallOp)
deriving DecidableEq, Repr

inductive Builtin where
  | plain (op : PlainBuiltin)
  | apply
deriving DecidableEq, Repr

def NumberOp.name : NumberOp → String
  | add => "+"
  | subtract => "-"
  | multiply => "*"
  | divide => "/"
  | less => "<"
  | lessEqual => "<="
  | greater => ">"
  | greaterEqual => ">="

def KindTest.name : KindTest → String
  | isNil => "nil?"
  | isTrue => "true?"
  | isFalse => "false?"
  | isSymbol => "symbol?"
  | isKeyword => "keyword?"
  | isString => "string?"
  | isNumber => "number?"
  | isFunction => "fn?"
  | isExpander => "macro?"
  | isList => "list?"
  | isVector => "vector?"
  | isSequential => "sequential?"
  | isTable => "map?"
  | isAtom => "atom?"

def CollectionOp.name : CollectionOp → String
  | equal => "="
  | isEmpty => "empty?"
  | count => "count"
  | list => "list"
  | vector => "vector"
  | vec => "vec"
  | cons => "cons"
  | concat => "concat"
  | nth => "nth"
  | first => "first"
  | rest => "rest"
  | conj => "conj"
  | seq => "seq"
  | table => "hash-map"
  | assoc => "assoc"
  | dissoc => "dissoc"
  | get => "get"
  | contains => "contains?"
  | keys => "keys"
  | vals => "vals"

def LabelOp.name : LabelOp → String
  | symbol => "symbol"
  | keyword => "keyword"
  | metadata => "meta"

def TextOp.name : TextOp → String
  | printReadable => "pr-str"
  | printPlain => "str"
  | printLineReadable => "prn"
  | printLinePlain => "println"
  | readForm => "read-string"
  | readFile => "slurp"
  | readLine => "readline"

def StateOp.name : StateOp → String
  | atom => "atom"
  | deref => "deref"
  | reset => "reset!"
  | withMetadata => "with-meta"
  | throwValue => "throw"
  | time => "time-ms"

def CallOp.name : CallOp → String
  | map => "map"
  | swap => "swap!"
  | eval => "eval"

def PlainBuiltin.name : PlainBuiltin → String
  | number op => op.name
  | test op => op.name
  | collection op => op.name
  | label op => op.name
  | text op => op.name
  | state op => op.name
  | call op => op.name

namespace Builtin

def name : Builtin → String
  | plain op => op.name
  | apply => "apply"

def numeric : List PlainBuiltin :=
  [.number .add, .number .subtract, .number .multiply, .number .divide, .collection .equal,
   .number .less, .number .lessEqual, .number .greater, .number .greaterEqual,
   .collection .isEmpty, .collection .count,
   .test .isNil, .test .isTrue, .test .isFalse, .test .isSymbol, .test .isKeyword,
   .test .isString, .test .isNumber, .test .isFunction, .test .isExpander, .test .isList,
   .test .isVector, .test .isSequential, .test .isTable, .test .isAtom]

/-- The builtins on sequences, `apply` left out. -/
def sequences : List PlainBuiltin :=
  [.collection .list, .collection .vector, .collection .vec, .collection .cons,
   .collection .concat, .collection .nth, .collection .first, .collection .rest,
   .collection .conj, .collection .seq, .call .map]

def others : List PlainBuiltin :=
  [.collection .table, .collection .assoc, .collection .dissoc, .collection .get,
   .collection .contains, .collection .keys, .collection .vals,
   .text .printReadable, .text .printPlain, .text .printLineReadable, .text .printLinePlain,
   .text .readForm, .text .readFile, .text .readLine,
   .state .atom, .state .deref, .state .reset, .call .swap, .label .metadata,
   .state .withMetadata, .label .symbol, .label .keyword, .state .throwValue, .state .time,
   .call .eval]

/-- Every builtin, in the order in which a new global frame binds them. -/
def all : List Builtin :=
  numeric.map .plain ++ sequences.map .plain ++ [.apply] ++ others.map .plain

end Builtin

end SmallLisp

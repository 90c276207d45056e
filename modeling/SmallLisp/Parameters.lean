import SmallLisp.Fault

/-! # Parameter lists

A parameter list names the positional parameters and, after the rest marker `&`, the parameter
that takes all remaining arguments as a list.
-/
namespace SmallLisp

def restMarker : String := "&"

def symbolNames? : List Value → Option (List String)
  | [] => some []
  | .symbol name :: vs => (symbolNames? vs).map (name :: ·)
  | _ => none

namespace Parameters

/-- The parameters that a list of names declares. The first rest marker must stand directly
before the last name, and that name must not be the marker again. -/
def ofNames (names : List String) : Except KindFault Parameters :=
  match names.dropWhile (· ≠ restMarker) with
  | [] => .ok ⟨names, none⟩
  | [_, rest] =>
    if rest = restMarker then .error .restMarker
    else .ok ⟨names.takeWhile (· ≠ restMarker), some rest⟩
  | _ => .error .restMarker

def ofValue (declared : Value) : Except KindFault Parameters :=
  match declared with
  | .list items _ _ | .vector items _ _ =>
    match symbolNames? items with
    | some names => ofNames names
    | none => .error .parameterNotSymbol
  | _ => .error .parametersNotSequence

/-- The names and values that a call binds, in order. A name that occurs twice is bound twice.
The identity is for the list of the remaining arguments. -/
def bind (parameters : Parameters) (identity : Identity) (arguments : List Value) :
    Except CountFault (List (String × Value)) :=
  if arguments.length < parameters.names.length then .error .tooFew
  else
    match parameters.rest with
    | none =>
      if parameters.names.length < arguments.length then .error .tooMany
      else .ok (parameters.names.zip arguments)
    | some rest =>
      let extra := arguments.drop parameters.names.length
      .ok (parameters.names.zip arguments ++ [(rest, .list extra .nil (some identity))])

end Parameters

end SmallLisp

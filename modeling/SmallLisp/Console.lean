import SmallLisp.Text.Pieces

/-! # The console

Everything that is written goes to the console, and lines of input come from it. It belongs to the
world outside, which may fail at either: what each request for a line comes to and which texts are
refused is given with the console. A refused text is not written at all, also not in part.
-/
namespace SmallLisp

inductive ConsoleFaultKind where
  | undecodable
  | unencodable
  | refused
  | closed
  /-- There is no input to read from. -/
  | missing
deriving DecidableEq, Repr

structure ConsoleFault where
  kind : ConsoleFaultKind
  message : String
deriving DecidableEq, Repr

inductive LineReply where
  | line (text : String)
  | ended
  | failed (fault : ConsoleFault)

structure Console where
  output : String
  /-- The replies to the next requests for a line. After them the input has ended. -/
  replies : List LineReply
  /-- The fault of writing a text after what has been written before, if it is refused. -/
  refusal? : String → String → Option ConsoleFault

namespace Console

def ofLines (lines : List (List Char)) : Console :=
  ⟨"", lines.map fun line => .line (String.ofList line), fun _ _ => none⟩

def ofText (text : String) : Console :=
  let lines := Text.pieces '\n' text.toList
  ofLines (if lines.getLast? = some [] then lines.dropLast else lines)

def ofFault (fault : ConsoleFault) : Console := ⟨"", [.failed fault], fun _ _ => none⟩

def reply (console : Console) : LineReply := console.replies.headD .ended

def skipReply (console : Console) : Console := { console with replies := console.replies.tail }

def write (console : Console) (text : String) : Console :=
  { console with output := console.output ++ text }

/-- A console that may still come to a fault. -/
def CanFail (console : Console) (fault : ConsoleFault) : Prop :=
  .failed fault ∈ console.replies ∨
    ∃ written text, console.refusal? written text = some fault

variable {console : Console} {fault : ConsoleFault}

theorem canFail_of_skipReply (h : console.skipReply.CanFail fault) : console.CanFail fault :=
  h.imp_left List.mem_of_mem_tail

theorem canFail_of_reply (h : console.reply = .failed fault) : console.CanFail fault := by
  left
  unfold reply at h
  cases hreplies : console.replies with
  | nil =>
    rw [hreplies] at h
    cases h
  | cons reply replies =>
    rw [hreplies] at h
    cases h
    exact List.mem_cons_self

theorem canFail_of_refusal {text : String}
    (h : console.refusal? console.output text = some fault) : console.CanFail fault :=
  .inr ⟨_, _, h⟩

end Console

end SmallLisp

import SmallLisp.Proofs.ErrorContainment

/-! # How an evaluation may end

A mistake that a special form, a function or the reader finds never leaves an evaluation as a
fault: it has become an error value on the way. What leaves it besides a value is a thrown value,
or one of the conditions that no program can catch, which then has its reason. The console belongs
to the host. Where it fails, its own fault leaves the evaluation, and where it works, none does.
-/
namespace SmallLisp

end SmallLisp

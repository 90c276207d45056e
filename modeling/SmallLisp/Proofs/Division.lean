import Mathlib.Algebra.BigOperators.Group.List.Basic
import Mathlib.Algebra.BigOperators.Ring.List
import Mathlib.Tactic.Ring
import SmallLisp.Proofs.CallRules

/-! # Chained division

Division by several integers in turn is one division by their product. It is rounded toward zero
at every step, and the order of the divisors does not matter.
-/
namespace SmallLisp

/-- The quotient is rounded toward zero: what remains is smaller than the divisor, and it is zero
or has the sign of the dividend. -/
def IsQuotient (n d q : Int) : Prop :=
  ∃ r, n = q * d + r ∧ r.natAbs < d.natAbs ∧ (r = 0 ∨ r.sign = n.sign)

variable {n d q q' : Int} {ds : List Int}

theorem IsQuotient.unique (h : IsQuotient n d q) (h' : IsQuotient n d q') : q = q' := by
  obtain ⟨r, hn, hr, hsign⟩ := h
  obtain ⟨r', hn', hr', hsign'⟩ := h'
  have hdiff : r' - r = d * (q - q') := by
    have hboth : q * d + r = q' * d + r' := hn.symm.trans hn'
    calc r' - r = q' * d + r' - (q' * d + r) := by ring
      _ = q * d + r - (q' * d + r) := by rw [hboth]
      _ = d * (q - q') := by ring
  -- both remainders lie on the same side of zero
  have hsmall : (r' - r).natAbs < d.natAbs := by
    rcases lt_trichotomy n 0 with hneg | rfl | hpos
    · rw [Int.sign_eq_neg_one_of_neg hneg, Int.sign_eq_neg_one_iff_neg] at hsign hsign'
      omega
    · rw [Int.sign_zero, Int.sign_eq_zero_iff_zero] at hsign hsign'
      omega
    · rw [Int.sign_eq_one_of_pos hpos, Int.sign_eq_one_iff_pos] at hsign hsign'
      omega
  have hzero : r' - r = 0 :=
    Int.eq_zero_of_dvd_of_natAbs_lt_natAbs (Dvd.intro _ hdiff.symm) hsmall
  have hd : d ≠ 0 := by omega
  rw [hzero] at hdiff
  rcases Int.mul_eq_zero.mp hdiff.symm with h | h
  · exact absurd h hd
  · omega

theorem isQuotient_tdiv (hd : d ≠ 0) : IsQuotient n d (n.tdiv d) := by
  refine ⟨n.tmod d, (Int.tdiv_mul_add_tmod n d).symm, ?_, ?_⟩
  · rw [Int.natAbs_tmod]
    exact Nat.mod_lt _ (Int.natAbs_pos.mpr hd)
  · rw [← Int.sign_eq_zero_iff_zero, Int.sign_tmod]
    by_cases h : d ∣ n
    · exact .inl (if_pos h)
    · exact .inr (if_neg h)

/-- Two roundings toward zero are one. -/
theorem tdiv_tdiv (n d e : Int) : (n.tdiv d).tdiv e = n.tdiv (d * e) := by
  have hnat : ∀ n d e : Nat, ((n : Int).tdiv d).tdiv e = (n : Int).tdiv (d * e) := by
    intro n d e
    rw [← Int.natCast_mul]
    simp only [← Int.ofNat_tdiv, Nat.div_div_eq_div_mul]
  obtain ⟨n, rfl | rfl⟩ := n.eq_nat_or_neg <;> obtain ⟨d, rfl | rfl⟩ := d.eq_nat_or_neg <;>
    obtain ⟨e, rfl | rfl⟩ := e.eq_nat_or_neg <;>
    simp only [Int.neg_tdiv, Int.tdiv_neg, Int.neg_mul, Int.mul_neg, Int.neg_neg, hnat]

theorem signedQuotient_eq_tdiv (n d : Int) : signedQuotient n d = n.tdiv d := by
  have hnonneg : ∀ m : Int, ¬ m < 0 → ∃ a : Nat, m = a := fun m hm => ⟨m.natAbs, by omega⟩
  have hneg : ∀ m : Int, m < 0 → ∃ a : Nat, m = -a := fun m hm => ⟨m.natAbs, by omega⟩
  unfold signedQuotient
  by_cases hn : n < 0
  · by_cases hd : d < 0
    · rw [if_pos (iff_of_true hn hd)]
      obtain ⟨a, rfl⟩ := hneg n hn
      obtain ⟨b, rfl⟩ := hneg d hd
      simp [Int.neg_tdiv, Int.tdiv_neg]
    · rw [if_neg fun h => hd (h.mp hn)]
      obtain ⟨a, rfl⟩ := hneg n hn
      obtain ⟨b, rfl⟩ := hnonneg d hd
      simp [Int.neg_tdiv]
  · by_cases hd : d < 0
    · rw [if_neg fun h => hn (h.mpr hd)]
      obtain ⟨a, rfl⟩ := hnonneg n hn
      obtain ⟨b, rfl⟩ := hneg d hd
      simp [Int.tdiv_neg]
    · rw [if_pos (iff_of_false hn hd)]
      obtain ⟨a, rfl⟩ := hnonneg n hn
      obtain ⟨b, rfl⟩ := hnonneg d hd
      simp

/-- A zero among the divisors is found, whatever the quotient is by then. -/
theorem divideAll_eq (n : Int) (ds : List Int) :
    divideAll n ds = if 0 ∈ ds then .error .divisionByZero else .ok (n.tdiv ds.prod) := by
  induction ds generalizing n with
  | nil => simp [divideAll, pure, Except.pure]
  | cons d ds ih =>
    have hcons : divideAll n (d :: ds) = quotient n d >>= fun q => divideAll q ds := rfl
    by_cases hd : d = 0
    · subst hd
      rw [hcons, quotient, if_pos rfl, if_pos List.mem_cons_self]
      rfl
    · have hmem : 0 ∈ d :: ds ↔ 0 ∈ ds := by simp [Ne.symm hd]
      rw [hcons, quotient, if_neg hd, signedQuotient_eq_tdiv]
      simp only [hmem, List.prod_cons, ← tdiv_tdiv]
      exact ih (n.tdiv d)

theorem integers?_map (ns : List Int) : integers? (ns.map .int) = some ns := by
  induction ns with
  | nil => rfl
  | cons n ns ih => simp [integers?, ih]

theorem apply_divide (n : Int) (hds : ds ≠ []) :
    NumberOp.divide.apply (.int n :: ds.map .int) = (divideAll n ds).map .int := by
  cases ds with
  | nil => contradiction
  | cons d ds =>
    have hall : integers? (.int n :: (d :: ds).map .int) = some (n :: d :: ds) :=
      integers?_map (n :: d :: ds)
    simp only [NumberOp.apply, hall]
    rfl

theorem apply_divide_single (v : Value) :
    NumberOp.divide.apply [v] = NumberOp.divide.apply [.int 1, v] := by
  cases v with
  | int d =>
    have hone : NumberOp.divide.apply [.int 1, .int d] = (divideAll 1 [d]).map .int :=
      apply_divide 1 (List.cons_ne_nil d [])
    have hsame : divideAll 1 [d] = quotient 1 d := bind_pure (quotient 1 d)
    rw [hone, hsame]
    rfl
  | _ => rfl

def NumberOp.ending (op : NumberOp) (vs : List Value) (store : Store) :
    EStateM.Result Failure Store Value :=
  match op.apply vs with
  | .ok v => .ok v store
  | .error fault => EvalM.errorOf fault store

theorem ends_number (op : NumberOp) (vs : List Value) (store : Store) (id : Identity)
    (home : FrameId) (metadata : Value) :
    (Task.call (.native id (.plain (.number op)) home metadata) vs).Ends store
      (op.ending vs store) := by
  unfold NumberOp.ending
  cases happly : op.apply vs with
  | ok v =>
    have hfinal : ¬ Exhausted (.ok v store : EStateM.Result Failure Store Value) := not_false
    refine ends_plain hfinal fun run home => ?_
    simp only [PlainBuiltin.apply, happly]
    rfl
  | error fault =>
    have hfinal : ¬ Exhausted (.error (.fault fault) store : EStateM.Result Failure Store Value) :=
      not_false
    refine ends_plain hfinal fun run home => ?_
    simp only [PlainBuiltin.apply, happly]
    rfl

section Forms

variable {scope : Scope} {store store' : Store} {forms forms' vs vs' : List Value}
  {metadata : Value} {identity : Option Identity}

theorem ends_division (h : store.Offers scope (.number .divide))
    (hforms : Evaluated scope forms store vs store') (metadata : Value)
    (identity : Option Identity) :
    (Task.evaluate (.list (.symbol "/" :: forms) metadata identity) scope).Ends store
      (NumberOp.divide.ending vs store') :=
  h.ends_call hforms fun id home m => ends_number .divide vs store' id home m

/-- Forms whose values are divided alike end alike. -/
theorem ends_division_iff (h : store.Offers scope (.number .divide))
    (hforms : Evaluated scope forms store vs store')
    (hforms' : Evaluated scope forms' store vs' store')
    (hsame : NumberOp.divide.apply vs = NumberOp.divide.apply vs')
    (result : EStateM.Result Failure Store Value) :
    (Task.evaluate (.list (.symbol "/" :: forms) metadata identity) scope).Ends store result ↔
      (Task.evaluate (.list (.symbol "/" :: forms') metadata identity) scope).Ends store
        result := by
  have hending : NumberOp.divide.ending vs store' = NumberOp.divide.ending vs' store' := by
    unfold NumberOp.ending
    rw [hsame]
  have hends := ends_division h hforms metadata identity
  have hends' := ends_division h hforms' metadata identity
  rw [hending] at hends
  constructor
  · intro hresult
    rw [hresult.unique hends]
    exact hends'
  · intro hresult
    rw [hresult.unique hends']
    exact hends

/-- Division by several integers, none of them zero, has the quotient by their product as its
value, so that their order does not matter. A zero anywhere among them makes an error value. With a
single argument, one is divided by it. -/
theorem division_chained (h : store.Offers scope (.number .divide)) :
    (∀ (n : Int) (ds : List Int) forms metadata identity store', ds ≠ [] →
      Evaluated scope forms store (.int n :: ds.map .int) store' →
      let form := Value.list (.symbol "/" :: forms) metadata identity
      ((∀ d ∈ ds, d ≠ 0) → ∃ q, IsQuotient n ds.prod q ∧
        (Task.evaluate form scope).Ends store (.ok (.int q) store')) ∧
      (0 ∈ ds → (Task.evaluate form scope).Ends store
        (.ok (.error "Division by zero" none) store')) ∧
      ∀ (ds' : List Int) forms', ds'.Perm ds →
        Evaluated scope forms' store (.int n :: ds'.map .int) store' → ∀ result,
        (Task.evaluate (.list (.symbol "/" :: forms') metadata identity) scope).Ends store result ↔
          (Task.evaluate form scope).Ends store result) ∧
    ∀ v form metadata identity store', Evaluated scope [form] store [v] store' → ∀ result,
      (Task.evaluate (.list [.symbol "/", form] metadata identity) scope).Ends store result ↔
        (Task.evaluate (.list [.symbol "/", .int 1, form] metadata identity) scope).Ends store
          result := by
  constructor
  · intro n ds forms metadata identity store' hds hforms
    have hends := ends_division h hforms metadata identity
    rw [NumberOp.ending, apply_divide n hds, divideAll_eq] at hends
    refine ⟨fun hnonzero => ?_, fun hzero => ?_, fun ds' forms' hperm hforms' result => ?_⟩
    · have hmem : 0 ∉ ds := fun hmem => hnonzero 0 hmem rfl
      rw [if_neg hmem] at hends
      exact ⟨n.tdiv ds.prod, isQuotient_tdiv (List.prod_ne_zero hmem), hends⟩
    · rw [if_pos hzero] at hends
      exact hends
    · refine ends_division_iff h hforms' hforms ?_ result
      have hds' : ds' ≠ [] := fun hnil => hds (List.nil_perm.mp (hnil ▸ hperm))
      rw [apply_divide n hds', apply_divide n hds, divideAll_eq, divideAll_eq, hperm.prod_eq]
      simp only [hperm.mem_iff]
  · intro v form metadata identity store' hform result
    exact ends_division_iff h hform (.cons (ends_constant rfl) rfl hform) (apply_divide_single v)
      result

/-- Seven is negative and is divided by two and by minus one, in both orders, and also by zero. -/
theorem division_chained_signs :
    let store := (Store.initial .empty "" 0).addFrame
      [("/", .native 0 (.plain (.number .divide)) 0 .nil)]
    let scope := Scope.global 0
    let form := fun ns : List Int => Value.ofList (.symbol "/" :: ns.map .int)
    store.Offers scope (.number .divide) ∧
      (Task.evaluate (form [-7, 2, -1]) scope).Ends store (.ok (.int 3) store) ∧
      (Task.evaluate (form [-7, -1, 2]) scope).Ends store (.ok (.int 3) store) ∧
      (Task.evaluate (form [1, 2, 0]) scope).Ends store
        (.ok (.error "Division by zero" none) store) ∧
      ∃ result, (Task.evaluate (form [-1]) scope).Ends store result ∧
        (Task.evaluate (form [1, -1]) scope).Ends store result := by
  intro store scope form
  have h : store.Offers scope (.number .divide) := ⟨0, 0, .nil, rfl⟩
  have hconstants : ∀ ns : List Int,
      Evaluated scope (ns.map .int) store (ns.map .int) store := by
    intro ns
    induction ns with
    | nil => exact .nil store
    | cons n ns ih => exact .cons (ends_constant rfl) rfl ih
  obtain ⟨hchained, hsingle⟩ := division_chained h
  obtain ⟨hquotient, -, horder⟩ := hchained (-7) [2, -1] _ .nil none store (by decide)
    (hconstants [-7, 2, -1])
  obtain ⟨q, hq, hends⟩ := hquotient (by decide)
  have hthree : q = 3 := hq.unique ⟨-1, by decide⟩
  subst hthree
  have hswapped := (horder [-1, 2] _ (.swap 2 (-1) []) (hconstants [-7, -1, 2]) _).mpr hends
  obtain ⟨-, hzero, -⟩ := hchained 1 [2, 0] _ .nil none store (by decide) (hconstants [1, 2, 0])
  have hone := ends_division h (hconstants [-1]) .nil none
  exact ⟨h, hends, hswapped, hzero (by decide), _, hone,
    (hsingle _ _ .nil none store (hconstants [-1]) _).mp hone⟩

end Forms

end SmallLisp

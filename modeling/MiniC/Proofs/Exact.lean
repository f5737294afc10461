import MiniC.Evaluate

/-! Arithmetic of integers is exact or refused. The guard of a power looks at a width that the power
exceeds in any case, so it refuses nothing that would fit, and what it lets through is less than
twice as wide as allowed. A tree of integers is folded to its exact value, unless some node is too
wide or a remainder over zero; then the first such node, operands before their operator and left
before right, says why. -/

namespace MiniC

namespace Number

section Width

theorem lt_bitLength_iff {n : Int} {bits : Nat} : bits < bitLength n ↔ 2 ^ bits ≤ n.natAbs := by
  rw [← Nat.not_le, bitLength_le_iff, Nat.not_lt]

theorem powerWidth_of_pos {a : Int} (ha : 0 < bitLength a) (n : Nat) :
    powerWidth a n = ((bitLength a - 1) * n : Nat) := by
  simp only [powerWidth, Int.natCast_mul, Int.natCast_sub ha]
  rfl

theorem powerWidth_lt (a : Int) (n : Nat) : powerWidth a n < bitLength (a ^ n) := by
  by_cases ha : a = 0
  -- Without a bit to its name, zero has a least width below zero.
  · cases n with
    | zero => simp [powerWidth, bitLength]
    | succ n =>
      simp [ha, powerWidth, bitLength]
      omega
  · have hpos : 0 < bitLength a := lt_bitLength_iff.2 (Int.natAbs_pos.2 ha)
    have hbase : 2 ^ (bitLength a - 1) ≤ a.natAbs := lt_bitLength_iff.1 (Nat.sub_one_lt_of_lt hpos)
    have hpower : (bitLength a - 1) * n < bitLength (a ^ n) := by
      rw [lt_bitLength_iff, Int.natAbs_pow, Nat.pow_mul]
      exact Nat.pow_le_pow_left hbase n
    rw [powerWidth_of_pos hpos]
    omega

/-- The guard changes nothing: what it refuses would be refused for its width. -/
theorem power_int (maxBits a : Int) (n : Nat) :
    power maxBits (.int a) (.int n) = bounded maxBits (.int (a ^ n)) := by
  have hlt := powerWidth_lt a n
  simp only [power, Int.toNat_natCast, intPower_eq]
  rw [if_neg (by omega)]
  split
  · rw [bounded, if_pos (by omega)]
  · rfl

end Width

theorem remainder_int (a : Int) {b : Int} (hb : b ≠ 0) :
    remainder (.int a) (.int b) = .ok (.int (a.tmod b)) := by
  simp only [remainder, truncDiv_eq a hb, Int.tmod_def]
  rfl

end Number

def BinaryOp.exactValue? : BinaryOp → Int → Int → Option Int
  | add, a, b => some (a + b)
  | sub, a, b => some (a - b)
  | mul, a, b => some (a * b)
  | mod, a, b => if b = 0 then none else some (a.tmod b)
  | pow, a, b => if b < 0 then none else some (a ^ b.toNat)
  | _, _, _ => none

namespace Expr

def exactValue? : Expr → Option Int
  | .number (.int n) _ => some n
  | .unary .neg e => e.exactValue?.map (- ·)
  | .unary .pos e => e.exactValue?
  | .binary op l r => l.exactValue?.bind fun a => r.exactValue?.bind (op.exactValue? a)
  | _ => none

def postorder : Expr → List Expr
  | .unary op e => e.postorder ++ [.unary op e]
  | .binary op l r => l.postorder ++ (r.postorder ++ [.binary op l r])
  | e => [e]

/-- Why a node cannot be given its value, if that is so: a remainder is over zero, or the exact
value of another operation is too wide. -/
def offence? : Expr → Option Number.Fault
  | .binary .mod _ r => if r.exactValue? = some 0 then some .moduloByZero else none
  | .binary op l r =>
    if (binary op l r).exactValue?.any fun v => decide (Evaluate.maxBits < Number.bitLength v) then
      some (.tooWide Evaluate.maxBits)
    else none
  | _ => none

/-- Integers under signs, sums, differences, products, remainders and powers, in which no exponent
has a negative exact value. -/
inductive Whole : Expr → Prop
  | number (n : Int) (mark : Nat) : Whole (.number (.int n) mark)
  | sign {op : UnaryOp} {e : Expr} : op ≠ .not → Whole e → Whole (.unary op e)
  | operation {op : BinaryOp} {l r : Expr} : op ∈ [BinaryOp.add, .sub, .mul, .mod] →
      Whole l → Whole r →
      Whole (.binary op l r)
  | power {l r : Expr} : Whole l → Whole r → (∀ v, r.exactValue? = some v → 0 ≤ v) →
      Whole (.binary .pow l r)

end Expr

namespace Evaluate

open Number

/-- How folding a tree ends, if it is told what the first offence in it is and what its exact value:
at the depth of nesting, with the value if there is no offence, or with the offence. -/
inductive Settles (offence? : Option Number.Fault) (value? : Option Int) :
    Except Fault Number → Prop
  | deep : Settles offence? value? (.error .tooDeep)
  | exact {v : Int} : offence? = none → value? = some v → Settles offence? value? (.ok (.int v))
  | refused {f : Number.Fault} : offence? = some f → Settles offence? value? (.error (.number f))

theorem settles_bounded {op : BinaryOp} {l r : Expr} {v : Int} (hop : op ≠ .mod)
    (hv : (Expr.binary op l r).exactValue? = some v) :
    Settles (Expr.binary op l r).offence? (Expr.binary op l r).exactValue?
      (lift (bounded maxBits (.int v))) := by
  have hoffence : (Expr.binary op l r).offence? =
      if maxBits < bitLength v then some (.tooWide maxBits) else none := by
    cases op with
    | mod => exact absurd rfl hop
    | _ => simp [Expr.offence?, hv]
  by_cases hwide : maxBits < bitLength v
  · rw [bounded, if_pos (by omega)]
    exact .refused (by rw [hoffence, if_pos hwide])
  · rw [bounded, if_neg (by omega)]
    exact .exact (by rw [hoffence, if_neg hwide]) hv

section Node

variable {l r : Expr} {a b : Int} (hl : l.exactValue? = some a) (hr : r.exactValue? = some b)
include hl hr

theorem exactValue?_binary (op : BinaryOp) :
    (Expr.binary op l r).exactValue? = op.exactValue? a b := by
  simp [Expr.exactValue?, hl, hr]

theorem settles_operation {op : BinaryOp} (hop : op ∈ [BinaryOp.add, .sub, .mul, .mod]) :
    Settles (Expr.binary op l r).offence? (Expr.binary op l r).exactValue?
      (binary op (.int a) (.int b)) := by
  have hexact := exactValue?_binary hl hr
  simp only [List.mem_cons, List.not_mem_nil, or_false] at hop
  rcases hop with rfl | rfl | rfl | rfl
  · exact settles_bounded (by decide) (hexact .add)
  · exact settles_bounded (by decide) (hexact .sub)
  · exact settles_bounded (by decide) (hexact .mul)
  · simp only [binary, isZero_int, hexact, Expr.offence?, hr, BinaryOp.exactValue?]
    by_cases hb : b = 0
    · simp only [hb, decide_true, if_true]
      exact .refused rfl
    · simp only [hb, decide_false, Bool.false_eq_true, if_false, remainder_int a hb, lift]
      exact .exact (by simp [hb]) rfl

theorem settles_power (hb : 0 ≤ b) :
    Settles (Expr.binary .pow l r).offence? (Expr.binary .pow l r).exactValue?
      (binary .pow (.int a) (.int b)) := by
  obtain ⟨n, rfl⟩ := Int.eq_ofNat_of_zero_le hb
  have hexact : (Expr.binary .pow l r).exactValue? = some (a ^ n) := by
    rw [exactValue?_binary hl hr, BinaryOp.exactValue?, if_neg (by omega), Int.toNat_natCast]
  have hbinary : binary .pow (.int a) (.int n) = lift (bounded maxBits (.int (a ^ n))) :=
    congrArg lift (power_int maxBits a n)
  rw [hbinary]
  exact settles_bounded (by decide) hexact

end Node

end Evaluate

namespace Expr

def firstOffence? (e : Expr) : Option Number.Fault := e.postorder.findSome? offence?

theorem offence?_cases {e : Expr} {f : Number.Fault} (h : e.offence? = some f) :
    f = .tooWide Evaluate.maxBits ∨ f = .moduloByZero := by
  unfold offence? at h
  repeat' split at h
  all_goals cases h
  · exact .inr rfl
  · exact .inl rfl

theorem firstOffence?_unary (op : UnaryOp) (e : Expr) :
    (unary op e).firstOffence? = e.firstOffence? := by
  simp [firstOffence?, postorder, offence?]

theorem firstOffence?_binary (op : BinaryOp) (l r : Expr) :
    (binary op l r).firstOffence? =
      l.firstOffence?.or (r.firstOffence?.or (binary op l r).offence?) := by
  simp [firstOffence?, postorder, List.findSome?_append]

end Expr

namespace Evaluate

theorem Settles.unary {op : UnaryOp} (hop : op ≠ .not) {e : Expr} {x : Except Fault Number}
    (h : Settles e.firstOffence? e.exactValue? x) :
    Settles (Expr.unary op e).firstOffence? (Expr.unary op e).exactValue?
      (x >>= Evaluate.unary op) := by
  rw [Expr.firstOffence?_unary]
  cases h with
  | deep => exact .deep
  | refused hf => exact .refused hf
  | exact hnone hv =>
    cases op with
    | neg => exact .exact hnone (by rw [Expr.exactValue?, hv]; rfl)
    | pos => exact .exact hnone hv
    | not => exact absurd rfl hop

theorem Settles.binary {op : BinaryOp} {l r : Expr} {x y : Except Fault Number}
    (hx : Settles l.firstOffence? l.exactValue? x) (hy : Settles r.firstOffence? r.exactValue? y)
    (h : ∀ a b, l.exactValue? = some a → r.exactValue? = some b →
    Settles (Expr.binary op l r).offence? (Expr.binary op l r).exactValue?
    (Evaluate.binary op (.int a) (.int b))) :
    Settles (Expr.binary op l r).firstOffence? (Expr.binary op l r).exactValue?
      (x >>= fun a => y >>= fun b => Evaluate.binary op a b) := by
  rw [Expr.firstOffence?_binary]
  cases hx with
  | deep => exact .deep
  | refused hf => exact .refused (by rw [hf, Option.some_or])
  | exact hl ha =>
    rw [hl, Option.none_or]
    cases hy with
    | deep => exact .deep
    | refused hf => exact .refused (by rw [hf, Option.some_or])
    | exact hr hb =>
      rw [hr, Option.none_or]
      exact h _ _ ha hb

theorem settles_expr {e : Expr} (he : e.Whole) (n : Nat) :
    Settles e.firstOffence? e.exactValue? (expr n e) := by
  induction n generalizing e with
  | zero => exact .deep
  | succ n ih =>
    cases he with
    | number v mark => exact .exact rfl rfl
    | sign hop he => exact (ih he).unary hop
    | operation hop hl hr =>
      exact (ih hl).binary (ih hr) fun a b ha hb => settles_operation ha hb hop
    | power hl hr hexp =>
      exact (ih hl).binary (ih hr) fun a b ha hb => settles_power ha hb (hexp b hb)

/-- Folding a tree of integers gives its exact value if no node is an offence. If there is one, the
first of them, operands before their operator and left before right, is what it is refused for: an
integer too wide or a remainder over zero. -/
theorem tree_exact_or_refused {e : Expr} (he : e.Whole) (hdeep : tree (.expr e) ≠ .error .tooDeep) :
    ((∀ x ∈ e.postorder, x.offence? = none) → ∃ v, e.exactValue? = some v ∧
      tree (.expr e) = .ok (.int v)) ∧
    ∀ before x behind f, e.postorder = before ++ x :: behind → (∀ y ∈ before, y.offence? = none) →
      x.offence? = some f → tree (.expr e) = .error (.number f) ∧
        (f = .tooWide 4096 ∧ (Fault.number f).category = .integerWidth ∨
          f = .moduloByZero ∧ (Fault.number f).category = .divisionByZero) := by
  have h : Settles e.firstOffence? e.exactValue? (tree (.expr e)) := settles_expr he budget
  generalize tree (.expr e) = result at h hdeep ⊢
  constructor
  · intro hall
    have hnone : e.firstOffence? = none := List.findSome?_eq_none_iff.2 hall
    cases h with
    | deep => exact absurd rfl hdeep
    | exact _ hv => exact ⟨_, hv, rfl⟩
    | refused hf =>
      rw [hnone] at hf
      cases hf
  · intro before x behind f hsplit hbefore hf
    have hsome : e.firstOffence? = some f :=
      List.findSome?_eq_some_iff.2 ⟨before, x, behind, hsplit, hf, hbefore⟩
    cases h with
    | deep => exact absurd rfl hdeep
    | exact hnone _ =>
      rw [hsome] at hnone
      cases hnone
    | refused hf' =>
      rw [hsome] at hf'
      cases hf'
      refine ⟨rfl, ?_⟩
      rcases Expr.offence?_cases hf with rfl | rfl
      · exact .inl ⟨rfl, rfl⟩
      · exact .inr ⟨rfl, rfl⟩

theorem whole_power (a : Int) (n m m' : Nat) :
    (Expr.binary .pow (.number (.int a) m) (.number (.int n) m')).Whole := by
  refine .power (.number _ _) (.number _ _) ?_
  intro v hv
  cases hv
  exact Int.natCast_nonneg n

def widest : Expr :=
  .binary .add (.binary .pow (.number (.int 2) 0) (.number (.int 4095) 1))
    (.binary .sub (.binary .pow (.number (.int 2) 2) (.number (.int 4095) 3)) (.number (.int 1) 4))

theorem whole_widest : widest.Whole :=
  .operation (by decide) (whole_power 2 4095 0 1)
    (.operation (by decide) (whole_power 2 4095 2 3) (.number 1 4))

def twoOffences : Expr :=
  .binary .mod (.binary .pow (.number (.int 2) 0) (.number (.int 4096) 1))
    (.binary .mod (.number (.int 7) 2) (.number (.int 0) 3))

theorem whole_twoOffences : twoOffences.Whole :=
  .operation (by decide) (whole_power 2 4096 0 1)
    (.operation (by decide) (.number 7 2) (.number 0 3))

theorem tree_exact_or_refused_widest :
    widest.Whole ∧ widest.exactValue? = some (2 ^ 4096 - 1) ∧
      tree (.expr widest) = .ok (.int (2 ^ 4096 - 1)) ∧
      twoOffences.Whole ∧ tree (.expr twoOffences) = .error (.number (.tooWide 4096)) := by
  have hvalue : widest.exactValue? = some (2 ^ 4096 - 1) := by decide +kernel
  have hok : (tree (.expr widest)).isOk = true := by decide +kernel
  have hwidest : tree (.expr widest) ≠ .error .tooDeep := by
    intro h
    rw [h] at hok
    cases hok
  have hrefused : tree (.expr twoOffences) = .error (.number (.tooWide 4096)) := rfl
  obtain ⟨v, hv, htree⟩ := (tree_exact_or_refused whole_widest hwidest).1 (by decide +kernel)
  rw [← Option.some.inj (hvalue.symm.trans hv)] at htree
  have hfirst := (tree_exact_or_refused whole_twoOffences (by simp [hrefused])).2
    (twoOffences.postorder.take 2) _ (twoOffences.postorder.drop 3) (.tooWide 4096) rfl (by decide)
      (by decide +kernel)
  exact ⟨whole_widest, hvalue, htree, whole_twoOffences, hfirst.1⟩

end Evaluate

end MiniC

import MiniC.Evaluate
import MiniC.Proofs.Actions

/-! Bare arithmetic has two evaluators: the one that folds a tree to a number, and the machine,
which counts steps and keeps a state. They divide differently. On trees without division they give
the same number, or fault at the same node for the same reason; only the words in front of an
unexpected fault differ. -/

namespace MiniC

/-! No text of a number holds a capital, so a message that begins with a number does not begin with
the words in front of an unexpected fault. -/

namespace Decimal

theorem isDigit_of_mem_ofUnits {n : Nat} {e : Int} {c : Char}
    (h : c ∈ (Digits.ofUnits n e).digits) :
    c.isDigit = true := by
  simp only [Digits.ofUnits, List.mem_reverse] at h
  have hmem := (List.dropWhile_sublist _).subset h
  rw [List.mem_reverse] at hmem
  exact Nat.isDigit_of_mem_toDigits (by omega) (by omega) hmem

theorem isDigit_of_mem_shortestFrom (bits : Nat) (f : Fraction) (point : Int) (fuel count : Nat)
    {c : Char} (h : c ∈ (shortestFrom bits f point fuel count).digits) : c.isDigit = true := by
  induction fuel generalizing count with
  | zero => exact isDigit_of_mem_ofUnits h
  | succ fuel ih =>
    unfold shortestFrom at h
    extract_lets e u near low far at h
    split at h
    · exact isDigit_of_mem_ofUnits h
    · split at h
      · exact isDigit_of_mem_ofUnits h
      · exact ih (count + 1) h

section Layout

variable {ds : List Char} (hd : 'A' ∉ ds)
include hd

theorem not_mem_positional (point : Int) : 'A' ∉ positional ⟨ds, point⟩ := by
  have htake (n : Nat) : 'A' ∉ ds.take n := fun h => hd (List.mem_of_mem_take h)
  have hdrop (n : Nat) : 'A' ∉ ds.drop n := fun h => hd (List.mem_of_mem_drop h)
  simp only [positional]
  by_cases h0 : point ≤ 0
  · simp [h0, zeros, hd]
  · by_cases hl : ds.length ≤ point.toNat
    · simp [h0, hl, zeros, hd]
    · simp [h0, hl, htake, hdrop]

theorem not_mem_scientific (e : Int) : 'A' ∉ scientific 'e' false ds e := by
  have htake : 'A' ∉ ds.take 1 := fun h => hd (List.mem_of_mem_take h)
  have htail : 'A' ∉ ds.tail := fun h => hd (List.mem_of_mem_tail h)
  have hexp : 'A' ∉ digitsOf e.natAbs := fun h =>
    absurd (Nat.isDigit_of_mem_toDigits (by omega) (by omega) h) (by decide)
  have hsign : 'A' ≠ if e < 0 then '-' else '+' := by split <;> decide
  simp only [scientific, pointed, exponentText, zeros]
  by_cases ht : ds.tail = []
  · simp [ht, htake, hexp, hsign]
  · simp [ht, htake, htail, hexp, hsign]

end Layout

theorem not_mem_text (x : Float) : 'A' ∉ (text x).toList := by
  have hdigits : 'A' ∉ (shortest x).digits := by
    intro h
    exact absurd (isDigit_of_mem_shortestFrom _ _ _ _ _ h) (by decide)
  unfold text
  cases parts x with
  | nan => simp
  | infinite negative => cases negative <;> simp [signText]
  | finite negative m e =>
    have hsign : 'A' ∉ signText negative := by cases negative <;> decide
    by_cases hm : m = 0
    · simp [hm, hsign]
    · by_cases hp : isPositional (shortest x) = true
      · simp [hm, hp, hsign, not_mem_positional hdigits (shortest x).point]
      · simp [hm, hp, hsign, not_mem_scientific hdigits]

end Decimal

theorem Number.not_mem_text (n : Number) : 'A' ∉ n.text.toList := by
  have hnat (k : Nat) : 'A' ∉ k.repr.toList := by
    rw [Nat.repr_eq_ofList_toDigits, String.toList_ofList]
    intro h
    exact absurd (Nat.isDigit_of_mem_toDigits (by omega) (by omega) h) (by decide)
  cases n with
  | float x => exact Decimal.not_mem_text x
  | int k =>
    rw [Number.text, Int.toString_eq_repr]
    cases k with
    | ofNat k => exact hnat k
    | negSucc k =>
      rw [Int.repr, String.toList_append, List.mem_append, not_or]
      exact ⟨by decide, hnat _⟩

namespace Number

def Quotes (x : Except Fault Number) : Prop :=
  ∀ l r, x = .error (.notReal l r) → ∃ n : Number, l = n.text

theorem quotes_bounded (maxBits : Int) (n : Number) : Quotes (bounded maxBits n) := by
  intro l r h
  cases n with
  | float x => cases h
  | int k =>
    by_cases hk : maxBits < bitLength k
    · simp [bounded, hk] at h
    · simp [bounded, hk] at h

theorem toFloat_error {n : Number} {f : Fault} (h : n.toFloat = .error f) :
    f = .integerTooLarge := by
  cases n with
  | float x => cases h
  | int k =>
    unfold toFloat at h
    cases hk : Decimal.ofInt? k with
    | some x => simp [hk] at h
    | none => simpa [hk] using h.symm

theorem quotes_toFloats (a b : Number) {k : Float × Float → Except Fault Number}
    (hk : ∀ p, Quotes (k p)) :
    Quotes (toFloats a b >>= k) := by
  intro l r h
  cases ha : a.toFloat with
  | error f =>
    rw [toFloats, ha] at h
    cases h
    cases toFloat_error ha
  | ok x =>
    cases hb : b.toFloat with
    | error f =>
      rw [toFloats, ha, hb] at h
      cases h
      cases toFloat_error hb
    | ok y =>
      rw [toFloats, ha, hb] at h
      exact hk (x, y) l r h

theorem Quotes.of_operands {f : Number → Number → Except Fault Number}
    {k : Float × Float → Except Fault Number} (hk : ∀ p, Quotes (k p))
    (hint : ∀ m n, Quotes (f (.int m) (.int n)))
    (hleft : ∀ x b, f (.float x) b = toFloats (.float x) b >>= k)
    (hright : ∀ m y, f (.int m) (.float y) = toFloats (.int m) (.float y) >>= k) (a b : Number) :
    Quotes (f a b) := by
  cases a with
  | float x =>
    rw [hleft]
    exact quotes_toFloats _ _ hk
  | int m =>
    cases b with
    | float y =>
      rw [hright]
      exact quotes_toFloats _ _ hk
    | int n => exact hint m n

theorem Quotes.of_bounded {maxBits : Int} {f : Number → Number → Except Fault Number}
    (op : Int → Int → Int) (floatOp : Float → Float → Float)
    (hint : ∀ m n, f (.int m) (.int n) = bounded maxBits (.int (op m n)))
    (hleft : ∀ x b, f (.float x) b =
      toFloats (.float x) b >>= fun p => return .float (floatOp p.1 p.2))
    (hright : ∀ m y, f (.int m) (.float y) =
      toFloats (.int m) (.float y) >>= fun p => return .float (floatOp p.1 p.2))
    (a b : Number) : Quotes (f a b) := by
  apply Quotes.of_operands _ _ hleft hright
  · intro p l r h
    cases h
  · intro m n
    rw [hint]
    exact quotes_bounded maxBits _

theorem floatRemainder_error {x y : Float} {f : Fault} (h : floatRemainder x y = .error f) :
    f = .remainderUndefined := by
  unfold floatRemainder at h
  split at h
  · cases h
  · cases h
  · exact (Except.error.inj h).symm
  · cases h
  · split at h
    · exact (Except.error.inj h).symm
    · cases h

theorem quotes_remainder (a b : Number) : Quotes (remainder a b) := by
  apply Quotes.of_operands _ _ (fun _ _ => rfl) (fun _ _ => rfl)
  · rintro ⟨x, y⟩ l r h
    cases hr : floatRemainder x y with
    | ok z =>
      simp only [hr] at h
      cases h
    | error f =>
      simp only [hr] at h
      cases h
      cases floatRemainder_error hr
  · intro m n l r h
    by_cases hn : n = 0
    · simp only [remainder, truncDiv, hn, if_true] at h
      cases h
    · simp only [remainder, truncDiv, hn, if_false] at h
      cases h

theorem quotes_realPower (a b : Number) : Quotes (realPower a b) := by
  apply quotes_toFloats
  rintro ⟨x, y⟩ l r h
  dsimp only at h
  cases hp : floatPower x y with
  | ok z =>
    rw [hp] at h
    cases h
  | error f =>
    rw [hp] at h
    cases f with
    | notReal =>
      cases h
      exact ⟨a, rfl⟩
    | _ => cases h

theorem quotes_power (maxBits : Int) (a b : Number) : Quotes (power maxBits a b) := by
  cases a with
  | float x => exact quotes_realPower _ b
  | int m =>
    cases b with
    | float y => exact quotes_realPower _ _
    | int n =>
      simp only [power]
      split
      · exact quotes_realPower _ _
      · split
        · intro l r h
          cases h
        · exact quotes_bounded _ _

end Number

namespace Expr

inductive DivisionFree : Expr → Prop
  | number (n : Number) (mark : Nat) : DivisionFree (.number n mark)
  | sign {op : UnaryOp} {e : Expr} : op ≠ .not → DivisionFree e → DivisionFree (.unary op e)
  | operation {op : BinaryOp} {l r : Expr} : op ∈ [BinaryOp.add, .sub, .mul, .mod, .pow] →
      DivisionFree l → DivisionFree r → DivisionFree (.binary op l r)

def nodes : Expr → Nat
  | .unary _ e => e.nodes + 1
  | .binary _ l r => l.nodes + r.nodes + 1
  | _ => 1

end Expr

theorem Evaluate.Fault.evaluation_mem_ancestry (f : Evaluate.Fault) :
    .evaluation ∈ f.category.ancestry := by
  cases f with
  | number f =>
    cases f <;> simp [category, Number.Fault.category?, Category.ancestry, Category.parent?]
  | _ => simp [category, Category.ancestry, Category.parent?]

/-- A message of evaluation in the words of execution, which has other words in front of an
unexpected fault. -/
def Evaluate.inExecution (message : String) : String :=
  let lead := "Arithmetic error: ".toList
  if lead.isPrefixOf message.toList then "Execution error: " ++ String.ofList
    (message.toList.drop lead.length)
  else message

theorem Evaluate.inExecution_lead (s : String) :
    inExecution ("Arithmetic error: " ++ s) = "Execution error: " ++ s := by
  have hlead :
      "Arithmetic error: ".toList.isPrefixOf ("Arithmetic error: " ++ s).toList = true := by
    rw [List.isPrefixOf_iff_prefix, String.toList_append]
    exact List.prefix_append _ _
  unfold inExecution
  rw [if_pos hlead, String.toList_append, List.drop_left, String.ofList_toList]

theorem Evaluate.inExecution_of_head {s : String} (h : s.toList.head? ≠ some 'A') :
    inExecution s = s := by
  have hlead : ¬"Arithmetic error: ".toList.isPrefixOf s.toList = true := by
    intro hp
    obtain ⟨t, ht⟩ := List.isPrefixOf_iff_prefix.1 hp
    rw [← ht] at h
    exact h rfl
  unfold inExecution
  rw [if_neg hlead]

namespace Machine

theorem quotes_arithmetic (maxBits : Nat) {op : BinaryOp} (hop : op ≠ .div) (a b : Number) :
    Number.Quotes (Exec.arithmetic maxBits op a b) := by
  cases op with
  | add => exact .of_bounded (· + ·) (· + ·) (fun _ _ => rfl) (fun _ _ => rfl) (fun _ _ => rfl) a b
  | sub => exact .of_bounded (· - ·) (· - ·) (fun _ _ => rfl) (fun _ _ => rfl) (fun _ _ => rfl) a b
  | mul => exact .of_bounded (· * ·) (· * ·) (fun _ _ => rfl) (fun _ _ => rfl) (fun _ _ => rfl) a b
  | div => exact absurd rfl hop
  | mod =>
    simp only [Exec.arithmetic]
    split
    · intro l r h
      cases h
    · exact Number.quotes_remainder a b
  | _ => exact Number.quotes_power maxBits a b

theorem head_message {f : Number.Fault} {c : Category} (hc : f.category? = some c)
    (hf : ∀ l r, f = .notReal l r → ∃ n : Number, l = n.text) :
    f.message.toList.head? ≠ some 'A' := by
  cases f with
  | notReal l r =>
    obtain ⟨n, rfl⟩ := hf l r rfl
    have hmem := n.not_mem_text
    change (n.text ++ " ^ " ++ r ++ " has no real value").toList.head? ≠ _
    simp only [String.toList_append, List.append_assoc, List.head?_append]
    cases hn : n.text.toList with
    | nil => simp
    | cons d ds =>
      rw [hn, List.mem_cons, not_or] at hmem
      simpa using fun h => hmem.1 h.symm
  | divisionByZero => decide
  | moduloByZero => decide
  | tooWide bits =>
    change ("Integer result exceeds " ++ toString bits ++ " bits").toList.head? ≠ _
    simp [String.toList_append]
  | _ => cases hc

/-- The two evaluators tell of a fault in the same words, those in front apart. -/
theorem report_number {f : Number.Fault} (hf : ∀ l r, f = .notReal l r → ∃ n : Number, l = n.text) :
    (Fault.number f).report = Evaluate.inExecution (Evaluate.Fault.number f).message := by
  have hunexpected : (Fault.number f).isUnexpected = f.category?.isNone := rfl
  have hmessage : (Fault.number f).message = f.message := rfl
  have hevaluate : (Evaluate.Fault.number f).message =
    if f.category?.isSome then f.message else "Arithmetic error: " ++ f.message := rfl
  rw [Fault.report, hevaluate, hunexpected, hmessage]
  cases hc : f.category? with
  | none =>
    rw [if_pos Option.isNone_none, if_neg (by simp)]
    exact (Evaluate.inExecution_lead f.message).symm
  | some c =>
    rw [if_neg (by simp), if_pos Option.isSome_some]
    exact (Evaluate.inExecution_of_head (head_message hc hf)).symm

open Exec

/-- How the two evaluators end: neither tells anything if it is nested too deep, else both give the
same number, the machine after some steps, or both fault alike. -/
inductive Agrees (steps : Nat) :
    Except Evaluate.Fault Number → EStateM.Result Fault State Value → Prop
  | deep {y : EStateM.Result Fault State Value} : Agrees steps (.error .tooDeep) y
  | deepRun {x : Except Evaluate.Fault Number} {t : State} : Agrees steps x (.error .tooDeep t)
  | number {n : Number} {o : Option Origin} {t : State} :
      t.steps = steps → Agrees steps (.ok n) (.ok (.number n o) t)
  | fault {f : Number.Fault} {t : State} : (∀ l r, f = .notReal l r → ∃ n : Number, l = n.text) →
      Agrees steps (.error (.number f)) (.error (.number f) t)

theorem Agrees.bind {k m : Nat} {x : Except Evaluate.Fault Number} {a : Exec Value} {s : State}
    (h : Agrees k x (a s)) {f : Number → Except Evaluate.Fault Number} {g : Value → Exec Value}
    (hf : ∀ n o t, t.steps = k → Agrees m (f n) (g (.number n o) t)) :
    Agrees m (x >>= f) ((a >>= g) s) := by
  generalize ha : a s = y at h
  cases h with
  | deep => exact .deep
  | deepRun =>
    rw [bind_of_error ha]
    exact .deepRun
  | number ht =>
    rw [bind_of_ok ha]
    exact hf _ _ _ ht
  | fault hq =>
    rw [bind_of_error ha]
    exact .fault hq

theorem agrees_computed {k : Nat} (n : Number) {s : State} (hs : s.steps = k) :
    Agrees k (.ok n) (computed n s) := by
  cases hn : n.isNaN with
  | true =>
    have hc : computed n s = .ok (.number n (some (.computed s.fresh)))
        { s with fresh := s.fresh + 1 } := by
      simp only [computed, hn, if_true, Value.ofNumber]
      rfl
    rw [hc]
    exact .number hs
  | false =>
    have hc : computed n s = .ok (.number n none) s := by
      simp only [computed, hn]
      rfl
    rw [hc]
    exact .number hs

theorem agrees_liftNumber {k : Nat} {x : Except Number.Fault Number} (hx : Number.Quotes x)
    {s : State} (hs : s.steps = k) :
    Agrees k (Evaluate.lift x) ((liftNumber x >>= computed) s) := by
  cases x with
  | ok n => exact agrees_computed n hs
  | error f => exact .fault fun l r hf => hx l r (by rw [hf])

theorem evaluate_binary {op : BinaryOp} (hop : op ∈ [BinaryOp.add, .sub, .mul, .mod, .pow])
    (a b : Number) :
    Evaluate.binary op a b = Evaluate.lift (arithmetic Evaluate.maxBits op a b) := by
  simp only [List.mem_cons, List.not_mem_nil, or_false] at hop
  rcases hop with rfl | rfl | rfl | rfl | rfl
  · rfl
  · rfl
  · rfl
  · simp only [Evaluate.binary, arithmetic]
    split <;> rfl
  · rfl

theorem agrees_binary {cfg : Bounds} (hb : cfg.maxIntBits = Evaluate.maxBits) {op : BinaryOp}
    (hop : op ∈ [BinaryOp.add, .sub, .mul, .mod, .pow]) (a b : Number) (o o' : Option Origin)
    {k : Nat} {s : State} (hs : s.steps = k) :
    Agrees k (Evaluate.binary op a b) (binary cfg op (.number a o) (.number b o') s) := by
  have harith : op.isArithmetic = true ∧ op ≠ .div := by
    revert op
    decide
  rw [evaluate_binary hop, ← hb]
  unfold binary
  rw [if_pos harith.1]
  exact agrees_liftNumber (quotes_arithmetic _ harith.2 a b) hs

theorem agrees_of_succ {cfg : Bounds} {k : Nat} {e : Expr} {s : State}
    (h : ∀ n m, Agrees k (Evaluate.expr (n + 1) e) ((runner cfg (m + 1)).eval e s)) (n m : Nat) :
    Agrees k (Evaluate.expr n e) ((runner cfg m).eval e s) := by
  cases n with
  | zero => exact .deep
  | succ n =>
    cases m with
    | zero => exact .deepRun
    | succ m => exact h n m

/-- With steps to spare for every node, the evaluators agree on a tree from any state and under any
two budgets. -/
theorem agrees_eval {cfg : Bounds} (hb : cfg.maxIntBits = Evaluate.maxBits) {e : Expr}
    (he : e.DivisionFree) (n m : Nat) {s : State} (hs : s.steps + e.nodes ≤ cfg.maxSteps) :
    Agrees (s.steps + e.nodes) (Evaluate.expr n e) ((runner cfg m).eval e s) := by
  induction he generalizing n m s with
  | number v mark =>
    apply agrees_of_succ
    intro n m
    change Agrees _ (.ok v)
      ((tick cfg (runner cfg m).levels >>= fun _ => pure (.ofNumber v (.literal mark))) s)
    rw [bind_of_ok (tick_of_le hs _)]
    exact .number rfl
  | @sign op e hop he ih =>
    rw [Expr.nodes] at hs ⊢
    apply agrees_of_succ
    intro n m
    change Agrees _ (Evaluate.expr n e >>= Evaluate.unary op)
      ((tick cfg (runner cfg m).levels >>= fun _ => (runner cfg m).eval e >>= Runner.unary op) s)
    rw [bind_of_ok (tick_of_le (by omega) _)]
    apply (ih n m (s := { s with steps := s.steps + 1 }) (by simp only; omega)).bind
    intro v o t ht
    have hsteps : t.steps = s.steps + (e.nodes + 1) := by simp only at ht; omega
    cases op with
    | neg => exact agrees_computed v.neg hsteps
    | pos => exact .number hsteps
    | not => exact absurd rfl hop
  | @operation op l r hop hl hr ihl ihr =>
    have hoperator (m : Nat) : (runner cfg m).operator cfg op l r =
        (runner cfg m).eval l >>= fun v => (runner cfg m).eval r >>= fun w =>
          binary cfg op v w := by
      simp only [List.mem_cons, List.not_mem_nil, or_false] at hop
      rcases hop with rfl | rfl | rfl | rfl | rfl <;> rfl
    rw [Expr.nodes] at hs ⊢
    apply agrees_of_succ
    intro n m
    change Agrees _ (Evaluate.expr n l >>= fun a => Evaluate.expr n r >>= Evaluate.binary op a)
      ((tick cfg (runner cfg m).levels >>= fun _ => (runner cfg m).operator cfg op l r) s)
    rw [bind_of_ok (tick_of_le (by omega) _), hoperator]
    apply (ihl n m (s := { s with steps := s.steps + 1 }) (by simp only; omega)).bind
    intro a o t ht
    simp only at ht
    apply (ihr n m (s := t) (by omega)).bind
    intro b o' u hu
    exact agrees_binary hb hop a b o o' (by omega)

theorem agrees_tree {cfg : Bounds} (hb : cfg.maxIntBits = Evaluate.maxBits) {e : Expr}
    (he : e.DivisionFree) (hs : e.nodes ≤ cfg.maxSteps) :
    Evaluate.tree (.expr e) = .error .tooDeep ∨ (execute cfg (.expr e)).fault = some .tooDeep ∨
      (∃ n, Evaluate.tree (.expr e) = .ok n ∧ (execute cfg (.expr e)).result.fault = none ∧
        (execute cfg (.expr e)).result.returnValue = some (.number n)) ∨
      ∃ f, Evaluate.tree (.expr e) = .error f ∧
        (execute cfg (.expr e)).result.fault = some (Evaluate.inExecution f.message) := by
  have h : Agrees _ (Evaluate.tree (.expr e)) ((runner cfg cfg.levels).eval e .initial) :=
    agrees_eval hb he Evaluate.budget cfg.levels (s := .initial) (by simpa [State.initial] using hs)
  generalize Evaluate.tree (.expr e) = x at h ⊢
  generalize hy : (runner cfg cfg.levels).eval e .initial = y at h
  have hrun : runTree cfg (runner cfg cfg.levels) (.expr e) .initial =
    ((runner cfg cfg.levels).eval e >>= fun v =>
      modify fun s => { s with returnValue := some v }) .initial := rfl
  cases h with
  | deep => exact .inl rfl
  | deepRun =>
    rw [bind_of_error hy] at hrun
    rw [execute_of_error hrun]
    exact .inr (.inl rfl)
  | @number n o t ht =>
    rw [bind_of_ok hy] at hrun
    rw [execute_of_ok hrun]
    exact .inr (.inr (.inl ⟨n, rfl, rfl, rfl⟩))
  | @fault f t hq =>
    rw [bind_of_error hy] at hrun
    rw [execute_of_error hrun]
    exact .inr (.inr (.inr ⟨.number f, rfl, congrArg some (report_number hq)⟩))

/-- Outside division the two evaluators agree: one gives a number exactly if the other returns it,
and one fails with a message exactly if the other reports it in its own words. -/
theorem evaluate_iff_execute {cfg : Bounds} {e : Expr} (he : e.DivisionFree)
    (hb : cfg.maxIntBits = 4096) (hs : e.nodes ≤ cfg.maxSteps)
    (hdeep : Evaluate.tree (.expr e) ≠ .error .tooDeep)
    (hdeepRun : (execute cfg (.expr e)).fault ≠ some .tooDeep) :
    (∀ n, Evaluate.tree (.expr e) = .ok n ↔ (execute cfg (.expr e)).result.succeeded = true ∧
      (execute cfg (.expr e)).result.returnValue = some (.number n)) ∧
    ∀ m, (∃ f, Evaluate.tree (.expr e) = .error f ∧ .evaluation ∈ f.category.ancestry ∧
      Evaluate.inExecution f.message = m) ↔ (execute cfg (.expr e)).result.fault = some m := by
  rcases agrees_tree hb he hs with h | h | ⟨n, hn, hnone, hvalue⟩ | ⟨f, hf, hfault⟩
  · exact absurd h hdeep
  · exact absurd h hdeepRun
  · rw [hn, hnone, hvalue]
    constructor
    · intro k
      simp [Result.succeeded, hnone]
    · intro m
      simp
  · rw [hf, hfault]
    constructor
    · intro k
      simp [Result.succeeded, hfault]
    · intro m
      simp [f.evaluation_mem_ancestry]

def leftOver (d : Int) : Expr :=
  .binary .mod
    (.binary .mul (.binary .pow (.number (.int 2) 0) (.number (.int 12) 1))
      (.unary .neg (.number (.int 3) 2)))
    (.binary .sub (.number (.int d) 3) (.number (.int 5) 4))

theorem divisionFree_leftOver (d : Int) : (leftOver d).DivisionFree :=
  .operation (by decide)
    (.operation (by decide) (.operation (by decide) (.number _ _) (.number _ _))
    (.sign (by decide) (.number _ _))) (.operation (by decide) (.number _ _) (.number _ _))

theorem evaluate_iff_execute_leftOver :
    (leftOver 12).DivisionFree ∧ (leftOver 5).DivisionFree ∧ (leftOver 12).nodes = 10 ∧
    (leftOver 5).nodes = 10 ∧
      (execute { maxSteps := 10 } (.expr (leftOver 12))).result.returnValue =
        some (.number (.int (-3))) ∧
      (execute { maxSteps := 10 } (.expr (leftOver 5))).result.fault = some "Modulo by zero" := by
  have hvalue : Evaluate.tree (.expr (leftOver 12)) = .ok (.int (-3)) := rfl
  have hfault : Evaluate.tree (.expr (leftOver 5)) = .error (.number .moduloByZero) := rfl
  have hdeep₁₂ : (execute { maxSteps := 10 } (.expr (leftOver 12))).fault ≠ some .tooDeep := by
    decide +kernel
  have hdeep₅ : (execute { maxSteps := 10 } (.expr (leftOver 5))).fault ≠ some .tooDeep := by
    decide +kernel
  have h₁₂ := @evaluate_iff_execute { maxSteps := 10 } _ (divisionFree_leftOver 12) rfl
    (Nat.le_refl 10)
    (by rw [hvalue]; simp) hdeep₁₂
  have h₅ := @evaluate_iff_execute { maxSteps := 10 } _ (divisionFree_leftOver 5) rfl
    (Nat.le_refl 10)
    (by rw [hfault]; simp) hdeep₅
  refine ⟨divisionFree_leftOver 12, divisionFree_leftOver 5, rfl, rfl, ((h₁₂.1 _).1 hvalue).2, ?_⟩
  exact (h₅.2 _).1 ⟨_, hfault, by decide, by decide⟩

end Machine

end MiniC

import MiniC.Proofs.Lawful

/-! The width of integers. Sums, differences, products and powers of integers are refused if they
are too wide, and quotients and remainders of integers are no wider than the dividend. Two
operations are left unchecked: a step up or down, and the whole part of a quotient of binary64
numbers, which has up to 1024 bits. Main statement: a run holds narrow integers throughout if and
only if what those two leave behind is narrow. -/

namespace MiniC

namespace Number

def Narrow (bits : Nat) : Number → Prop
  | int n => bitLength n ≤ bits
  | float _ => True

variable {bits : Nat}

theorem narrow_of_natAbs_le {a b : Int} (h : b.natAbs ≤ a.natAbs) (ha : (int a).Narrow bits) :
    (int b).Narrow bits := by
  have ha : bitLength a ≤ bits := ha
  rw [bitLength_le_iff] at ha
  exact bitLength_le_iff.2 (Nat.lt_of_le_of_lt h ha)

theorem Narrow.neg {n : Number} (h : n.Narrow bits) : n.neg.Narrow bits := by
  cases n with
  | int a => exact narrow_of_natAbs_le (Nat.le_of_eq (Int.natAbs_neg a)) h
  | float x => trivial

theorem narrow_of_bounded {a n : Number} (h : bounded bits a = .ok n) : n.Narrow bits := by
  cases a with
  | float x =>
    cases h
    trivial
  | int a =>
    simp only [bounded] at h
    split at h
    · cases h
    · cases h
      rename_i hle
      change bitLength a ≤ bits
      omega

theorem narrow_of_floats {a b n : Number} {f : Float × Float → Except Fault Number}
    (hf : ∀ p n, f p = .ok n → n.Narrow bits) (h : (toFloats a b >>= f) = .ok n) :
    n.Narrow bits := by
  cases hp : toFloats a b with
  | error g =>
    rw [hp] at h
    cases h
  | ok p =>
    rw [hp] at h
    exact hf p n h

theorem narrow_of_float {n : Number} {x : Float} (h : Except.ok (ε := Fault) (float x) = .ok n) :
    n.Narrow bits := by
  cases h
  trivial

theorem narrow_realPower {a b n : Number} (h : realPower a b = .ok n) : n.Narrow bits := by
  apply narrow_of_floats _ h
  rintro ⟨x, y⟩ n hn
  dsimp only at hn
  split at hn
  · exact narrow_of_float hn
  · cases hn
  · cases hn

theorem narrow_power {a b n : Number} (h : power bits a b = .ok n) : n.Narrow bits := by
  cases a with
  | float x => exact narrow_realPower h
  | int a =>
    cases b with
    | float y => exact narrow_realPower h
    | int b =>
      simp only [power] at h
      split at h
      · exact narrow_realPower h
      split at h
      · cases h
      · exact narrow_of_bounded h

theorem narrow_truncDiv {a b q : Int} (h : truncDiv a b = .ok q) (ha : (int a).Narrow bits) :
    (int q).Narrow bits ∧ (int (a - b * q)).Narrow bits := by
  by_cases hb : b = 0
  · rw [truncDiv, if_pos hb] at h
    cases h
  · rw [truncDiv_eq a hb] at h
    cases h
    constructor
    · apply narrow_of_natAbs_le _ ha
      rw [Int.natAbs_tdiv]
      exact Nat.div_le_self _ _
    · apply narrow_of_natAbs_le _ ha
      rw [← Int.tmod_def, Int.natAbs_tmod]
      exact Nat.mod_le _ _

theorem narrow_remainder {a b n : Number} (h : remainder a b = .ok n) (ha : a.Narrow bits) :
    n.Narrow bits := by
  have hfloats {a b n : Number} (h : (toFloats a b >>= fun p => floatRemainder p.1 p.2 >>= fun z =>
      pure (float z)) = .ok n) : n.Narrow bits := by
    apply narrow_of_floats _ h
    rintro ⟨x, y⟩ n hn
    cases hz : floatRemainder x y with
    | error g =>
      rw [hz] at hn
      cases hn
    | ok z =>
      rw [hz] at hn
      exact narrow_of_float hn
  cases a with
  | float x => exact hfloats h
  | int a =>
    cases b with
    | float y => exact hfloats h
    | int b =>
      simp only [remainder] at h
      cases hq : truncDiv a b with
      | error g =>
        rw [hq] at h
        cases h
      | ok q =>
        rw [hq] at h
        cases h
        exact (narrow_truncDiv hq ha).2

end Number

namespace Decimal

theorem parts_lt {x : Float} {negative : Bool} {m : Nat} {e : Int}
    (h : parts x = .finite negative m e) :
    m < 2 ^ 53 ∧ e ≤ 971 := by
  simp only [parts, partsOfBits] at h
  split at h
  · split at h <;> cases h
  split at h
  · cases h
    omega
  · cases h
    omega

theorem truncate?_lt {bits : Nat} (hbits : 1024 ≤ bits) {x : Float} {n : Int}
    (h : truncate? x = some n) :
    n.natAbs < 2 ^ bits := by
  unfold truncate? at h
  split at h
  · rename_i negative m e hparts
    obtain ⟨hm, he⟩ := parts_lt hparts
    have hwhole : (Fraction.scale m 2 e).num / (Fraction.scale m 2 e).den < 2 ^ bits := by
      unfold Fraction.scale
      split
      · calc m * 2 ^ e.toNat / 1 = m * 2 ^ e.toNat := Nat.div_one _
          _ < 2 ^ 53 * 2 ^ e.toNat := Nat.mul_lt_mul_of_pos_right hm (Nat.two_pow_pos _)
          _ = 2 ^ (53 + e.toNat) := (Nat.pow_add 2 53 _).symm
          _ ≤ 2 ^ bits := Nat.pow_le_pow_right (by decide) (by omega)
      · calc m / 2 ^ (-e).toNat ≤ m := Nat.div_le_self _ _
          _ < 2 ^ 53 := hm
          _ ≤ 2 ^ bits := Nat.pow_le_pow_right (by decide) (by omega)
    cases h
    split
    · rw [Int.natAbs_neg, Int.natAbs_natCast]
      exact hwhole
    · rw [Int.natAbs_natCast]
      exact hwhole
  · cases h

end Decimal

namespace Number

variable {bits : Nat}

theorem narrow_wholeDiv (hbits : 1024 ≤ bits) {a b n : Number} (h : wholeDiv a b = .ok n)
    (ha : a.Narrow bits) :
    n.Narrow bits := by
  have hfloats {a b n : Number}
    (h : (toFloats a b >>= fun p => truncate (float (p.1 / p.2)) >>= fun q =>
      pure (int q)) = .ok n) : n.Narrow bits := by
    apply narrow_of_floats _ h
    rintro ⟨x, y⟩ n hn
    simp only [truncate] at hn
    cases hq : Decimal.truncate? (x / y) with
    | none =>
      rw [hq] at hn
      cases hn
    | some q =>
      rw [hq] at hn
      cases hn
      exact bitLength_le_iff.2 (Decimal.truncate?_lt hbits hq)
  cases a with
  | float x => exact hfloats h
  | int a =>
    cases b with
    | float y => exact hfloats h
    | int b =>
      simp only [wholeDiv] at h
      cases hq : truncDiv a b with
      | error g =>
        rw [hq] at h
        cases h
      | ok q =>
        rw [hq] at h
        cases h
        exact (narrow_truncDiv hq ha).1

end Number

namespace Machine

open Exec

theorem narrow_arithmetic {bits : Nat} {op : BinaryOp} (hop : op ≠ .div ∨ 1024 ≤ bits)
    {a b n : Number} (ha : a.Narrow bits) (h : Exec.arithmetic bits op a b = .ok n) :
    n.Narrow bits := by
  -- Sums, differences and products: integers are checked, and with a binary64 number both are.
  have hoperands {f : Number → Number → Except Number.Fault Number} {g : Int → Int → Int}
    {k : Float → Float → Float}
      (hints : ∀ x y, f (.int x) (.int y) = Number.bounded bits (.int (g x y)))
      (hright : ∀ x y, f (.int x) (.float y) = Number.toFloats (.int x) (.float y) >>= fun p =>
        pure (.float (k p.1 p.2)))
      (hleft : ∀ x b, f (.float x) b = Number.toFloats (.float x) b >>= fun p =>
        pure (.float (k p.1 p.2)))
      (h : f a b = .ok n) : n.Narrow bits := by
    cases a with
    | int x =>
      cases b with
      | int y =>
        rw [hints] at h
        exact Number.narrow_of_bounded h
      | float y =>
        rw [hright] at h
        exact Number.narrow_of_floats (fun _ _ => Number.narrow_of_float) h
    | float x =>
      rw [hleft] at h
      exact Number.narrow_of_floats (fun _ _ => Number.narrow_of_float) h
  unfold Exec.arithmetic at h
  split at h
  · exact hoperands (g := (· + ·)) (k := (· + ·)) (fun _ _ => rfl) (fun _ _ => rfl)
      (fun _ _ => rfl) h
  · exact hoperands (g := (· - ·)) (k := (· - ·)) (fun _ _ => rfl) (fun _ _ => rfl)
      (fun _ _ => rfl) h
  · exact hoperands (g := (· * ·)) (k := (· * ·)) (fun _ _ => rfl) (fun _ _ => rfl)
      (fun _ _ => rfl) h
  · split at h
    · cases h
    · exact Number.narrow_wholeDiv (hop.resolve_left (by simp)) h ha
  · split at h
    · cases h
    · exact Number.narrow_remainder h ha
  · exact Number.narrow_power h

/-- Whether an integer value of an expression is not held to a width: that of a step up or down, and
of a quotient where the whole part of a binary64 number may be too wide. -/
def unchecked (bits : Nat) : Expr → Bool
  | .update .. => true
  | .binary .div _ _ => bits < 1024
  | _ => false

def storesUnchecked (bits : Nat) : Stmt → Bool
  | .assign _ .div _ => bits < 1024
  | _ => false

abbrev Value.Narrow (bits : Nat) : Value → Prop := Value.Of (Number.Narrow bits)

/-- The integers in all variables and arrays are narrow where a part of a run begins and where it
ends, and so is its value. -/
def widthWatch (bits : Nat) : Watch where
  eval _ s r := s.Holds (Value.Narrow bits) ∧ (endState r).Holds (Value.Narrow bits) ∧
    ∀ v t, r = .ok v t → v.Narrow bits
  exec _ s r := s.Holds (Value.Narrow bits) ∧ (endState r).Holds (Value.Narrow bits)

/-- The same of those parts only that compute an integer unchecked, when they end with a value. -/
def uncheckedWatch (bits : Nat) : Watch where
  eval e _ r := unchecked bits e = true → ∀ v t, r = .ok v t → v.Narrow bits ∧
    t.Holds (Value.Narrow bits)
  exec c _ r := storesUnchecked bits c = true → ∀ u t, r = .ok u t → t.Holds (Value.Narrow bits)

theorem implies_unchecked (bits : Nat) : (widthWatch bits).Implies (uncheckedWatch bits) where
  eval := by
    rintro e s r ⟨-, hend, hvalue⟩ - v t rfl
    exact ⟨hvalue v t rfl, hend⟩
  exec := by
    rintro c s r ⟨-, hend⟩ - u t rfl
    exact hend

/-- The law of the width, seen from a run that ends with fewer than so many steps. Of the other
ceilings it says nothing. -/
def width (cfg : Bounds) (hbits : 21 ≤ cfg.maxIntBits) (steps : Nat) : Law cfg where
  number := Number.Narrow cfg.maxIntBits
  state u := u.steps ≤ cfg.maxSteps
  fault _ _ := True
  ends u := u.steps < steps
  checks op := op ≠ .div ∨ 1024 ≤ cfg.maxIntBits
  checksSteps := False
  small := by
    intro n hn
    -- Code points have at most 21 bits.
    have hpow : 2 ^ 21 ≤ 2 ^ cfg.maxIntBits := Nat.pow_le_pow_right (by decide) hbits
    apply Number.bitLength_le_iff.2
    rw [Int.natAbs_natCast]
    omega
  neg h := h.neg
  arithmetic hop ha _ h := narrow_arithmetic hop ha h
  stepped h := h.elim
  back h hv := Nat.lt_of_le_of_lt h.steps hv
  within h := h
  throws _ _ := trivial
  tick _ h := h
  tickLimit _ _ := trivial
  tickUnreported _ _ _ := trivial
  print h _ := h
  printLimit _ := trivial
  newArray h _ := h
  enter h _ := h
  callUnreported _ _ := trivial
  leave h := h
  leaveFault _ := trivial

def stopAfter (steps : Nat) : Runner where
  eval _ s := .error .tooDeep { s with steps := s.steps + steps }
  exec _ s := .error .tooDeep { s with steps := s.steps + steps }
  levels := 0

section Width

variable {cfg : Bounds} {hbits : 21 ≤ cfg.maxIntBits} {steps : Nat}

theorem unchecked_of_not {e : Expr} (h : ¬(width cfg hbits steps).Checked e) :
    unchecked cfg.maxIntBits e = true := by
  cases e with
  | update => rfl
  | binary op l r =>
    obtain ⟨hdiv, hlt⟩ := not_or.1 h
    obtain rfl : op = .div := Decidable.not_not.1 hdiv
    exact decide_eq_true (Nat.lt_of_not_le hlt)
  | _ => exact absurd trivial h

theorem storesUnchecked_of_not {c : Stmt} (h : ¬(width cfg hbits steps).Stores c) :
    storesUnchecked cfg.maxIntBits c = true := by
  cases c with
  | assign target op value =>
    have h : ¬∀ b, op.binary? = some b → b ≠ .div ∨ 1024 ≤ cfg.maxIntBits := h
    cases op with
    | div =>
      exact decide_eq_true (Nat.lt_of_not_le fun hle => h fun _ _ => .inr hle)
    | _ => exact absurd (fun b hb => .inl (by cases hb <;> decide)) h
  | _ => exact absurd trivial h

theorem stops_stopAfter {α : Type} {s : State} (hs : (width cfg hbits steps).Good s) {b : Exec α}
    (hb : b s = .error .tooDeep { s with steps := s.steps + steps }) :
    (width cfg hbits steps).Stops b s := by
  have hheld : State.Holds (Value.Narrow cfg.maxIntBits) { s with steps := s.steps + steps } :=
    ⟨hs.holds.toHoldsFrom.of_eq rfl rfl, hs.holds.returned⟩
  refine ⟨_, _, hb, hheld, trivial, ⟨Nat.le_add_right _ _, List.prefix_refl _⟩, ?_⟩
  exact Nat.not_lt.2 (Nat.le_add_left _ _)

theorem holds_of_ends {α : Type} {P : α → Prop} {s : State} {r : Ending α}
    (h : (width cfg hbits steps).Ends True P s r) :
    (endState r).Holds (Value.Narrow cfg.maxIntBits) := by
  cases r with
  | ok x t => exact h.2.1 trivial
  | error f t => exact h.1

theorem watches_width (cfg : Bounds) (hbits : 21 ≤ cfg.maxIntBits) (steps : Nat) :
    (width cfg hbits steps).Watches (uncheckedWatch cfg.maxIntBits) (widthWatch cfg.maxIntBits)
      fun _ => stopAfter steps where
  eval h hc := h (unchecked_of_not hc) _ _ rfl
  exec h hc := h (storesUnchecked_of_not hc) _ _ rfl
  stopEval hs _ := stops_stopAfter hs rfl
  stopExec hs _ := stops_stopAfter hs rfl
  showEval := by
    intro e s r hs hend _
    refine ⟨hs.holds, holds_of_ends hend, ?_⟩
    rintro v t rfl
    exact hend.1
  showExec hs hend _ := ⟨hs.holds, holds_of_ends hend⟩

end Width

def checkedResult? : BinaryOp → Int → Int → Option Int
  | .add, a, b => some (a + b)
  | .sub, a, b => some (a - b)
  | .mul, a, b => some (a * b)
  | .pow, a, b => if 0 ≤ b then some (a ^ b.toNat) else none
  | _, _, _ => none

theorem arithmetic_tooWide {bits : Nat} {op : BinaryOp} {a b n : Int}
    (h : checkedResult? op a b = some n) (hwide : bits < Number.bitLength n) :
    Exec.arithmetic bits op (.int a) (.int b) = .error (.tooWide bits) := by
  have hbounded : Number.bounded bits (.int n) = .error (.tooWide bits) := if_pos (by omega)
  unfold checkedResult? at h
  split at h
  · cases h
    exact hbounded
  · cases h
    exact hbounded
  · cases h
    exact hbounded
  · split at h
    · cases h
      simp only [Exec.arithmetic, Number.power]
      rw [if_neg (by omega)]
      split
      · rfl
      · rw [Number.intPower_eq]
        exact hbounded
    · cases h
  · cases h

theorem binary_tooWide {cfg : Bounds} {op : BinaryOp} {a b n : Int}
    (h : checkedResult? op a b = some n) (hwide : cfg.maxIntBits < Number.bitLength n)
    (o o' : Option Origin) (s : State) :
    ∃ f, binary cfg op (.number (.int a) o) (.number (.int b) o') s = .error f s ∧
      f.report = s!"Integer result exceeds {cfg.maxIntBits} bits" := by
  have hop : op.isArithmetic = true := by
    cases op with
    | add | sub | mul | pow => rfl
    | _ => cases h
  refine ⟨.number (.tooWide cfg.maxIntBits), ?_, rfl⟩
  unfold binary
  rw [if_pos hop]
  dsimp only
  rw [arithmetic_tooWide h hwide]
  rfl

theorem holds_execute {cfg : Bounds} {t : Tree} {P : Value → Prop}
    (h : (endState (runTree cfg (runner cfg cfg.levels) t .initial)).Holds P) :
    (execute cfg t).state.Holds P := by
  cases hr : runTree cfg (runner cfg cfg.levels) t .initial with
  | ok u s =>
    rw [hr] at h
    rw [execute_of_ok hr]
    exact h
  | error f s =>
    rw [hr] at h
    rw [execute_of_error hr]
    dsimp only
    split
    · exact ⟨h.toHoldsFrom.of_eq rfl rfl, h.returned⟩
    · exact h

/-- Over narrow numbers, a run holds and returns narrow integers only, throughout and in the end, if
and only if the integers are narrow that its unchecked operations leave behind. An operation that is
checked ends the run if its exact result is too wide. -/
theorem width_kept_iff (cfg : Bounds) (hbits : 21 ≤ cfg.maxIntBits) (t : Tree)
    (hn : ∀ n ∈ t.numbers, n.Narrow cfg.maxIntBits) :
    (Throughout cfg t (uncheckedWatch cfg.maxIntBits) ↔
      Throughout cfg t (widthWatch cfg.maxIntBits) ∧
      (execute cfg t).state.Holds (Value.Narrow cfg.maxIntBits)) ∧
    ∀ (op : BinaryOp) (a b n : Int) (o o' : Option Origin) (s : State),
      checkedResult? op a b = some n → cfg.maxIntBits < Number.bitLength n →
      ∃ f, binary cfg op (.number (.int a) o) (.number (.int b) o') s = .error f s ∧
        f.report = s!"Integer result exceeds {cfg.maxIntBits} bits" := by
  refine ⟨⟨fun h => ?_, fun h => h.1.mono (implies_unchecked _)⟩, ?_⟩
  · -- A run that breaks the watch could be made to end with more steps than this one.
    let steps := (endState (runTree cfg (runner cfg cfg.levels) t .initial)).steps + 1
    have hrun (other : Nat → Runner) :=
      Law.run_watched (watches_width cfg hbits steps) other (t := t) hn (Nat.zero_le _) cfg.levels
    simp only [h fun _ => stopAfter steps] at hrun
    constructor
    · intro other
      exact (hrun other).2 (Nat.lt_succ_self _)
    · exact holds_execute (holds_of_ends (hrun fun _ => .exhausted).1)
  · intro op a b n o o' s hexact hwide
    exact binary_tooWide hexact hwide o o' s

def stepOver : Tree :=
  .program [.declare ⟨"int", "x", 0, false, none, some (.number (.int 18446744073709551615) 0)⟩,
    .expr (.update .inc "x" false), .ret (some (.name "x"))]

theorem width_kept_iff_stepOver : (∀ n ∈ stepOver.numbers, n.Narrow 64) ∧
    (execute { maxIntBits := 64 } stepOver).returnValue = some (.int 18446744073709551616) ∧
    ¬Throughout { maxIntBits := 64 } stepOver (uncheckedWatch 64) := by
  have hn : ∀ n ∈ stepOver.numbers, n.Narrow 64 := by
    intro n hn
    rw [List.mem_singleton.1 hn]
    exact (by decide : Number.bitLength 18446744073709551615 ≤ 64)
  have hreturn : (execute { maxIntBits := 64 } stepOver).returnValue =
      some (.int 18446744073709551616) := by rfl
  refine ⟨hn, hreturn, fun h => ?_⟩
  have hholds := ((width_kept_iff { maxIntBits := 64 } (by decide) stepOver hn).1.1 h).2
  have hnarrow : Number.bitLength 18446744073709551616 ≤ 64 :=
    hholds.returned (.int 18446744073709551616) rfl
  exact absurd hnarrow (by decide)

end Machine

end MiniC

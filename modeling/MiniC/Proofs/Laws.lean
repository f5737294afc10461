import MiniC.Proofs.Walks
import MiniC.Proofs.Watermark
import MiniC.Proofs.Watches

/-! Laws of a run. A law is about the numbers that a state holds and about what has been used of the
ceilings; it is asked of the few actions that make numbers or use something up, and may look back
from the end of the run. Two actions uphold a law if the first ends as it says, and the second does
the same. Main statements: every action that the machine is made of upholds a law, but for what it
leaves unchecked. -/

namespace MiniC

namespace Machine

def Value.Of (M : Number → Prop) : Value → Prop
  | .number n _ => M n
  | .text _ | .array _ | .pointer _ => True

/-- Every value that a state holds has a property: in the variables of all frames, in the elements
of all arrays, and on its way out of a call. -/
structure State.Holds (P : Value → Prop) (s : State) : Prop extends s.HoldsFrom ⟨0, 0⟩ P where
  returned : ∀ v, s.returnValue = some v → P v

def State.Written (M : Number → Prop) (s : State) : Prop :=
  ∀ p ∈ s.functions, ∀ n ∈ Stmt.listNumbers p.2.body, M n

/-- What a state has used of the ceilings: the steps counted, the frames on the stack, the lengths
of the arrays in the order in which they were made, the characters printed, and those counted. -/
structure Usage where
  steps : Nat
  depth : Nat
  lengths : List Nat
  printed : Nat
  outputChars : Nat

def State.usage (s : State) : Usage where
  steps := s.steps
  depth := s.stack.length
  lengths := s.arrays.toList.map (·.size)
  printed := s.output.foldl (fun n line => n + line.length) 0
  outputChars := s.outputChars

structure Usage.Before (u v : Usage) : Prop where
  steps : u.steps ≤ v.steps
  lengths : u.lengths <+: v.lengths

theorem Usage.Before.refl (u : Usage) : u.Before u := ⟨Nat.le_refl _, List.prefix_refl _⟩

theorem Usage.Before.trans {u v w : Usage} (h : u.Before v) (k : v.Before w) : u.Before w :=
  ⟨Nat.le_trans h.steps k.steps, h.lengths.trans k.lengths⟩

section Usages

variable (s : State)

theorem State.usage_newArray (items : Array Value) :
    (s.newArray items).usage = { s.usage with lengths := s.usage.lengths ++ [items.size] } := by
  simp [State.usage, State.newArray]

theorem State.usage_writeElement (ref i : Nat) (v : Value) :
    (s.writeElement ref i v).usage = s.usage := by
  have hlengths :
      (s.arrays.modify ref fun a => a.setIfInBounds i v).toList.map (·.size) =
        s.arrays.toList.map (·.size) := by
    apply List.ext_getElem?
    intro k
    simp only [List.getElem?_map, Array.getElem?_toList, Array.getElem?_modify]
    split
    · cases s.arrays[k]? <;> simp
    · rfl
  unfold State.usage State.writeElement
  rw [hlengths]

theorem State.usage_leave (f : String) (saved : Option Value) :
    (s.leave f saved).usage = { s.usage with depth := s.usage.depth - 1 } := by
  simp [State.usage, State.leave, State.popFrame, State.record]

end Usages

open Exec

/-- A law of runs under some settings. It asks something of numbers, of what has been used where an
action begins or ends with a value, and of what has been used at a fault. What it says may depend on
how the run ends. Some operations may be left unchecked by the machine. -/
structure Law (cfg : Bounds) where
  number : Number → Prop
  state : Usage → Prop
  fault : Fault → Usage → Prop
  ends : Usage → Prop
  checks : BinaryOp → Prop
  checksSteps : Prop
  small : ∀ {n : Nat}, n < 0x110000 → number (.int n)
  neg : ∀ {n : Number}, number n → number n.neg
  arithmetic : ∀ {op : BinaryOp} {a b n : Number}, checks op → number a → number b →
    Exec.arithmetic cfg.maxIntBits op a b = .ok n → number n
  stepped : ∀ {op : UpdateOp} {n : Number}, checksSteps → number n → number (stepNumber op n)
  back : ∀ {u v : Usage}, u.Before v → ends v → ends u
  within : ∀ {u : Usage}, state u → u.steps ≤ cfg.maxSteps
  throws : ∀ {f : Fault} {u : Usage}, f.isLimit = false → state u → fault f u
  tick : ∀ {u : Usage}, state u → u.steps + 1 ≤ cfg.maxSteps → state { u with steps := u.steps + 1 }
  tickLimit : ∀ {u : Usage}, state u → cfg.maxSteps < u.steps + 1 →
    fault (.stepLimit cfg.maxSteps) { u with steps := u.steps + 1 }
  tickUnreported : ∀ {u : Usage}, state u → cfg.maxSteps < u.steps + 1 → 0 < cfg.reportLevels →
    fault (.unreported (.stepCeiling cfg.maxSteps)) { u with steps := u.steps + 1 }
  print : ∀ {u : Usage} {n : Nat}, state u → u.outputChars + n ≤ cfg.maxOutputChars →
    state { u with printed := u.printed + n, outputChars := u.outputChars + n }
  printLimit : ∀ {u : Usage} {n : Nat}, state u →
    fault (.outputLimit cfg.maxOutputChars) { u with outputChars := u.outputChars + n }
  newArray : ∀ {u : Usage} {n : Nat}, state u → n ≤ cfg.maxArrayLength →
    state { u with lengths := u.lengths ++ [n] }
  enter : ∀ {u : Usage}, state u → u.depth ≤ cfg.maxCallDepth →
    state { u with depth := u.depth + 1 }
  callUnreported : ∀ {u : Usage}, state u → 0 < cfg.reportLevels →
    fault (.unreported (.callCeiling cfg.maxCallDepth)) u
  leave : ∀ {u : Usage}, state u → state { u with depth := u.depth - 1 }
  leaveFault : ∀ {f : Fault} {u : Usage}, fault f u → fault f { u with depth := u.depth - 1 }

namespace Law

variable {cfg : Bounds} (L : Law cfg)

abbrev Fine : Value → Prop := Value.Of L.number

theorem fine_nat {n : Nat} (h : n < 0x110000) : L.Fine (.int n) := L.small h

theorem fine_zero : L.Fine (.int 0) := L.fine_nat (n := 0) (by decide)

theorem fine_ofBool (b : Bool) : L.Fine (.ofBool b) := by
  cases b with
  | true => exact L.fine_nat (n := 1) (by decide)
  | false => exact L.fine_zero

structure Good (s : State) : Prop where
  holds : s.Holds L.Fine
  written : s.Written L.number
  used : L.state s.usage

/-- How an action that has begun in a state may end. The values in the last state are vouched for
only if `c` holds. -/
def Ends {α : Type} (c : Prop) (P : α → Prop) (s : State) : Ending α → Prop
  | .ok x t =>
    P x ∧ (c → t.Holds L.Fine) ∧ t.Written L.number ∧ L.state t.usage ∧ s.usage.Before t.usage
  | .error f t => t.Holds L.Fine ∧ L.fault f t.usage ∧ s.usage.Before t.usage

/-- From a state the first of two actions ends as the law says, and so does the second: like the
first, if that is on the way to where the law looks back from. -/
def LeadsFrom {α : Type} (s : State) (c : Prop) (P : α → Prop) (a a' : Exec α) : Prop :=
  L.Ends c P s (a s) ∧ (L.ends (endState (a s)).usage → a' s = a s)

def Leads {α : Type} (c : Prop) (P : α → Prop) (a a' : Exec α) : Prop :=
  ∀ s, L.Good s → L.Ends c P s (a s) ∧ (L.ends (endState (a s)).usage → a' s = a s)

abbrev Upholds {α : Type} (P : α → Prop) (a a' : Exec α) : Prop := L.Leads True P a a'

abbrev Plainly {α : Type} (a a' : Exec α) : Prop := L.Upholds (fun _ => True) a a'

def Counts {α : Type} (P : α → Prop) (a : Exec α) : Prop :=
  ∀ s, L.Good s → ∀ x t, a s = .ok x t → P x → s.steps < t.steps

structure Ticks {α : Type} (c : Prop) (P : α → Prop) (a a' : Exec α) : Prop where
  leads : L.Leads c P a a'
  counts : L.Counts (fun _ => True) a

variable {L} {α β : Type} {c : Prop} {P : α → Prop} {Q : β → Prop}

theorem Ends.since {s t : State} (h : s.usage.Before t.usage) {r : Ending α} (hr : L.Ends c P t r) :
    L.Ends c P s r := by
  cases r with
  | ok x u => exact ⟨hr.1, hr.2.1, hr.2.2.1, hr.2.2.2.1, h.trans hr.2.2.2.2⟩
  | error f u => exact ⟨hr.1, hr.2.1, h.trans hr.2.2⟩

theorem Ends.before {s : State} {r : Ending α} (h : L.Ends c P s r) :
    s.usage.Before (endState r).usage := by
  cases r with
  | ok x u => exact h.2.2.2.2
  | error f u => exact h.2.2

section Composed

variable {a a' : Exec α} {f f' : α → Exec β}

theorem LeadsFrom.bind {s : State} (h : L.LeadsFrom s True P a a')
    (hf : ∀ x t, a s = .ok x t → P x → L.Good t → L.LeadsFrom t c Q (f x) (f' x)) :
    L.LeadsFrom s c Q (a >>= f) (a' >>= f') := by
  obtain ⟨hend, hsame⟩ := h
  unfold LeadsFrom
  cases ha : a s with
  | error e t =>
    rw [ha] at hend hsame
    rw [bind_of_error ha f]
    refine ⟨hend, fun ht => ?_⟩
    exact bind_of_error (hsame ht) f'
  | ok x t =>
    rw [ha] at hend hsame
    obtain ⟨hx, hholds, hwritten, hused, hbefore⟩ := hend
    obtain ⟨hend', hsame'⟩ := hf x t ha hx ⟨hholds trivial, hwritten, hused⟩
    rw [bind_of_ok ha f]
    refine ⟨hend'.since hbefore, fun ht => ?_⟩
    -- The law looks back from the end of `f x` to that of `a`, so `a'` is known to go the same way.
    rw [bind_of_ok (hsame (L.back hend'.before ht)) f']
    exact hsame' ht

theorem Leads.bind (h : L.Upholds P a a') (hf : ∀ x, P x → L.Leads c Q (f x) (f' x)) :
    L.Leads c Q (a >>= f) (a' >>= f') :=
  fun s hs => LeadsFrom.bind (h s hs) fun x t _ hx ht => hf x hx t ht

/-- Where a first part ends with a value, a second one may begin. -/
theorem Leads.good (h : L.Upholds P a a') {s t : State} {x : α} (hs : L.Good s)
    (ha : a s = .ok x t) :
    P x ∧ L.Good t := by
  have hend := (h s hs).1
  rw [ha] at hend
  obtain ⟨hx, hholds, hwritten, hused, -⟩ := hend
  exact ⟨hx, hholds trivial, hwritten, hused⟩

theorem Leads.steps_le (h : L.Leads c P a a') {s t : State} {x : α} (hs : L.Good s)
    (ha : a s = .ok x t) :
    s.steps ≤ t.steps := by
  have hend := (h s hs).1
  rw [ha] at hend
  exact hend.before.steps

theorem Leads.mono {c' : Prop} {P' : α → Prop} (h : L.Leads c P a a') (hc : c' → c)
    (hP : ∀ x, P x → P' x) :
    L.Leads c' P' a a' := by
  intro s hs
  obtain ⟨hend, hsame⟩ := h s hs
  refine ⟨?_, hsame⟩
  cases ha : a s with
  | error e t =>
    rw [ha] at hend
    exact hend
  | ok x t =>
    rw [ha] at hend
    exact ⟨hP x hend.1, fun hc' => hend.2.1 (hc hc'), hend.2.2⟩

theorem Leads.map (h : L.Leads c P a a') {g : α → β} (hg : ∀ x, P x → Q (g x)) :
    L.Leads c Q (a >>= fun x => pure (g x)) (a' >>= fun x => pure (g x)) := by
  intro s hs
  obtain ⟨hend, hsame⟩ := h s hs
  cases ha : a s with
  | error e t =>
    rw [ha] at hend hsame
    rw [bind_of_error ha]
    exact ⟨hend, fun ht => bind_of_error (hsame ht) _⟩
  | ok x t =>
    rw [ha] at hend hsame
    rw [bind_of_ok ha]
    exact ⟨⟨hg x hend.1, hend.2⟩, fun ht => bind_of_ok (hsame ht) _⟩

theorem leads_self (h : ∀ s, L.Good s → L.Ends c P s (a s)) : L.Leads c P a a :=
  fun s hs => ⟨h s hs, fun _ => rfl⟩

theorem upholds_pure {x : α} (hx : P x) : L.Upholds P (pure x) (pure x) :=
  leads_self fun _ hs => ⟨hx, fun _ => hs.holds, hs.written, hs.used, .refl _⟩

theorem plainly_pure (x : α) : L.Plainly (pure x) (pure x) := upholds_pure trivial

theorem leads_throw {g : Fault} (hg : g.isLimit = false) : L.Leads c P (throw g) (throw g) :=
  leads_self fun _ hs => ⟨hs.holds, L.throws hg hs.used, .refl _⟩

theorem leads_get {f f' : State → Exec α} (h : ∀ s, L.Good s → L.Leads c P (f s) (f' s)) :
    L.Leads c P (get >>= f) (get >>= f') := fun s hs => h s hs s hs

theorem plainly_lift {x : Except Fault α} (hx : Uncounted x) : L.Plainly (lift x) (lift x) := by
  cases hx with
  | ok y => exact plainly_pure y
  | error hg => exact leads_throw hg

theorem plainly_liftNumber (x : Except Number.Fault α) :
    L.Plainly (liftNumber x) (liftNumber x) := by
  cases x with
  | ok y => exact plainly_pure y
  | error g => exact leads_throw rfl

theorem leads_modify {f : State → State}
    (h : ∀ s, L.Good s → (c → (f s).Holds L.Fine) ∧ (f s).Written L.number ∧
      L.state (f s).usage ∧ s.usage.Before (f s).usage) :
    L.Leads c (fun _ => True) (modify f : Exec Unit) (modify f) :=
  leads_self fun s hs => ⟨trivial, h s hs⟩

theorem plainly_control {f : State → State}
    (h : ∀ s : State, f s = { s with
      breaking := (f s).breaking
      continuing := (f s).continuing
      fresh := (f s).fresh
      journal := (f s).journal }) :
    L.Plainly (modify f : Exec Unit) (modify f) := by
  apply leads_modify
  intro s hs
  rw [h s]
  exact ⟨fun _ => ⟨hs.holds.toHoldsFrom.of_eq rfl rfl, hs.holds.returned⟩, hs.written,
    hs.used, .refl _⟩

end Composed

section Actions

theorem plainly_record (r : Record) : L.Plainly (record r) (record r) :=
  plainly_control fun _ => rfl

theorem plainly_tick (left : Nat) : L.Plainly (Exec.tick cfg left) (Exec.tick cfg left) := by
  apply leads_self
  intro s hs
  have hbefore : s.usage.Before { s.usage with steps := s.usage.steps + 1 } :=
    ⟨Nat.le_succ _, List.prefix_refl _⟩
  have hholds {t : State} (hf : t.frames = s.frames) (ha : t.arrays = s.arrays)
      (hr : t.returnValue = s.returnValue) : t.Holds L.Fine :=
    ⟨hs.holds.toHoldsFrom.of_eq hf ha, by rw [hr]; exact hs.holds.returned⟩
  rcases Nat.lt_or_ge cfg.maxSteps (s.steps + 1) with hlt | hle
  · rw [tick_of_lt hlt]
    rcases stopAt_cases cfg left (.stepCeiling cfg.maxSteps) (.stepLimit cfg.maxSteps)
      { s with steps := s.steps + 1 } with h | ⟨hpos, h⟩
    · rw [h]
      exact ⟨hholds rfl rfl rfl, L.tickLimit hs.used hlt, hbefore⟩
    · rw [h]
      exact ⟨hholds rfl rfl rfl, L.tickUnreported hs.used hlt hpos, hbefore⟩
  · rw [tick_of_le hle]
    exact ⟨trivial, fun _ => hholds rfl rfl rfl, hs.written, L.tick hs.used hle, hbefore⟩

theorem checkDepth_cases (left : Nat) (f : String) {s : State} (hs : L.Good s) :
    (s.stack.length ≤ cfg.maxCallDepth ∧ Runner.checkDepth cfg left f s = .ok () s) ∨
      ∃ g t, Runner.checkDepth cfg left f s = .error g t ∧ t.Holds L.Fine ∧ L.fault g t.usage ∧
        s.usage.Before t.usage := by
  rcases Nat.lt_or_ge cfg.maxCallDepth s.stack.length with hlt | hle
  · right
    rw [checkDepth_of_lt hlt]
    rcases stopAt_cases cfg left (.callCeiling cfg.maxCallDepth) (.callDepth cfg.maxCallDepth f) s
      with h | ⟨hpos, h⟩
    · exact ⟨_, _, h, ⟨hs.holds.toHoldsFrom.of_eq rfl rfl, hs.holds.returned⟩, L.throws rfl hs.used,
        .refl _⟩
    · exact ⟨_, _, h, hs.holds, L.callUnreported hs.used hpos, .refl _⟩
  · exact .inl ⟨hle, checkDepth_of_le hle left f⟩

theorem plainly_fresh : L.Plainly fresh fresh := by
  apply leads_self
  intro s hs
  exact ⟨trivial, fun _ => ⟨hs.holds.toHoldsFrom.of_eq rfl rfl, hs.holds.returned⟩, hs.written,
    hs.used, .refl _⟩

theorem upholds_computed {n : Number} (hn : c → L.number n) :
    L.Upholds (fun v => c → L.Fine v) (computed n) (computed n) := by
  unfold computed
  split
  · exact plainly_fresh.bind fun k _ => upholds_pure hn
  · exact upholds_pure hn

theorem upholds_lookup (x : String) : L.Upholds L.Fine (lookup x) (lookup x) :=
  leads_get fun _ hs => upholds_pure (hs.holds.toHoldsFrom.read L.fine_zero (Nat.zero_le _) x)

theorem leads_bind (x : String) {v : Value} (hv : c → L.Fine v) :
    L.Leads c (fun _ => True) (Exec.bind x v) (Exec.bind x v) := by
  apply leads_modify
  intro s hs
  exact ⟨fun hc => ⟨hs.holds.toHoldsFrom.bind x (hv hc), hs.holds.returned⟩, hs.written,
    hs.used, .refl _⟩

theorem leads_writeElement (ref i : Nat) {v : Value} (hv : c → L.Fine v) :
    L.Leads c (fun _ => True) (modify (·.writeElement ref i v) : Exec Unit)
      (modify (·.writeElement ref i v)) := by
  apply leads_modify
  intro s hs
  rw [State.usage_writeElement]
  exact ⟨fun hc => ⟨hs.holds.toHoldsFrom.writeElement ref i (hv hc), hs.holds.returned⟩,
    hs.written, hs.used, .refl _⟩

theorem upholds_newArray {items : List Value} (hi : ∀ v ∈ items, L.Fine v)
    (hlen : items.length ≤ cfg.maxArrayLength) :
    L.Upholds L.Fine (Exec.newArray items) (Exec.newArray items) := by
  apply leads_self
  intro s hs
  have hheld : (s.newArray items.toArray).HoldsFrom ⟨0, 0⟩ L.Fine :=
    hs.holds.toHoldsFrom.newArray (by simpa using hi)
  refine ⟨trivial, fun _ => ⟨hheld, hs.holds.returned⟩, hs.written, ?_, ?_⟩
  · rw [State.usage_newArray]
    exact L.newArray hs.used (by simpa using hlen)
  · rw [State.usage_newArray]
    exact ⟨Nat.le_refl _, List.prefix_append _ _⟩

theorem upholds_element (ref i : Nat) : L.Upholds L.Fine (element ref i) (element ref i) :=
  leads_get fun _ hs => upholds_pure (hs.holds.toHoldsFrom.element L.fine_zero (Nat.zero_le _) i)

theorem plainly_checkIndex (x : String) (ref : Nat) (v : Value) :
    L.Plainly (checkIndex x ref v) (checkIndex x ref v) := by
  unfold checkIndex
  cases indexValue? v with
  | none => exact leads_throw rfl
  | some i =>
    apply leads_get
    intro s _
    dsimp only
    split
    · exact plainly_pure _
    · exact (plainly_lift (uncounted_writeInt i)).bind fun _ _ => leads_throw rfl

theorem upholds_newPointer (x : String) (i : Option Int) :
    L.Upholds L.Fine (newPointer x i) (newPointer x i) :=
  plainly_fresh.bind fun _ _ => leads_get fun _ _ => upholds_pure trivial

theorem upholds_follow (p : Pointer) : L.Upholds L.Fine (follow p) (follow p) := by
  have hdangling : L.Upholds L.Fine (lift p.text >>= fun t => throw (.dangling t))
      (lift p.text >>= fun t => throw (.dangling t)) :=
    (plainly_lift (uncounted_text p)).bind fun _ _ => leads_throw rfl
  apply leads_get
  intro s hs
  dsimp only
  split
  · exact upholds_pure (hs.holds.toHoldsFrom.read L.fine_zero (Nat.zero_le _) p.name)
  · split
    · exact upholds_pure (hs.holds.toHoldsFrom.element L.fine_zero (Nat.zero_le _) _)
    · exact hdangling
  · exact hdangling

theorem upholds_dereference (v : Value) : L.Upholds L.Fine (dereference v) (dereference v) := by
  have hlist : L.Upholds L.Fine (get >>= fun s => lift (s.list v) >>= fun t =>
    throw (.notPointer t))
      (get >>= fun s => lift (s.list v) >>= fun t => throw (.notPointer t)) :=
    leads_get fun s _ => (plainly_lift (uncounted_list s v)).bind fun _ _ => leads_throw rfl
  cases v with
  | pointer p => exact upholds_follow p
  | array ref =>
    apply leads_get
    intro s _
    split
    · exact hlist
    · exact upholds_element ref 0
  | _ => exact hlist

theorem upholds_unary (op : UnaryOp) {v : Value} (hv : L.Fine v) :
    L.Upholds L.Fine (Runner.unary op v) (Runner.unary op v) := by
  cases op with
  | neg =>
    cases v with
    | number n o =>
      exact (upholds_computed (c := True) fun _ => L.neg hv).mono id fun _ h => h trivial
    | _ => exact leads_throw rfl
  | pos => exact upholds_pure hv
  | not => exact upholds_pure (L.fine_ofBool _)

theorem upholds_stepped (op : UpdateOp) {v : Value} (hv : L.Fine v) :
    L.Upholds (fun w => L.checksSteps → L.Fine w) (Exec.stepped op v) (Exec.stepped op v) := by
  cases v with
  | number n o => exact upholds_computed fun hc => L.stepped hc hv
  | _ => exact leads_throw rfl

theorem upholds_binary (op : BinaryOp) {v w : Value} (hv : L.Fine v) (hw : L.Fine w) :
    L.Upholds (fun u => L.checks op → L.Fine u) (binary cfg op v w) (binary cfg op v w) := by
  unfold binary
  split
  · split
    · rename_i a _ b _
      cases hn : Exec.arithmetic cfg.maxIntBits op a b with
      | error g => exact leads_throw rfl
      | ok n => exact upholds_computed fun hc => L.arithmetic hc hv hw hn
    · exact leads_throw rfl
  · exact leads_get fun s _ => (plainly_lift (uncounted_relate s op v w)).bind fun b _ =>
      upholds_pure fun _ => L.fine_ofBool b

theorem plainly_equal (v w : Value) : L.Plainly (equal v w) (equal v w) :=
  leads_get fun s _ => plainly_lift (uncounted_equal s depthBudget v w)

theorem plainly_print (line : List Char) :
    L.Plainly (Exec.print cfg line) (Exec.print cfg line) := by
  apply leads_self
  intro s hs
  have hbefore {n m : Nat} : s.usage.Before { s.usage with printed := n, outputChars := m } :=
    ⟨Nat.le_refl _, List.prefix_refl _⟩
  rcases Nat.lt_or_ge cfg.maxOutputChars (s.outputChars + line.length) with hlt | hle
  · rw [print_of_lt hlt]
    exact ⟨⟨hs.holds.toHoldsFrom.of_eq rfl rfl, hs.holds.returned⟩, L.printLimit hs.used, hbefore⟩
  · have husage : ({ s with
        outputChars := s.outputChars + line.length
        output := s.output.push (String.ofList line) } : State).usage =
        { s.usage with
          printed := s.usage.printed + line.length
          outputChars := s.usage.outputChars + line.length } := by
      simp [State.usage]
    rw [print_of_le hle]
    refine ⟨trivial, fun _ => ⟨hs.holds.toHoldsFrom.of_eq rfl rfl, hs.holds.returned⟩,
      hs.written, ?_, ?_⟩
    · rw [husage]
      exact L.print hs.used hle
    · rw [husage]
      exact hbefore

theorem plainly_return {v : Value} (hv : L.Fine v) :
    L.Plainly (modify fun s => { s with returnValue := some v } : Exec Unit)
      (modify fun s => { s with returnValue := some v }) := by
  apply leads_modify
  intro s hs
  refine ⟨fun _ => ⟨hs.holds.toHoldsFrom.of_eq rfl rfl, ?_⟩, hs.written, hs.used, .refl _⟩
  rintro w ⟨⟩
  exact hv

theorem plainly_define (name : String) {fn : Function}
    (hfn : ∀ n ∈ Stmt.listNumbers fn.body, L.number n) :
    L.Plainly (modify (·.define name fn) : Exec Unit) (modify (·.define name fn)) := by
  apply leads_modify
  intro s hs
  refine ⟨fun _ => ⟨hs.holds.toHoldsFrom.of_eq rfl rfl, hs.holds.returned⟩, ?_, hs.used, .refl _⟩
  intro p hp
  rcases List.mem_cons.1 hp with rfl | hp
  · exact hfn
  · exact hs.written p (List.mem_filter.1 hp).1

/-- Rounds that go on have counted a step each, so that the ceiling is met before they run out. -/
theorem leadsFrom_repeatUpTo {round round' : Exec Bool} (h : L.Plainly round round')
    (hcounts : L.Counts (· = true) round) (n : Nat) {s : State} (hs : L.Good s)
    (hn : cfg.maxSteps < s.steps + n) :
    L.LeadsFrom s True (fun _ => True) (repeatUpTo cfg round n) (repeatUpTo cfg round' n) := by
  induction n generalizing s with
  | zero =>
    have hle : s.steps ≤ cfg.maxSteps := L.within hs.used
    omega
  | succ n ih =>
    apply LeadsFrom.bind (h s hs)
    intro goesOn t ht _ hgood
    cases goesOn with
    | true =>
      have hlt := hcounts s hs true t ht rfl
      exact ih hgood (by omega)
    | false => exact plainly_pure () t hgood

theorem plainly_loop {round round' : Exec Bool} (h : L.Plainly round round')
    (hcounts : L.Counts (· = true) round) :
    L.Plainly (loop cfg round) (loop cfg round') :=
  fun _ hs => leadsFrom_repeatUpTo h hcounts _ hs (by omega)

theorem upholds_leave {a a' : Exec α} (h : L.Upholds P a a') (f : String) {saved : Option Value}
    (hsaved : ∀ v, saved = some v → L.Fine v) :
    L.Upholds P (andThen a (State.leave f saved)) (andThen a' (State.leave f saved)) := by
  intro s hs
  have hbefore (t : State) : t.usage.Before (t.leave f saved).usage :=
    ⟨Nat.le_refl _, List.prefix_refl _⟩
  have hheld {t : State} (ht : t.Holds L.Fine) : (t.leave f saved).Holds L.Fine :=
    ⟨ht.toHoldsFrom.of_eq rfl rfl, hsaved⟩
  obtain ⟨hend, hsame⟩ := h s hs
  unfold andThen
  cases ha : a s with
  | ok x t =>
    rw [ha] at hend hsame
    obtain ⟨hx, hholds, hwritten, hused, hsince⟩ := hend
    refine ⟨⟨hx, fun _ => hheld (hholds trivial), hwritten, ?_, hsince.trans (hbefore t)⟩,
      fun ht => ?_⟩
    · rw [State.usage_leave]
      exact L.leave hused
    · rw [hsame (L.back (hbefore t) ht)]
  | error g t =>
    rw [ha] at hend hsame
    obtain ⟨hholds, hfault, hsince⟩ := hend
    refine ⟨⟨hheld hholds, ?_, hsince.trans (hbefore t)⟩, fun ht => ?_⟩
    · rw [State.usage_leave]
      exact L.leaveFault hfault
    · rw [hsame (L.back (hbefore t) ht)]

end Actions

section Counting

variable {a a' : Exec α} {f f' : α → Exec β}

theorem Ticks.bind (h : L.Ticks True P a a') (hf : ∀ x, P x → L.Leads c Q (f x) (f' x)) :
    L.Leads c Q (a >>= f) (a' >>= f') := h.leads.bind hf

theorem Ticks.mono {c' : Prop} {P' : α → Prop} (h : L.Ticks c P a a') (hc : c' → c)
    (hP : ∀ x, P x → P' x) :
    L.Ticks c' P' a a' := ⟨h.leads.mono hc hP, h.counts⟩

theorem Ticks.counts_bind (h : L.Ticks True P a a') (hf : ∀ x, P x → L.Leads c Q (f x) (f' x))
    {R : β → Prop} :
    L.Counts R (a >>= f) := by
  intro s hs y t hy _
  obtain ⟨x, u, ha, hfx⟩ := bind_eq_ok hy
  obtain ⟨hx, hu⟩ := h.leads.good hs ha
  exact Nat.lt_of_lt_of_le (h.counts s hs x u ha trivial) ((hf x hx).steps_le hu hfx)

theorem Leads.counts_bind (h : L.Upholds P a a') {R : β → Prop} (hf : ∀ x, P x → L.Counts R (f x)) :
    L.Counts R (a >>= f) := by
  intro s hs y t hy hR
  obtain ⟨x, u, ha, hfx⟩ := bind_eq_ok hy
  obtain ⟨hx, hu⟩ := h.good hs ha
  exact Nat.lt_of_le_of_lt (h.steps_le hs ha) (hf x hx u hu y t hfx hR)

theorem ticks_tick (left : Nat) {b b' : Exec α} (h : L.Leads c P b b') :
    L.Ticks c P (Exec.tick cfg left >>= fun _ => b) (Exec.tick cfg left >>= fun _ => b') := by
  refine ⟨(plainly_tick left).bind fun _ _ => h, ?_⟩
  intro s hs x t hx _
  obtain ⟨_, u, hu, hb⟩ := bind_eq_ok hx
  have hle := h.steps_le ((plainly_tick left).good hs hu).2 hb
  rcases Nat.lt_or_ge cfg.maxSteps (s.steps + 1) with hlt | hge
  · rw [tick_of_lt hlt] at hu
    rcases stopAt_cases cfg left (.stepCeiling cfg.maxSteps) (.stepLimit cfg.maxSteps)
      { s with steps := s.steps + 1 } with hstop | ⟨-, hstop⟩
    · rw [hstop] at hu
      cases hu
    · rw [hstop] at hu
      cases hu
  · rw [tick_of_le hge] at hu
    cases hu
    exact hle

theorem ticks_throw {g : Fault} (hg : g.isLimit = false) : L.Ticks c P (throw g) (throw g) := by
  refine ⟨leads_throw hg, ?_⟩
  rintro s - x t ⟨⟩

end Counting

end Law

end Machine

end MiniC

import MiniC.Proofs.Actions

/-! What a call can reach. The frames and arrays that a call makes are numbered from a watermark on.
A state is sealed at a watermark if nothing from there on refers to anything below; two states are
beside one another if they differ only in frames below. Main statements: values that refer to
nothing below are compared, printed and listed alike in both. -/

namespace MiniC.Machine

structure Watermark where
  frames : Nat
  arrays : Nat

def Value.Since (w : Watermark) : Value → Prop
  | .array ref => w.arrays ≤ ref
  | .pointer p => w.frames ≤ p.frame
  | .number .. | .text _ => True

theorem Value.since_int (w : Watermark) (n : Int) : (Value.int n).Since w := trivial

theorem Value.since_ofBool (w : Watermark) (b : Bool) : (Value.ofBool b).Since w := trivial

theorem Value.since_ofNumber (w : Watermark) (n : Number) (o : Origin) :
    (Value.ofNumber n o).Since w := trivial

section Bindings

variable {x : String} {v : Value} {bs : Bindings}

theorem Bindings.mem_of_get? (h : Bindings.get? x bs = some v) : ∃ b ∈ bs, b.2 = v := by
  induction bs with
  | nil => cases h
  | cons b bs ih =>
    obtain ⟨y, u⟩ := b
    by_cases hy : y = x
    · simp only [Bindings.get?, if_pos hy, Option.some.injEq] at h
      exact ⟨(y, u), by simp, h⟩
    · simp only [Bindings.get?, if_neg hy] at h
      obtain ⟨b, hb, hv⟩ := ih h
      exact ⟨b, List.mem_cons_of_mem _ hb, hv⟩

theorem Bindings.mem_put {b : String × Value} (h : b ∈ Bindings.put x v bs) : b.2 = v ∨ b ∈ bs := by
  induction bs with
  | nil => simp_all [Bindings.put]
  | cons c bs ih =>
    obtain ⟨y, u⟩ := c
    by_cases hy : y = x
    · simp only [Bindings.put, if_pos hy, List.mem_cons] at h
      rcases h with rfl | h
      · exact .inl rfl
      · exact .inr (List.mem_cons_of_mem _ h)
    · simp only [Bindings.put, if_neg hy, List.mem_cons] at h
      rcases h with rfl | h
      · exact .inr List.mem_cons_self
      · exact (ih h).imp_right (List.mem_cons_of_mem _)

theorem holds_headD {P : Value → Prop} (hzero : P (.int 0)) {vs : List Value}
    (hvs : ∀ v ∈ vs, P v) :
    P (vs.headD (.int 0)) := by
  cases vs with
  | nil => exact hzero
  | cons v vs => exact hvs v List.mem_cons_self

theorem holds_bindParams {P : Value → Prop} (hzero : P (.int 0)) {ps : List Parameter}
    {vs : List Value} (hvs : ∀ v ∈ vs, P v) (hbs : ∀ b ∈ bs, P b.2) :
    ∀ b ∈ bindParams ps vs bs, P b.2 := by
  induction ps generalizing vs bs with
  | nil => exact hbs
  | cons p ps ih =>
    apply ih
    · intro v hv
      exact hvs v (List.mem_of_mem_tail hv)
    · intro b hb
      rcases Bindings.mem_put hb with h | h
      · rw [h]
        exact holds_headD hzero hvs
      · exact hbs b h

end Bindings

structure State.HoldsFrom (w : Watermark) (P : Value → Prop) (s : State) : Prop where
  bindings : ∀ i, w.frames ≤ i → ∀ b ∈ s.bindingsOf i, P b.2
  elements : ∀ ref, w.arrays ≤ ref → ∀ v ∈ s.elements ref, P v

namespace State.HoldsFrom

variable {w : Watermark} {P : Value → Prop} {s t : State}

theorem read (h : s.HoldsFrom w P) (hzero : P (.int 0)) {i : Nat} (hi : w.frames ≤ i) (x : String) :
    P (s.read i x) := by
  unfold State.read
  cases hx : (s.bindingsOf i).get? x with
  | none => exact hzero
  | some v =>
    obtain ⟨b, hb, rfl⟩ := Bindings.mem_of_get? hx
    exact h.bindings i hi b hb

theorem element (h : s.HoldsFrom w P) (hzero : P (.int 0)) {ref : Nat} (hr : w.arrays ≤ ref)
    (i : Nat) :
    P (((s.elements ref)[i]?).getD (.int 0)) := by
  cases hi : (s.elements ref)[i]? with
  | none => exact hzero
  | some v => exact h.elements ref hr v (Array.mem_of_getElem? hi)

theorem of_eq (h : s.HoldsFrom w P) (hf : t.frames = s.frames) (ha : t.arrays = s.arrays) :
    t.HoldsFrom w P where
  bindings := by
    intro i hi
    rw [State.bindingsOf, hf]
    exact h.bindings i hi
  elements := by
    intro ref hr
    rw [State.elements, ha]
    exact h.elements ref hr

theorem bind (h : s.HoldsFrom w P) (x : String) {v : Value} (hv : P v) :
    (s.bind x v).HoldsFrom w P where
  bindings := by
    intro i hi b hb
    have hold := h.bindings i hi
    by_cases he : s.top = i
    · simp only [State.bindingsOf, State.bind, Array.getElem?_modify, if_pos he] at hb hold
      cases hf : s.frames[i]? with
      | none => simp [hf] at hb
      | some f =>
        simp only [hf, Option.map_some] at hb hold
        rcases Bindings.mem_put hb with hb | hb
        · rw [hb]
          exact hv
        · exact hold b hb
    · simp only [State.bindingsOf, State.bind, Array.getElem?_modify, if_neg he] at hb hold
      exact hold b hb
  elements := h.elements

theorem newArray (h : s.HoldsFrom w P) {items : Array Value} (hi : ∀ v ∈ items, P v) :
    (s.newArray items).HoldsFrom w P where
  bindings := h.bindings
  elements := by
    intro ref hr v hv
    by_cases he : ref = s.arrays.size
    · simp only [State.elements, State.newArray, Array.getElem?_push, if_pos he,
        Option.getD_some] at hv
      exact hi v hv
    · simp only [State.elements, State.newArray, Array.getElem?_push, if_neg he] at hv
      exact h.elements ref hr v hv

theorem writeElement (h : s.HoldsFrom w P) (ref i : Nat) {v : Value} (hv : P v) :
    (s.writeElement ref i v).HoldsFrom w P where
  bindings := h.bindings
  elements := by
    intro ref' hr u hu
    have hold := h.elements ref' hr
    by_cases he : ref = ref'
    · simp only [State.elements, State.writeElement, Array.getElem?_modify, if_pos he] at hu hold
      cases ha : s.arrays[ref']? with
      | none => simp [ha] at hu
      | some a =>
        simp only [ha, Option.map_some, Option.getD_some] at hu hold
        rcases Array.mem_or_eq_of_mem_setIfInBounds hu with hu | rfl
        · exact hold u hu
        · exact hv
    · simp only [State.elements, State.writeElement, Array.getElem?_modify, if_neg he] at hu hold
      exact hold u hu

theorem enter (h : s.HoldsFrom w P) (hzero : P (.int 0)) (f : String) (fn : Function)
    {vs : List Value} (hvs : ∀ v ∈ vs, P v) : (s.enter f fn vs).HoldsFrom w P where
  bindings := by
    intro i hi b hb
    have hframes : (s.enter f fn vs).frames = s.frames.push ⟨f, bindParams fn.params vs []⟩ := rfl
    by_cases he : i = s.frames.size
    · simp only [State.bindingsOf, hframes, Array.getElem?_push, if_pos he] at hb
      exact holds_bindParams hzero hvs (by simp) b hb
    · simp only [State.bindingsOf, hframes, Array.getElem?_push, if_neg he] at hb
      exact h.bindings i hi b hb
  elements := h.elements

end State.HoldsFrom

/-- Nothing from the watermark on refers below it. -/
structure State.Sealed (w : Watermark) (s : State) : Prop where
  frames : w.frames ≤ s.frames.size
  arrays : w.arrays ≤ s.arrays.size
  bindings : ∀ i, w.frames ≤ i → ∀ b ∈ s.bindingsOf i, b.2.Since w
  elements : ∀ ref, w.arrays ≤ ref → ∀ v ∈ s.elements ref, v.Since w

theorem State.sealed_next (s : State) : s.Sealed ⟨s.frames.size, s.arrays.size⟩ where
  frames := Nat.le_refl _
  arrays := Nat.le_refl _
  bindings := by
    intro i hi
    simp [State.bindingsOf, Array.getElem?_eq_none hi]
  elements := by
    intro ref hr
    simp [State.elements, Array.getElem?_eq_none hr]

namespace State.Sealed

variable {w : Watermark} {s t : State}

theorem held (h : s.Sealed w) : s.HoldsFrom w (Value.Since w) := ⟨h.bindings, h.elements⟩

/-- Beyond the watermark there may be more frames and arrays, as long as they hold nothing from
below. -/
theorem of_held (h : s.Sealed w) (hf : s.frames.size ≤ t.frames.size)
    (ha : s.arrays.size ≤ t.arrays.size) (ht : t.HoldsFrom w (Value.Since w)) : t.Sealed w where
  frames := Nat.le_trans h.frames hf
  arrays := Nat.le_trans h.arrays ha
  bindings := ht.bindings
  elements := ht.elements

theorem read (h : s.Sealed w) {i : Nat} (hi : w.frames ≤ i) (x : String) : (s.read i x).Since w :=
  h.held.read (Value.since_int w 0) hi x

theorem element (h : s.Sealed w) {ref : Nat} (hr : w.arrays ≤ ref) (i : Nat) :
    (((s.elements ref)[i]?).getD (.int 0)).Since w := h.held.element (Value.since_int w 0) hr i

theorem of_eq (h : s.Sealed w) (hf : t.frames = s.frames) (ha : t.arrays = s.arrays) : t.Sealed w :=
  h.of_held (Nat.le_of_eq (congrArg Array.size hf.symm))
    (Nat.le_of_eq (congrArg Array.size ha.symm))
    (h.held.of_eq hf ha)

theorem bind (h : s.Sealed w) (x : String) {v : Value} (hv : v.Since w) : (s.bind x v).Sealed w :=
  h.of_held (by simp [State.bind]) (Nat.le_refl _) (h.held.bind x hv)

theorem newArray (h : s.Sealed w) {items : Array Value} (hi : ∀ v ∈ items, v.Since w) :
    (s.newArray items).Sealed w :=
  h.of_held (Nat.le_refl _) (by simp [State.newArray]) (h.held.newArray hi)

theorem writeElement (h : s.Sealed w) (ref i : Nat) {v : Value} (hv : v.Since w) :
    (s.writeElement ref i v).Sealed w :=
  h.of_held (Nat.le_refl _) (by simp [State.writeElement]) (h.held.writeElement ref i hv)

theorem enter (h : s.Sealed w) (f : String) (fn : Function) {vs : List Value}
    (hvs : ∀ v ∈ vs, v.Since w) :
    (s.enter f fn vs).Sealed w :=
  h.of_held (by simp [State.enter, State.pushFrame, State.record]) (Nat.le_refl _)
    (h.held.enter (Value.since_int w 0) f fn hvs)

end State.Sealed

def State.SameButFrames (s t : State) : Prop :=
  ∃ F : Array Frame, t = { s with frames := F } ∧ F.size = s.frames.size

/-- Two states that differ in nothing but frames below a watermark at which they are sealed. -/
structure Beside (w : Watermark) (s t : State) : Prop where
  closed : s.Sealed w
  same : s.SameButFrames t
  above : ∀ i, w.frames ≤ i → t.frames[i]? = s.frames[i]?

/-- Two such states in the middle of a call that began at the watermark. -/
structure Inside (w : Watermark) (s t : State) : Prop extends Beside w s t where
  top : w.frames ≤ s.top
  returned : ∀ v, s.returnValue = some v → v.Since w

theorem State.SameButFrames.beside {s t : State} (h : s.SameButFrames t) :
    Beside ⟨s.frames.size, s.arrays.size⟩ s t where
  closed := s.sealed_next
  same := h
  above := by
    obtain ⟨F, rfl, hF⟩ := h
    intro i hi
    have hi : s.frames.size ≤ i := hi
    change F[i]? = s.frames[i]?
    rw [Array.getElem?_eq_none hi, Array.getElem?_eq_none (by omega)]

namespace Beside

variable {w : Watermark} {s t : State}

theorem elements_eq (h : Beside w s t) : t.elements = s.elements := by
  obtain ⟨F, rfl, -⟩ := h.same
  rfl

theorem top_eq (h : Beside w s t) : t.top = s.top := by
  obtain ⟨F, rfl, -⟩ := h.same
  rfl

theorem bindingsOf_eq (h : Beside w s t) {i : Nat} (hi : w.frames ≤ i) :
    t.bindingsOf i = s.bindingsOf i := by
  rw [State.bindingsOf, State.bindingsOf, h.above i hi]

theorem read_eq (h : Beside w s t) {i : Nat} (hi : w.frames ≤ i) (x : String) :
    t.read i x = s.read i x := by
  rw [State.read, State.read, h.bindingsOf_eq hi]

theorem enter (h : Beside w s t) (f : String) (fn : Function) {vs : List Value}
    (hvs : ∀ v ∈ vs, v.Since w) : Inside w (s.enter f fn vs) (t.enter f fn vs) := by
  obtain ⟨F, rfl, hF⟩ := h.same
  refine ⟨⟨h.closed.enter f fn hvs, ⟨F.push ⟨f, bindParams fn.params vs []⟩, ?_, ?_⟩, ?_⟩,
    h.closed.frames, ?_⟩
  · simp [State.enter, State.pushFrame, State.record, hF]
  · change (F.push _).size = (s.frames.push _).size
    rw [Array.size_push, Array.size_push, hF]
  · intro i hi
    have hi : F[i]? = s.frames[i]? := h.above i hi
    change (F.push _)[i]? = (s.frames.push _)[i]?
    rw [Array.getElem?_push, Array.getElem?_push, hF, hi]
  · simp [State.enter]

end Beside

namespace Inside

variable {w : Watermark} {s t : State}

theorem map (h : Inside w s t) {f : State → State}
    (hf : ∀ (s : State) (F : Array Frame), f { s with frames := F } = { f s with frames := F })
    (hframes : (f s).frames = s.frames) (hstack : (f s).stack = s.stack) (hclosed : (f s).Sealed w)
    (hreturned : ∀ v, (f s).returnValue = some v → v.Since w) : Inside w (f s) (f t) := by
  have htop : w.frames ≤ (f s).top := by
    rw [State.top, hstack]
    exact h.top
  obtain ⟨F, rfl, hF⟩ := h.same
  refine ⟨⟨hclosed, ⟨F, hf s F, by rw [hframes]; exact hF⟩, ?_⟩, htop, hreturned⟩
  intro i hi
  rw [hf, hframes]
  exact h.above i hi

theorem bind (h : Inside w s t) (x : String) {v : Value} (hv : v.Since w) :
    Inside w (s.bind x v) (t.bind x v) := by
  obtain ⟨F, rfl, hF⟩ := h.same
  refine ⟨⟨h.closed.bind x hv, ⟨_, rfl, by simpa [State.bind] using hF⟩, ?_⟩, h.top, h.returned⟩
  intro i hi
  have habove : F[i]? = s.frames[i]? := h.above i hi
  change (F.modify s.top _)[i]? = (s.frames.modify s.top _)[i]?
  rw [Array.getElem?_modify, Array.getElem?_modify, habove]

/-- A call that ends goes on with the frame and with what was under way before it. -/
theorem leave {u v : State} (h : Inside w s t) {f : String} {fn : Function} {vs : List Value}
    (hend : Inside w u v) (hstack : u.stack = (s.enter f fn vs).stack) :
    Inside w (u.leave f s.returnValue) (v.leave f t.returnValue) := by
  obtain ⟨F, rfl, -⟩ := h.same
  obtain ⟨G, rfl, hG⟩ := hend.same
  have htop : (u.leave f s.returnValue).top = s.top := by
    change u.stack.tail.headD _ = _
    rw [hstack]
    rfl
  exact ⟨⟨hend.closed.of_eq rfl rfl, ⟨G, rfl, hG⟩,
    hend.above⟩, by rw [htop]; exact h.top, h.returned⟩

end Inside

section Shown

open Exec

variable {w : Watermark} {s t : State}

theorem State.equal_eq (h : t.elements = s.elements) (n : Nat) (v u : Value) :
    t.equal n v u = s.equal n v u := by
  induction n generalizing v u with
  | zero => cases v <;> cases u <;> rfl
  | succ n ih =>
    have hn : t.equal n = s.equal n := funext fun v => funext fun u => ih v u
    cases v <;> cases u <;> simp only [State.equal, h, hn]

theorem State.ordered_eq (h : t.elements = s.elements) (op : BinaryOp) (n : Nat) (v u : Value) :
    t.ordered op n v u = s.ordered op n v u := by
  induction n generalizing v u with
  | zero => cases v <;> cases u <;> rfl
  | succ n ih =>
    have hn : t.equal n = s.equal n := funext fun v => funext fun u => State.equal_eq h n v u
    cases v <;> cases u <;> simp only [State.ordered, h, hn, ih]

theorem State.relate_eq (h : t.elements = s.elements) (op : BinaryOp) (v u : Value) :
    t.relate op v u = s.relate op v u := by
  unfold State.relate
  simp only [State.equal_eq h, State.ordered_eq h]

theorem State.display_eq (h : t.elements = s.elements) (n : Nat) (v : Value) :
    t.display n v = s.display n v := by
  induction n generalizing v with
  | zero => cases v <;> rfl
  | succ n ih =>
    have hn : t.display n = s.display n := funext ih
    cases v <;> simp only [State.display, h, hn]

theorem mapM_congr {f g : Value → Except Fault String} {vs : List Value} (h : ∀ v ∈ vs, f v = g v) :
    vs.mapM f = vs.mapM g := by
  induction vs with
  | nil => rfl
  | cons v vs ih =>
    rw [List.mapM_cons, List.mapM_cons, h v List.mem_cons_self, ih fun u hu =>
      h u (List.mem_cons_of_mem v hu)]

theorem listedBindings_congr {f g : Value → Except Fault String} {bs : Bindings}
    (h : ∀ b ∈ bs, f b.2 = g b.2) :
    listedBindings f bs = listedBindings g bs := by
  induction bs with
  | nil => rfl
  | cons b bs ih =>
    obtain ⟨x, v⟩ := b
    rw [listedBindings, listedBindings, h (x, v) List.mem_cons_self, ih fun b hb =>
      h b (List.mem_cons_of_mem _ hb)]

/-- A listing goes through pointers into frames, but from what was made since never into one that
was not. -/
theorem Beside.listing_eq (h : Beside w s t) (n : Nat) (trail : Trail) {v : Value}
    (hv : v.Since w) :
    t.listing n trail v = s.listing n trail v := by
  induction n generalizing trail v with
  | zero => cases v <;> rfl
  | succ n ih =>
    cases v with
    | number n o => rfl
    | text s => rfl
    | array ref =>
      have hitems (inside : Trail) : (s.elements ref).toList.mapM (t.listing n inside) =
          (s.elements ref).toList.mapM (s.listing n inside) :=
        mapM_congr fun u hu => ih inside (h.closed.elements ref hv u (Array.mem_toList_iff.1 hu))
      simp only [State.listing, h.elements_eq, hitems]
    | pointer p =>
      have hvars (inside : Trail) : listedBindings (t.listing n inside) (s.bindingsOf p.frame) =
          listedBindings (s.listing n inside) (s.bindingsOf p.frame) :=
        listedBindings_congr fun b hb => ih inside (h.closed.bindings p.frame hv b hb)
      simp only [State.listing, h.bindingsOf_eq hv, h.above p.frame hv, hvars]

theorem Beside.plainText_eq (h : Beside w s t) {v : Value} (hv : v.Since w) :
    t.plainText v = s.plainText v := by
  cases v with
  | number n o => exact h.listing_eq depthBudget _ hv
  | text s => rfl
  | array ref => exact h.listing_eq depthBudget _ hv
  | pointer p => rfl

theorem Beside.apply_eq (h : Beside w s t) (d : Directive) {v : Value} (hv : v.Since w) :
    d.apply t v = d.apply s v := by
  unfold Directive.apply
  simp only [State.display_eq h.elements_eq, h.plainText_eq hv]

theorem format_taken (s : State) {cs rest : List Char} {d : Directive}
    (h : Directive.take? cs = some (d, rest)) (vs : List Value) : format s ('%' :: cs) vs =
      if d.conversion = '%' then (do return '%' :: (← format s rest vs))
      else (do return (← d.apply s (vs.headD (.int 0))) ++ (← format s rest vs.tail)) := by
  rw [format.eq_def]
  simp only [if_true]
  split
  · rename_i htake
    rw [h] at htake
    cases htake
    rfl
  · rename_i htake
    rw [h] at htake
    cases htake

theorem format_untaken (s : State) {cs : List Char} (h : Directive.take? cs = none)
    (vs : List Value) :
    format s ('%' :: cs) vs = (do return '%' :: (← format s cs vs)) := by
  rw [format.eq_def]
  simp only [if_true]
  split
  · rename_i htake
    rw [h] at htake
    cases htake
  · rfl

theorem Beside.format_eq (h : Beside w s t) (cs : List Char) {vs : List Value}
    (hvs : ∀ v ∈ vs, v.Since w) :
    format t cs vs = format s cs vs := by
  fun_induction format s cs vs with
  | case1 vs => rw [format]
  | case2 vs cs d rest htake hconv ih => rw [format_taken t htake, if_pos hconv, ih hvs]
  | case3 vs cs d rest htake hconv ih =>
    have htail : ∀ v ∈ vs.tail, v.Since w := fun v hv => hvs v (List.mem_of_mem_tail hv)
    rw [format_taken t htake, if_neg hconv, ih htail,
      h.apply_eq d (holds_headD (Value.since_int w 0) hvs)]
  | case4 vs cs htake ih => rw [format_untaken t htake, ih hvs]
  | case5 vs c cs hc ih =>
    rw [format.eq_def]
    simp only [if_neg hc, ih hvs]

theorem Beside.outputLine_eq (h : Beside w s t) (args : List Expr) {vs : List Value}
    (hvs : ∀ v ∈ vs, v.Since w) :
    outputLine t args vs = outputLine s args vs := by
  have hall (vs : List Value) : displayAll t vs = displayAll s vs := by
    have hdisplay : t.display depthBudget = s.display depthBudget :=
      funext (State.display_eq h.elements_eq _)
    rw [displayAll, displayAll, hdisplay]
  unfold outputLine
  split
  · rw [h.format_eq _ fun v hv => hvs v (List.mem_cons_of_mem _ hv)]
  · rw [hall]

end Shown

end MiniC.Machine

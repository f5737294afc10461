import MiniC.Machine

/-! Where the fault that ends a run for its steps can come from. Comparing, writing and formatting
values may fail in many ways, but none of them counts a step, and none reports that there were too
many. The words of that report are its own: no other fault is told in them. Writing a value, and
setting it in a field that is not too wide, has a few faults of its own and no others. -/

namespace MiniC.Machine

/-- Whether a fault comes of counting steps, or of a ceiling that could not be reported. -/
def Fault.isLimit : Fault → Bool
  | .stepLimit _ | .unreported _ => true
  | _ => false

inductive Uncounted {α : Type} : Except Fault α → Prop
  | ok (a : α) : Uncounted (.ok a)
  | error {f : Fault} : f.isLimit = false → Uncounted (.error f)

section Uncounted

variable {α β : Type}

theorem Uncounted.bind {x : Except Fault α} {f : α → Except Fault β} (h : Uncounted x)
    (hf : ∀ a, Uncounted (f a)) :
    Uncounted (x >>= f) := by
  cases h with
  | ok a => exact hf a
  | error hg => exact .error hg

theorem Uncounted.map {x : Except Fault α} (h : Uncounted x) (f : α → β) : Uncounted (f <$> x) := by
  cases h with
  | ok a => exact .ok _
  | error hg => exact .error hg

end Uncounted

def Fault.isOfWriting : Fault → Bool
  | .number _ | .tooDeep | .numberExpected .. | .formatCharacter .. | .characterRange => true
  | _ => false

inductive Writes {α : Type} : Except Fault α → Prop
  | ok (a : α) : Writes (.ok a)
  | error {f : Fault} : f.isOfWriting = true → Writes (.error f)

section Writes

variable {α β : Type}

theorem Writes.bind {x : Except Fault α} {f : α → Except Fault β} (h : Writes x)
    (hf : ∀ a, Writes (f a)) :
    Writes (x >>= f) := by
  cases h with
  | ok a => exact hf a
  | error hg => exact .error hg

theorem Writes.uncounted {x : Except Fault α} (h : Writes x) : Uncounted x := by
  cases h with
  | ok a => exact .ok a
  | @error f hf =>
    apply Uncounted.error
    cases f with
    | stepLimit n => cases hf
    | unreported r => cases hf
    | _ => rfl

theorem writes_mapM {f : α → Except Fault β} (h : ∀ a, Writes (f a)) (as : List α) :
    Writes (as.mapM f) := by
  induction as with
  | nil => exact .ok _
  | cons a as ih =>
    rw [List.mapM_cons]
    exact (h a).bind fun b => ih.bind fun bs => .ok _

end Writes

section Compared

variable (s : State)

theorem uncounted_firstDifference {equal : Value → Value → Except Fault Bool}
    (h : ∀ v w, Uncounted (equal v w)) (vs ws : List Value) :
    Uncounted (firstDifference equal vs ws) := by
  fun_induction firstDifference equal vs ws with
  | case1 v vs w ws _ ih => exact ih
  | case2 v vs w ws _ ih =>
    apply (h v w).bind
    intro same
    cases same with
    | true => exact ih
    | false => exact .ok _
  | case3 => exact .ok _

theorem uncounted_equal (n : Nat) (v w : Value) : Uncounted (s.equal n v w) := by
  induction n generalizing v w with
  | zero => cases v <;> cases w <;> first | exact .ok _ | exact .error rfl
  | succ n ih =>
    cases v with
    | array i =>
      cases w with
      | array j =>
        unfold State.equal
        dsimp only
        split
        · exact .ok _
        · exact (uncounted_firstDifference ih _ _).bind fun _ => .ok _
      | _ => exact .ok _
    | _ => cases w <;> exact .ok _

theorem uncounted_ordered (op : BinaryOp) (n : Nat) (v w : Value) :
    Uncounted (s.ordered op n v w) := by
  induction n generalizing v w with
  | zero => cases v <;> cases w <;> first | exact .ok _ | exact .error rfl
  | succ n ih =>
    cases v with
    | array i =>
      cases w with
      | array j =>
        apply (uncounted_firstDifference (uncounted_equal s n) _ _).bind
        intro d
        cases d with
        | none => exact .ok _
        | some p => exact ih p.1 p.2
      | _ => exact .ok _
    | _ => cases w <;> exact .ok _

theorem uncounted_relate (op : BinaryOp) (v w : Value) : Uncounted (s.relate op v w) := by
  cases op with
  | eq => exact uncounted_equal s depthBudget v w
  | ne => exact (uncounted_equal s depthBudget v w).map _
  | _ =>
    apply (uncounted_ordered s _ depthBudget v w).bind
    intro b
    cases b with
    | none => exact .error rfl
    | some b => exact .ok b

end Compared

section Written

variable (s : State)

theorem writes_listedNumber (n : Number) : Writes (listedNumber n) := by
  unfold listedNumber
  cases n.write with
  | ok t => exact .ok t
  | error f => exact .error rfl

theorem writes_writeInt (n : Int) : Writes (writeInt n) := by
  unfold writeInt
  cases (Number.int n).write with
  | ok t => exact .ok t
  | error f => exact .error rfl

theorem writes_text (p : Pointer) : Writes p.text := by
  unfold Pointer.text
  cases p.index with
  | none => exact .ok _
  | some i => exact (writes_writeInt i).bind fun _ => .ok _

theorem writes_printedNumber (n : Number) : Writes (printedNumber n) := by
  unfold printedNumber
  split
  · split
    · exact writes_writeInt _
    · exact .ok _
  · exact writes_listedNumber _

theorem writes_display (n : Nat) (v : Value) : Writes (s.display n v) := by
  induction n generalizing v with
  | zero =>
    cases v with
    | number n o => exact writes_printedNumber n
    | text t => exact .ok t
    | pointer p => exact writes_text p
    | array ref => exact .error rfl
  | succ n ih =>
    cases v with
    | number n o => exact writes_printedNumber n
    | text t => exact .ok _
    | pointer p => exact writes_text p
    | array ref => exact (writes_mapM ih _).bind fun _ => .ok _

theorem writes_listedBindings {list : Value → Except Fault String} (h : ∀ v, Writes (list v))
    (bs : Bindings) :
    Writes (listedBindings list bs) := by
  induction bs with
  | nil => exact .ok _
  | cons b bs ih => exact (h b.2).bind fun _ => ih.bind fun _ => .ok _

theorem writes_listing (n : Nat) (trail : Trail) (v : Value) : Writes (s.listing n trail v) := by
  induction n generalizing trail v with
  | zero =>
    cases v with
    | number n o => exact writes_listedNumber n
    | text t => exact .ok _
    | _ => exact .error rfl
  | succ n ih =>
    cases v with
    | number n o => exact writes_listedNumber n
    | text t => exact .ok _
    | array ref =>
      unfold State.listing
      split
      · exact .ok _
      · exact (writes_mapM (ih _) _).bind fun _ => .ok _
    | pointer p =>
      unfold State.listing
      split
      · exact .ok _
      · dsimp only
        -- Whatever is shown of the frame, only the index is still to be written.
        cases p.index with
        | none =>
          split
          · exact .ok _
          · exact (writes_listedBindings (ih _) _).bind fun _ => .ok _
        | some i =>
          split
          · exact (Writes.ok _).bind fun _ => (writes_writeInt i).bind fun _ => .ok _
          · exact (writes_listedBindings (ih _) _).bind fun _ =>
              (Writes.ok _).bind fun _ => (writes_writeInt i).bind fun _ => .ok _

theorem writes_list (v : Value) : Writes (s.list v) := writes_listing s _ _ v

theorem writes_plainText (v : Value) : Writes (s.plainText v) := by
  cases v with
  | text t => exact .ok _
  | pointer p => exact writes_text p
  | _ => exact writes_list s _

theorem uncounted_writeInt (n : Int) : Uncounted (writeInt n) := (writes_writeInt n).uncounted

theorem uncounted_text (p : Pointer) : Uncounted p.text := (writes_text p).uncounted

theorem uncounted_list (v : Value) : Uncounted (s.list v) := (writes_list s v).uncounted

end Written

section Formatted

theorem uncounted_checkField (d : Directive) : Uncounted d.checkField := by
  unfold Directive.checkField
  split
  · exact .error rfl
  · split
    · exact .error rfl
    · exact .ok _

theorem writes_checkDigits (d : Directive) : Writes d.checkDigits := by
  unfold Directive.checkDigits
  split
  · exact .ok _
  · exact .error rfl

theorem writes_integer (d : Directive) (n : Int) : Writes (d.integer n) := by
  unfold Directive.integer
  dsimp only
  split
  · exact .ok _
  · exact .ok _
  · exact .ok _
  · exact (writes_writeInt _).bind fun _ => .ok _

theorem writes_character (d : Directive) (n : Int) : Writes (d.character n) := by
  unfold Directive.character
  split
  · exact .error rfl
  · exact .ok _

theorem writes_number (d : Directive) (n : Number) : Writes (d.number n) := by
  unfold Directive.number
  extract_lets lift
  have hlift {α : Type} (x : Except Number.Fault α) : Writes (lift x) := by
    cases x with
    | ok a => exact .ok a
    | error f => exact .error rfl
  have hchecked {x : Except Fault (List Char)} (hx : Writes x) :
      Writes (d.checkDigits >>= fun _ => x) :=
    (writes_checkDigits d).bind fun _ => hx
  split
  all_goals first
    | exact (hlift n.truncate).bind fun k => hchecked (writes_integer d k)
    | exact (hlift n.truncate).bind fun k => hchecked (writes_character d k)
    | exact hchecked ((hlift n.toFloat).bind fun _ => .ok _)

theorem writes_shownText (d : Directive) (t : String) : Writes (d.shownText t) :=
  (writes_checkDigits d).bind fun _ => .ok _

theorem writes_apply {d : Directive} (hfield : d.checkField = .ok ()) (s : State) (v : Value) :
    Writes (d.apply s v) := by
  unfold Directive.apply
  rw [hfield]
  apply (Writes.ok ()).bind
  intro _
  split
  · exact (writes_display s depthBudget v).bind fun t => writes_shownText d t
  · exact (writes_plainText s v).bind fun t => writes_shownText d t
  · cases v with
    | number n o => exact writes_number d n
    | _ => exact .error rfl

theorem apply_of_refused {d : Directive} {f : Fault} (hfield : d.checkField = .error f)
    (s : State) (v : Value) :
    d.apply s v = .error f := by
  unfold Directive.apply
  rw [hfield]
  rfl

theorem uncounted_apply (s : State) (d : Directive) (v : Value) : Uncounted (d.apply s v) := by
  have hchecked := uncounted_checkField d
  cases hfield : d.checkField with
  | ok _ => exact (writes_apply hfield s v).uncounted
  | error f =>
    rw [apply_of_refused hfield]
    rw [hfield] at hchecked
    cases hchecked with
    | error hf => exact .error hf

theorem uncounted_format (s : State) (cs : List Char) (vs : List Value) :
    Uncounted (format s cs vs) := by
  fun_induction format s cs vs with
  | case1 vs => exact .ok _
  | case2 vs cs d rest _ _ ih => exact ih.bind fun _ => .ok _
  | case3 vs cs d rest _ _ ih => exact (uncounted_apply s d _).bind fun _ => ih.bind fun _ => .ok _
  | case4 vs cs _ ih => exact ih.bind fun _ => .ok _
  | case5 vs c cs _ ih => exact ih.bind fun _ => .ok _

theorem uncounted_outputLine (s : State) (args : List Expr) (vs : List Value) :
    Uncounted (outputLine s args vs) := by
  apply Uncounted.map
  split
  · exact uncounted_format s _ _
  · exact ((writes_mapM (writes_display s depthBudget) _).bind fun _ => .ok _).uncounted

end Formatted

section Reported

def BeginsOther (s : String) : Prop := ∃ c, s.toList.head? = some c ∧ c ≠ 'E'

theorem BeginsOther.append {s : String} (h : BeginsOther s) (t : String) :
    BeginsOther (s ++ t) := by
  obtain ⟨c, hs, hc⟩ := h
  refine ⟨c, ?_, hc⟩
  rw [String.toList_append, List.head?_append, hs]
  rfl

theorem beginsOther_lengthMessage (x : String) {length : Int} (limit : Nat)
    (h : (Fault.arrayTooLong x length limit).isUnexpected = false) :
    BeginsOther (Fault.lengthMessage x length limit) := by
  have hrule : (if (Number.int length).isWritable = true then some Category.execution
      else none).isNone = false := h
  have hw : (Number.int length).isWritable = true := by
    revert hrule
    cases (Number.int length).isWritable with
    | true => exact fun _ => rfl
    | false => exact fun h => absurd h (by decide)
  have htext : (Number.int length).write = .ok (Number.int length).text := by
    rw [Number.write, if_pos hw]
  unfold Fault.lengthMessage
  generalize (Number.int length).write = w at htext
  subst htext
  simp only [String.append_assoc]
  exact .append ⟨_, rfl, by decide⟩ _

theorem Fault.beginsOther {f : Fault} (hf : ∀ n, f ≠ .stepLimit n) (hrule : f.isUnexpected = false)
    (hreal : ∀ l r, f ≠ .number (.notReal l r)) : BeginsOther f.message := by
  cases f with
  | number f =>
    cases f with
    | notReal l r => exact absurd rfl (hreal l r)
    | divisionByZero => exact ⟨_, rfl, by decide⟩
    | moduloByZero => exact ⟨_, rfl, by decide⟩
    | tooWide bits => exact .append (.append ⟨_, rfl, by decide⟩ _) _
    | _ => cases hrule
  | stepLimit n => exact absurd rfl (hf n)
  | arrayTooLong x length limit =>
    change BeginsOther (Fault.lengthMessage x length limit)
    exact beginsOther_lengthMessage x limit hrule
  | cannotNegate => cases hrule
  | cannotStep => cases hrule
  | formatCharacter => cases hrule
  | characterRange => cases hrule
  | tooDeep => exact ⟨_, rfl, by decide⟩
  | unreported r =>
    change BeginsOther Fault.tooDeep.message
    exact ⟨_, rfl, by decide⟩
  | bracesOutside => exact ⟨_, rfl, by decide⟩
  | _ =>
    unfold Fault.message
    simp only [String.append_assoc]
    exact .append ⟨_, rfl, by decide⟩ _

theorem Fault.report_ne_stepLimit {f : Fault} (hf : ∀ n, f ≠ .stepLimit n) (n : Nat) :
    f.report ≠ (Fault.stepLimit n).report := by
  have hlimit : (Fault.stepLimit n).report =
      "Execution ex" ++ ("ceeded " ++ toString n ++ " steps (possible infinite loop)") := by
    rw [← String.append_assoc, ← String.append_assoc]
    rfl
  intro h
  rw [hlimit] at h
  cases hrule : f.isUnexpected with
  | true =>
    rw [Fault.report, if_pos hrule] at h
    have hletter := congrArg (fun t : String => t.toList[11]?) h
    simp [String.toList_append] at hletter
  | false =>
    rw [Fault.report, if_neg (by simp [hrule])] at h
    by_cases hreal : ∃ l r, f = .number (.notReal l r)
    · obtain ⟨l, r, rfl⟩ := hreal
      have hlast := congrArg (fun t : String => t.toList.getLast?) h
      change (l ++ " ^ " ++ r ++ " has no real value").toList.getLast? = _ at hlast
      simp only [String.toList_append, List.getLast?_append] at hlast
      exact absurd hlast (of_decide_eq_false rfl)
    · obtain ⟨c, hc, hne⟩ := Fault.beginsOther hf hrule fun l r hf => hreal ⟨l, r, hf⟩
      rw [h, String.toList_append, List.head?_append] at hc
      exact hne (Option.some.inj hc).symm

end Reported

end MiniC.Machine

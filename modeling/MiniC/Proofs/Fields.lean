import MiniC.Proofs.Faults
import MiniC.Proofs.Formats
import MiniC.Proofs.Numerals

/-! The widest field of a format. Digits are held against it with their leading zeros cut off, and
long ones by their length alone, which agrees with the number they write. So a text is made only of
directives that fit, and the fault of a field that is too wide names the first directive that does
not. Main statement: `format_field_ceiling`. -/

namespace MiniC.Decimal

theorem ofDigitChars_dropWhile {p : Char → Bool} {ds : List Char}
    (hp : ∀ c ∈ ds, p c = true → c = '0') :
    Nat.ofDigitChars 10 (ds.dropWhile p) 0 = Nat.ofDigitChars 10 ds 0 := by
  induction ds with
  | nil => rfl
  | cons c ds ih =>
    by_cases hc : p c = true
    · obtain rfl := hp c List.mem_cons_self hc
      rw [List.dropWhile_cons_of_pos hc, ih fun b hb => hp b (List.mem_cons_of_mem _ hb),
        Nat.ofDigitChars_cons]
      rfl
    · rw [List.dropWhile_cons_of_neg hc]

theorem pow_le_ofDigitChars {c : Char} (hc : Text.isAsciiDigit c = true) (hzero : c ≠ '0')
    (ds : List Char) :
    10 ^ ds.length ≤ Nat.ofDigitChars 10 (c :: ds) 0 := by
  have hpos : 1 ≤ c.toNat - '0'.toNat := by
    have hrange := (toNat_of_isAsciiDigit hc).1
    have hne : c.toNat ≠ '0'.toNat := fun h => hzero (Char.toNat_inj.1 h)
    have hcode : '0'.toNat = 48 := rfl
    omega
  calc 10 ^ ds.length = 10 ^ ds.length * 1 := (Nat.mul_one _).symm
    _ ≤ 10 ^ ds.length * (c.toNat - '0'.toNat) := Nat.mul_le_mul_left _ hpos
    _ ≤ 10 ^ ds.length * (c.toNat - '0'.toNat) + Nat.ofDigitChars 10 ds 0 := Nat.le_add_right _ _
    _ = Nat.ofDigitChars 10 ds (c.toNat - '0'.toNat) := Nat.ofDigitChars_eq_ofDigitChars_zero.symm
    _ = Nat.ofDigitChars 10 (c :: ds) 0 := by rw [Nat.ofDigitChars_cons, Nat.mul_zero, Nat.zero_add]

end MiniC.Decimal

namespace MiniC.Machine

namespace Directive

def widthNumber (d : Directive) : Nat := Nat.ofDigitChars 10 d.width 0

def precisionNumber (d : Directive) : Nat := Nat.ofDigitChars 10 d.precisionDigits 0

/-- A directive that asks for no wider field than there may be. -/
structure Fits (d : Directive) : Prop where
  width : d.widthNumber ≤ maxField
  precision : d.precisionNumber ≤ maxField

/-- The part of a directive that asks for too wide a field; the width is looked at first. -/
inductive Oversize (d : Directive) : String → Prop
  | width : maxField < d.widthNumber → d.Oversize "width"
  | precision : d.widthNumber ≤ maxField → maxField < d.precisionNumber → d.Oversize "precision"

structure IsAscii (d : Directive) : Prop where
  width : ∀ c ∈ d.width, Text.isAsciiDigit c = true
  precision : ∀ c ∈ d.precisionDigits, Text.isAsciiDigit c = true

section Ceiling

/-- Digits ask for too wide a field exactly when the number they write is above the ceiling, however
many they are. -/
theorem exceeds_iff {ds : List Char} (hd : ∀ c ∈ ds, Text.isAsciiDigit c = true) :
    exceeds ds = true ↔ maxField < Nat.ofDigitChars 10 ds 0 := by
  have hcut : Nat.ofDigitChars 10 (ds.dropWhile (· = '0')) 0 = Nat.ofDigitChars 10 ds 0 :=
    Decimal.ofDigitChars_dropWhile fun c _ hc => by simpa using hc
  have hrest : ∀ c ∈ ds.dropWhile (· = '0'), Text.isAsciiDigit c = true :=
    fun c hc => hd c ((List.dropWhile_sublist _).subset hc)
  have hhead := List.head?_dropWhile_not (fun c : Char => decide (c = '0')) ds
  rw [exceeds, Decimal.valueOf_digits hrest, hcut, Bool.or_eq_true, decide_eq_true_iff,
    decide_eq_true_iff]
  refine ⟨?_, Or.inr⟩
  rintro (hlong | hwide)
  · -- Five digits behind the zeros write ten thousand or more.
    rw [← hcut]
    cases hds : ds.dropWhile (· = '0') with
    | nil => simp [hds] at hlong
    | cons c cs =>
      rw [hds] at hlong hrest hhead
      have hpow := Decimal.pow_le_ofDigitChars (hrest c List.mem_cons_self)
        (by simpa using hhead) cs
      have hfour : 10 ^ 4 ≤ 10 ^ cs.length :=
        Nat.pow_le_pow_right (by decide) (Nat.lt_succ_iff.1 hlong)
      have hmax : maxField < 10 ^ 4 := by decide
      omega
  · exact hwide

example : exceeds ['0', '0', '1', '0', '2', '4'] = false ∧ exceeds ['1', '0', '2', '5'] = true :=
  by decide

variable {d : Directive}

/-- A zero that was written at the beginning of a width is one of the flags, and the width is the
same number. -/
theorem IsAscii.widthNumber_taken (h : d.IsAscii) : d.taken.widthNumber = d.widthNumber := by
  apply Decimal.ofDigitChars_dropWhile
  intro c hc hflag
  have hdigit := Decimal.toNat_of_isAsciiDigit (h.width c hc)
  simp only [isFlag, Bool.or_eq_true, decide_eq_true_eq] at hflag
  rcases hflag with (((rfl | rfl) | rfl) | rfl) | rfl
  all_goals first
    | rfl
    | exact absurd hdigit (by decide)

theorem IsAscii.taken (h : d.IsAscii) : d.taken.IsAscii :=
  ⟨fun c hc => h.width c ((List.dropWhile_sublist _).subset hc), h.precision⟩

theorem text_taken (d : Directive) : d.taken.text = d.text := by
  simp only [text, Directive.taken, List.append_assoc]
  rw [← List.append_assoc (d.width.takeWhile isFlag), List.takeWhile_append_dropWhile]

theorem IsAscii.checkField_cases (h : d.IsAscii) : d.taken.checkField = .ok () ∧ d.Fits ∨
    ∃ part, d.taken.checkField = .error (.fieldTooWide part (String.ofList d.text)) ∧
    d.Oversize part := by
  have hwidth : exceeds d.taken.width = true ↔ maxField < d.widthNumber := by
    rw [← h.widthNumber_taken]
    exact exceeds_iff h.taken.width
  have hprecision : exceeds d.taken.precisionDigits = true ↔ maxField < d.precisionNumber :=
    exceeds_iff h.precision
  rw [checkField, text_taken]
  -- A precision is looked at only behind a width that fits.
  split
  · next hw => exact .inr ⟨_, rfl, .width (hwidth.1 hw)⟩
  · next hw =>
    have hw : d.widthNumber ≤ maxField := Nat.le_of_not_lt (mt hwidth.2 hw)
    split
    · next hp => exact .inr ⟨_, rfl, .precision hw (hprecision.1 hp)⟩
    · next hp => exact .inl ⟨rfl, hw, Nat.le_of_not_lt (mt hprecision.2 hp)⟩

theorem Oversize.not_fits {part : String} (h : d.Oversize part) : ¬d.Fits := by
  intro hfits
  cases h with
  | width hw => exact absurd hfits.width (Nat.not_le_of_lt hw)
  | precision _ hp => exact absurd hfits.precision (Nat.not_le_of_lt hp)

theorem Oversize.unique {part part' : String} (h : d.Oversize part) (h' : d.Oversize part') :
    part = part' := by
  cases h with
  | width hw =>
    cases h' with
    | width _ => rfl
    | precision hw' _ => exact absurd hw' (Nat.not_le_of_lt hw)
  | precision hw _ =>
    cases h' with
    | width hw' => exact absurd hw (Nat.not_le_of_lt hw')
    | precision _ _ => rfl

theorem IsComplete.isAscii (hd : d.IsComplete)
    (h : ∀ c ∈ d.text, Text.isDecimalDigit c = true → Text.isAsciiDigit c = true) : d.IsAscii := by
  constructor
  · intro c hc
    exact h c (by simp [text, hc]) (hd.width c hc)
  · intro c hc
    rw [precisionDigits] at hc
    cases hds : d.precision with
    | none => simp [hds] at hc
    | some ds =>
      have hmem : c ∈ ds := by simpa [hds] using hc
      exact h c (by simp [text, pointText, hds, hmem]) ((hd.precision ds hds).2 c hmem)

end Ceiling

section Occurrence

variable {cs rest : List Char} {d : Directive}

/-- The directives of a text, from left to right: where one stands it is taken whole, and any other
character is passed over. A width may be told from the flags in front of it in more than one way. -/
inductive Occur : List Char → List Directive → Prop
  | nil : Occur [] []
  | directive {d : Directive} {rest : List Char} {ds : List Directive} :
    d.IsComplete → Occur rest ds → Occur (d.text ++ rest) (d :: ds)
  | other {c : Char} {cs : List Char} {ds : List Directive} :
    (∀ (d : Directive) (rest : List Char), d.IsComplete → c :: cs ≠ d.text ++ rest) → Occur cs ds →
      Occur (c :: cs) ds

theorem exists_occur (cs : List Char) : ∃ ds, Occur cs ds := by
  induction hn : cs.length using Nat.strongRecOn generalizing cs with
  | ind n ih =>
    subst hn
    cases cs with
    | nil => exact ⟨[], .nil⟩
    | cons c cs =>
      by_cases hstands : ∃ d : Directive, ∃ rest, d.IsComplete ∧ c :: cs = d.text ++ rest
      · obtain ⟨d, rest, hd, htext⟩ := hstands
        have hlt : rest.length < (c :: cs).length := by
          rw [htext, text, List.cons_append, List.length_cons, List.length_append]
          omega
        obtain ⟨ds, hds⟩ := ih _ hlt rest rfl
        exact ⟨d :: ds, htext ▸ .directive hd hds⟩
      · push Not at hstands
        obtain ⟨ds, hds⟩ := ih _ (Nat.lt_succ_self cs.length) cs rfl
        exact ⟨ds, .other hstands hds⟩

theorem Occur.complete {ds : List Directive} (h : Occur cs ds) : ∀ d ∈ ds, d.IsComplete := by
  induction h with
  | nil => simp
  | directive hd _ ih => exact List.forall_mem_cons.2 ⟨hd, ih⟩
  | other _ _ ih => exact ih

theorem occur_texts {ds : List Directive} (h : ∀ d ∈ ds, d.IsComplete) :
    Occur (ds.flatMap text) ds := by
  induction ds with
  | nil => exact .nil
  | cons d ds ih =>
    rw [List.flatMap_cons]
    exact .directive (h d List.mem_cons_self) (ih fun e he => h e (List.mem_cons_of_mem d he))

theorem Occur.plain {c : Char} (hc : c ≠ '%') {ds : List Directive} (h : Occur cs ds) :
    Occur (c :: cs) ds :=
  .other (fun _ _ _ htext => hc (List.cons.inj htext).1) h

theorem Occur.isAscii {ds : List Directive} (h : Occur cs ds)
    (hascii : ∀ c ∈ cs, Text.isDecimalDigit c = true → Text.isAsciiDigit c = true) :
    ∀ d ∈ ds, d.IsAscii := by
  induction h with
  | nil => simp
  | directive hd _ ih =>
    exact List.forall_mem_cons.2 ⟨hd.isAscii fun c hc => hascii c (List.mem_append_left _ hc),
      ih fun c hc => hascii c (List.mem_append_right _ hc)⟩
  | other _ _ ih => exact ih fun c hc => hascii c (List.mem_cons_of_mem _ hc)

theorem takePrecision_isSome {ds : List Char} (h : (takePrecision cs).1 = some ds) :
    ds ≠ [] ∧ ∀ c ∈ ds, Text.isDecimalDigit c = true := by
  unfold takePrecision at h
  split at h
  · split at h
    · cases h
    · next hne =>
      obtain rfl := Option.some.inj h
      exact ⟨hne, fun c hc => List.mem_takeWhile_imp hc⟩
  · cases h

theorem takeLength_mem (cs : List Char) : (takeLength cs).1 ∈ lengths := by
  unfold takeLength
  split <;> simp [lengths]

theorem isComplete_of_take? (h : take? cs = some (d, rest)) : d.IsComplete := by
  simp only [take?] at h
  split at h
  · split at h
    · next hc =>
      obtain ⟨rfl, rfl⟩ := Prod.mk.inj (Option.some.inj h)
      exact {
        flags := fun c hc => List.mem_takeWhile_imp hc
        width := fun c hc => List.mem_takeWhile_imp hc
        precision := fun ds hds => takePrecision_isSome hds
        length := takeLength_mem _
        conversion := by simpa using hc }
    · cases h
  · cases h

theorem take?_eq_none_iff : take? cs = none ↔
    ∀ (d : Directive) (rest : List Char), d.IsComplete → '%' :: cs ≠ d.text ++ rest := by
  constructor
  · intro h d rest hd htext
    obtain rfl : cs = d.flags ++ d.width ++ pointText d.precision ++ d.length ++
        [d.conversion] ++ rest :=
      (List.cons.inj htext).2
    rw [take?_append hd] at h
    cases h
  · intro h
    cases htake : take? cs with
    | none => rfl
    | some p => exact absurd (take?_eq_some htake) (h p.1 p.2 (isComplete_of_take? htake))

end Occurrence

end Directive

section Run

open Directive

variable (s : State)

theorem format_other {c : Char} {cs : List Char}
    (h : ∀ (d : Directive) (rest : List Char), d.IsComplete → c :: cs ≠ d.text ++ rest)
    (vs : List Value) :
    format s (c :: cs) vs = (do return c :: (← format s cs vs)) := by
  by_cases hc : c = '%'
  · subst hc
    exact format_untaken s (take?_eq_none_iff.2 h) vs
  · exact format_plain s hc cs vs

def setAll : List Directive → List Value → Except Fault Unit
  | [], _ => return ()
  | d :: ds, vs => do
    let _ ← (Piece.directive d).set s vs
    setAll ds (vs.drop (Piece.directive d).arity)

/-- A format fails as its directives do: what stands between them is copied, and each takes its own
value. -/
theorem discard_format {cs : List Char} {ds : List Directive} (h : Occur cs ds) (vs : List Value) :
    (fun _ => ()) <$> format s cs vs = setAll s ds vs := by
  induction h generalizing vs with
  | nil => simp [format, setAll]
  | @directive d rest ds hd _ ih =>
    have hpiece := format_piece s (p := .directive d) hd rest vs
    change _ <$> format s ((Piece.directive d).text ++ rest) vs = _
    rw [hpiece, setAll, ← ih]
    simp
  | other hc _ ih =>
    rw [format_other s hc, ← ih]
    simp

theorem setAll_append (before after : List Directive) (vs : List Value) :
    setAll s (before ++ after) vs = (do
      setAll s before vs
      setAll s after (vs.drop (Piece.total (before.map .directive)))) := by
  induction before generalizing vs with
  | nil => rfl
  | cons d before ih =>
    rw [List.cons_append, setAll, setAll, List.map_cons, Piece.total_cons, ← List.drop_drop]
    simp only [ih, bind_assoc]

theorem exists_set_eq_error {ds : List Directive} {vs : List Value} {f : Fault}
    (h : setAll s ds vs = .error f) :
    ∃ before d after, ds = before ++ d :: after ∧ setAll s before vs = .ok () ∧
      (Piece.directive d).set s (vs.drop (Piece.total (before.map .directive))) = .error f := by
  induction ds generalizing vs with
  | nil => cases h
  | cons d ds ih =>
    rw [setAll] at h
    cases hset : (Piece.directive d).set s vs with
    | error g =>
      rw [hset] at h
      cases h
      exact ⟨[], d, ds, rfl, rfl, hset⟩
    | ok field =>
      rw [hset] at h
      obtain ⟨before, e, after, rfl, hbefore, he⟩ := ih h
      refine ⟨d :: before, e, after, rfl, ?_, ?_⟩
      · rw [setAll, hset]
        exact hbefore
      · rwa [List.map_cons, Piece.total_cons, ← List.drop_drop]

theorem setAll_eq_error_iff {ds : List Directive} {vs : List Value} {f : Fault} :
    setAll s ds vs = .error f ↔
    ∃ before d after, ds = before ++ d :: after ∧ setAll s before vs = .ok () ∧
      (Piece.directive d).set s (vs.drop (Piece.total (before.map .directive))) = .error f := by
  refine ⟨exists_set_eq_error s, ?_⟩
  rintro ⟨before, d, after, rfl, hbefore, hd⟩
  rw [setAll_append, hbefore]
  change setAll s (d :: after) _ = _
  rw [setAll, hd]
  rfl

theorem exists_set_eq_ok {ds : List Directive} {vs : List Value} (h : setAll s ds vs = .ok ())
    {d : Directive} (hd : d ∈ ds) : ∃ ws field, (Piece.directive d).set s ws = .ok field := by
  induction ds generalizing vs with
  | nil => cases hd
  | cons e ds ih =>
    rw [setAll] at h
    cases hset : (Piece.directive e).set s vs with
    | error g =>
      rw [hset] at h
      cases h
    | ok field =>
      rw [hset] at h
      rcases List.mem_cons.1 hd with rfl | hd
      · exact ⟨vs, field, hset⟩
      · exact ih h hd

section Set

variable {s} {d : Directive} {vs : List Value}

theorem fits_of_set (hascii : d.IsAscii) (hc : d.conversion ≠ '%') {field : List Char}
    (h : (Piece.directive d).set s vs = .ok field) : d.Fits := by
  rw [Piece.set, if_neg hc] at h
  rcases hascii.checkField_cases with ⟨-, hfits⟩ | ⟨part, hrefused, -⟩
  · exact hfits
  · rw [apply_of_refused hrefused] at h
    cases h

theorem set_eq_tooWide_iff (hascii : d.IsAscii) {part name : String} :
    (Piece.directive d).set s vs = .error (.fieldTooWide part name) ↔
      d.conversion ≠ '%' ∧ d.Oversize part ∧ name = String.ofList d.text := by
  by_cases hc : d.conversion = '%'
  · simp [Piece.set, hc, pure, Except.pure]
  · rw [Piece.set, if_neg hc]
    rcases hascii.checkField_cases with ⟨hchecked, hfits⟩ | ⟨part', hrefused, hpart'⟩
    · constructor
      · intro h
        have hwrites := writes_apply hchecked s (vs.headD (.int 0))
        rw [h] at hwrites
        cases hwrites with
        | error hf => cases hf
      · rintro ⟨-, hpart, -⟩
        exact absurd hfits hpart.not_fits
    · rw [apply_of_refused hrefused]
      constructor
      · rintro ⟨⟩
        exact ⟨hc, hpart', rfl⟩
      · rintro ⟨-, hpart, rfl⟩
        rw [hpart.unique hpart']

end Set

section Ends

variable {s} {cs : List Char} {ds : List Directive} {vs : List Value}

theorem format_eq_error_iff (h : Occur cs ds) {f : Fault} :
    format s cs vs = .error f ↔ setAll s ds vs = .error f := by
  rw [← discard_format s h]
  cases format s cs vs with
  | ok out => simp
  | error g => simp

theorem format_ok_iff (h : Occur cs ds) :
    (∃ out, format s cs vs = .ok out) ↔ setAll s ds vs = .ok () := by
  rw [← discard_format s h]
  cases format s cs vs with
  | ok out => simp
  | error g => simp

end Ends

theorem report_fieldTooWide (part name : String) :
    (Fault.fieldTooWide part name).report = s!"printf: {part} in '{name}' exceeds {maxField}" := by
  have hwords : "' exceeds 1024" = "' exceeds " ++ toString maxField := by decide
  change "printf: " ++ part ++ " in '" ++ name ++ "' exceeds 1024" = _
  rw [hwords, ← String.append_assoc]
  rfl

/-- A text is made of a format only if every directive in it that takes a value fits, and it is
refused for its fields exactly where a directive does not fit that comes behind directives that
could be set. The fault names the part and the directive as written, and the ceiling. -/
theorem format_field_ceiling {cs : List Char}
    (hascii : ∀ c ∈ cs, Text.isDecimalDigit c = true → Text.isAsciiDigit c = true)
    (vs : List Value) :
    (∃ ds, Occur cs ds) ∧ (∀ ds, Occur cs ds →
      (∀ out, format s cs vs = .ok out → ∀ d ∈ ds, d.conversion ≠ '%' → d.Fits) ∧
      ∀ part name, format s cs vs = .error (.fieldTooWide part name) ↔
        ∃ before d after, ds = before ++ d :: after ∧
        (∃ out, format s (before.flatMap text) vs = .ok out) ∧
          d.conversion ≠ '%' ∧ d.Oversize part ∧ name = String.ofList d.text) ∧
    ∀ part name, (Fault.fieldTooWide part name).report =
      s!"printf: {part} in '{name}' exceeds {maxField}" := by
  refine ⟨exists_occur cs, fun ds hds => ⟨?_, ?_⟩, report_fieldTooWide⟩
  · intro out hout d hd hc
    obtain ⟨ws, field, hset⟩ := exists_set_eq_ok s ((format_ok_iff hds).1 ⟨out, hout⟩) hd
    exact fits_of_set (hds.isAscii hascii d hd) hc hset
  · intro part name
    rw [format_eq_error_iff hds, setAll_eq_error_iff]
    refine exists_congr fun before => exists_congr fun d => exists_congr fun after => ?_
    refine and_congr_right ?_
    rintro rfl
    have hcomplete : ∀ e ∈ before, e.IsComplete := fun e he =>
      hds.complete e (List.mem_append_left _ he)
    have hd : d.IsAscii := hds.isAscii hascii d (by simp)
    rw [format_ok_iff (occur_texts hcomplete), set_eq_tooWide_iff hd]

end Run

def paddedWidth : Directive := ⟨['-', '0'], ['7'], none, [], 'x'⟩

def paddedPrecision : Directive := ⟨[], [], some ['0', '0', '0', '1', '0', '2', '5'], ['l'], 'f'⟩

theorem occur_padded :
    Directive.Occur "%, %-07x%.0001025lf".toList [paddedWidth, paddedPrecision] := by
  have hcomplete : ∀ d ∈ [paddedWidth, paddedPrecision], d.IsComplete := by
    simp only [List.mem_cons, List.not_mem_nil, or_false, forall_eq_or_imp, forall_eq]
    refine ⟨⟨List.all_eq_true.1 (by decide), List.all_eq_true.1 (by decide),
      ?_, by decide, by decide⟩,
      ⟨List.all_eq_true.1 rfl, List.all_eq_true.1 rfl, ?_, by decide, by decide⟩⟩
    · rintro ds ⟨⟩
    · rintro ds ⟨⟩
      exact ⟨by decide, List.all_eq_true.1 (by decide)⟩
  have htexts := Directive.occur_texts hcomplete
  exact .other (Directive.take?_eq_none_iff.1 rfl) (.plain (by decide) (.plain (by decide) htexts))

theorem format_field_ceiling_padded :
    (∀ c ∈ "%, %-07x%.0001025lf".toList, Text.isDecimalDigit c = true →
      Text.isAsciiDigit c = true) ∧
    Directive.Occur "%, %-07x%.0001025lf".toList [paddedWidth, paddedPrecision] ∧
    format .initial "%, %-07x%.0001025lf".toList [.int 5] =
      .error (.fieldTooWide "precision" "%.0001025lf") := by
  have hascii : ∀ c ∈ "%, %-07x%.0001025lf".toList, Text.isDecimalDigit c = true →
      Text.isAsciiDigit c = true := by
    have hall : "%, %-07x%.0001025lf".toList.all
        (fun c => !Text.isDecimalDigit c || Text.isAsciiDigit c) = true := by
      decide
    intro c hc hdigit
    simpa [hdigit] using List.all_eq_true.1 hall c hc
  have htake : Directive.take? ['-', '0', '7', 'x'] = some (paddedWidth, []) := rfl
  have hbefore : format .initial ([paddedWidth].flatMap Directive.text) [.int 5] =
      .ok "5      ".toList := by
    change format .initial ('%' :: ['-', '0', '7', 'x']) _ = _
    rw [format_taken _ htake, if_neg (by decide), format]
    rfl
  have hprecision : paddedPrecision.Oversize "precision" := .precision (by decide) (by decide)
  have hfields := (format_field_ceiling .initial hascii [.int 5]).2.1 _ occur_padded
  exact ⟨hascii, occur_padded,
    (hfields.2 _ _).2 ⟨[paddedWidth], paddedPrecision, [], rfl,
      ⟨_, hbefore⟩, by decide, hprecision, rfl⟩⟩

end MiniC.Machine

import Mathlib.Data.List.TakeWhile
import MiniC.Proofs.Watermark

/-! Formats are set piece by piece. A piece is a directive in full or text without a percent sign;
no piece goes on with what stands behind it, and each takes the values of its own directive and no
more. Main statement: `format_append`. -/

namespace MiniC.Machine

namespace Directive

def lengths : List (List Char) :=
  [[], ['h', 'h'], ['h'], ['l', 'l'], ['l'], ['L'], ['z'], ['j'], ['t']]

structure IsComplete (d : Directive) : Prop where
  flags : ∀ c ∈ d.flags, isFlag c = true
  width : ∀ c ∈ d.width, Text.isDecimalDigit c = true
  precision : ∀ ds ∈ d.precision, ds ≠ [] ∧ ∀ c ∈ ds, Text.isDecimalDigit c = true
  length : d.length ∈ lengths
  conversion : d.conversion ∈ conversions

/-- A directive as it is taken from its text, where zeros at the beginning of a width are flags. -/
def taken (d : Directive) : Directive :=
  { d with flags := d.flags ++ d.width.takeWhile isFlag, width := d.width.dropWhile isFlag }

section Take

variable {p : Char → Bool} {xs rest : List Char}

theorem takeWhile_append_stop (h : ∀ c ∈ rest.head?, p c = false) :
    (xs ++ rest).takeWhile p = xs.takeWhile p := by
  induction xs with
  | nil =>
    cases rest with
    | nil => rfl
    | cons c rest => simp [h c rfl]
  | cons c xs ih =>
    by_cases hc : p c = true
    · simp [hc, ih]
    · simp [hc]

theorem dropWhile_append_stop (h : ∀ c ∈ rest.head?, p c = false) :
    (xs ++ rest).dropWhile p = xs.dropWhile p ++ rest := by
  induction xs with
  | nil =>
    cases rest with
    | nil => rfl
    | cons c rest => simp [h c rfl]
  | cons c xs ih =>
    by_cases hc : p c = true
    · simp [hc, ih]
    · simp [hc]

theorem takeLength_append {l : List Char} (hl : l ∈ lengths) {c : Char} (hc : c ∈ conversions) :
    takeLength (l ++ c :: rest) = (l, c :: rest) := by
  have hmark : ∀ c ∈ conversions, c ∉ ['h', 'l', 'L', 'z', 'j', 't'] := by simp [conversions]
  have hne := hmark c hc
  simp only [lengths, List.mem_cons, List.not_mem_nil, or_false, not_or] at hl hne
  rcases hl with rfl | rfl | rfl | rfl | rfl | rfl | rfl | rfl | rfl
  all_goals simp [takeLength, hne]

/-- Neither a flag nor a digit nor a point goes on where a directive's length or conversion
stands. -/
theorem head_length {l : List Char} (hl : l ∈ lengths) {c : Char} (hc : c ∈ conversions)
    (rest : List Char) :
    ∀ b ∈ (l ++ c :: rest).head?, isFlag b = false ∧ Text.isDecimalDigit b = false ∧ b ≠ '.' := by
  have hall : (conversions ++ lengths.flatten).all
      (fun b => !isFlag b && (!Text.isDecimalDigit b && b != '.')) = true := by decide
  intro b hb
  have hmem : b ∈ conversions ++ lengths.flatten := by
    cases l with
    | nil =>
      obtain rfl := Option.some.inj hb
      exact List.mem_append_left _ hc
    | cons a l =>
      obtain rfl := Option.some.inj hb
      exact List.mem_append_right _ (List.mem_flatten_of_mem hl List.mem_cons_self)
  simpa using List.all_eq_true.1 hall b hmem

theorem takePrecision_append {o : Option (List Char)}
    (ho : ∀ ds ∈ o, ds ≠ [] ∧ ∀ c ∈ ds, Text.isDecimalDigit c = true)
    (hr : ∀ c ∈ rest.head?, Text.isDecimalDigit c = false ∧ c ≠ '.') :
    takePrecision (pointText o ++ rest) = (o, rest) := by
  cases o with
  | none =>
    cases rest with
    | nil => rfl
    | cons c rest => simp [pointText, takePrecision, (hr c rfl).2]
  | some ds =>
    obtain ⟨hne, hds⟩ := ho ds rfl
    have hstop : ∀ c ∈ rest.head?, Text.isDecimalDigit c = false := fun c hc => (hr c hc).1
    have htake : (ds ++ rest).takeWhile Text.isDecimalDigit = ds := by
      rw [takeWhile_append_stop hstop, List.takeWhile_eq_self_iff.2 hds]
    have hdrop : (ds ++ rest).dropWhile Text.isDecimalDigit = rest := by
      rw [dropWhile_append_stop hstop, List.dropWhile_eq_nil_iff.2 hds, List.nil_append]
    simp [pointText, takePrecision, htake, hdrop, hne]

theorem take?_append {d : Directive} (h : d.IsComplete) (rest : List Char) :
    take? (d.flags ++ d.width ++ pointText d.precision ++ d.length ++ [d.conversion] ++ rest) =
      some (d.taken, rest) := by
  have hlength := head_length h.length h.conversion rest
  have hbehind : ∀ b ∈ (pointText d.precision ++ (d.length ++ d.conversion :: rest)).head?,
      isFlag b = false ∧ Text.isDecimalDigit b = false := by
    cases d.precision with
    | none => exact fun b hb => ⟨(hlength b hb).1, (hlength b hb).2.1⟩
    | some ds =>
      rintro b ⟨⟩
      decide
  have hflags : ∀ b ∈ (pointText d.precision ++ (d.length ++ d.conversion :: rest)).head?,
      isFlag b = false :=
    fun b hb => (hbehind b hb).1
  have hdigits : ∀ b ∈ (pointText d.precision ++ (d.length ++ d.conversion :: rest)).head?,
      Text.isDecimalDigit b = false :=
    fun b hb => (hbehind b hb).2
  have hwidth : ∀ c ∈ d.width.dropWhile isFlag, Text.isDecimalDigit c = true :=
    fun c hc => h.width c ((List.dropWhile_sublist _).subset hc)
  have hprecision := takePrecision_append h.precision fun b hb => (hlength b hb).2
  have hconversion : conversions.contains d.conversion = true := by simpa using h.conversion
  simp only [take?, List.append_assoc, List.singleton_append]
  rw [List.takeWhile_append_of_pos h.flags, List.dropWhile_append_of_pos h.flags,
    takeWhile_append_stop hflags,
    dropWhile_append_stop hflags, takeWhile_append_stop hdigits, dropWhile_append_stop hdigits,
    List.takeWhile_eq_self_iff.2 hwidth, List.dropWhile_eq_nil_iff.2 hwidth,
      List.nil_append, hprecision]
  simp only [takeLength_append h.length h.conversion, hconversion, if_true]
  rfl

end Take

end Directive

inductive Piece
  | plain (cs : List Char)
  | directive (d : Directive)

namespace Piece

def text : Piece → List Char
  | plain cs => cs
  | directive d => d.text

def IsComplete : Piece → Prop
  | plain cs => '%' ∉ cs
  | directive d => d.IsComplete

/-- How many values a piece takes: a directive takes one, unless it stands for a percent sign. -/
def arity : Piece → Nat
  | plain _ => 0
  | directive d => if d.conversion = '%' then 0 else 1

def set (s : State) (vs : List Value) : Piece → Except Fault (List Char)
  | plain cs => return cs
  | directive d => if d.conversion = '%' then return ['%'] else d.taken.apply s (vs.headD (.int 0))

def join (ps : List Piece) : List Char := ps.flatMap text

def total (ps : List Piece) : Nat := ps.foldr (fun p n => p.arity + n) 0

theorem join_cons (p : Piece) (ps : List Piece) : join (p :: ps) = p.text ++ join ps :=
  List.flatMap_cons

theorem total_cons (p : Piece) (ps : List Piece) : total (p :: ps) = p.arity + total ps := rfl

end Piece

section Pieces

variable (s : State)

theorem format_plain {c : Char} (hc : c ≠ '%') (cs : List Char) (vs : List Value) :
    format s (c :: cs) vs = (do return c :: (← format s cs vs)) := by
  rw [format.eq_def]
  simp only [if_neg hc]

theorem format_piece {p : Piece} (h : p.IsComplete) (rest : List Char) (vs : List Value) :
    format s (p.text ++ rest) vs = (do
      let a ← p.set s vs
      let b ← format s rest (vs.drop p.arity)
      return a ++ b) := by
  cases p with
  | plain cs =>
    have hcs : '%' ∉ cs := h
    clear h
    induction cs with
    | nil => simp [Piece.text, Piece.set, Piece.arity]
    | cons c cs ih =>
      rw [List.mem_cons, not_or] at hcs
      have hrest := ih hcs.2
      simp only [Piece.text, Piece.set, Piece.arity, List.drop_zero, pure_bind] at hrest ⊢
      rw [List.cons_append, format_plain s (Ne.symm hcs.1), hrest]
      simp
  | directive d =>
    have htake := Directive.take?_append h rest
    have htext : (Piece.directive d).text ++ rest = '%' ::
        (d.flags ++ d.width ++ Directive.pointText d.precision ++ d.length ++
          [d.conversion] ++ rest) := rfl
    rw [htext, format_taken s htake]
    have hconversion : d.taken.conversion = d.conversion := rfl
    by_cases hc : d.conversion = '%'
    · simp [Piece.set, Piece.arity, hconversion, hc]
    · simp [Piece.set, Piece.arity, hconversion, hc]

theorem format_pieces {ps : List Piece} (h : ∀ p ∈ ps, p.IsComplete) (g : List Char)
    (vs : List Value) :
    format s (Piece.join ps ++ g) vs = (do
      let a ← format s (Piece.join ps) vs
      let b ← format s g (vs.drop (Piece.total ps))
      return a ++ b) := by
  induction ps generalizing vs with
  | nil => simp [Piece.join, Piece.total, format]
  | cons p ps ih =>
    have hp := format_piece s (h p List.mem_cons_self)
    have hps := ih (fun q hq => h q (List.mem_cons_of_mem p hq)) (vs.drop p.arity)
    rw [Piece.join_cons, Piece.total_cons, List.append_assoc, hp, hp, hps]
    simp only [bind_assoc, pure_bind, List.drop_drop, List.append_assoc]

theorem set_congr {p : Piece} {vs ws : List Value}
    (h : ∀ i < p.arity, vs.getD i (.int 0) = ws.getD i (.int 0)) : p.set s vs = p.set s ws := by
  cases p with
  | plain cs => rfl
  | directive d =>
    by_cases hc : d.conversion = '%'
    · simp [Piece.set, hc]
    · have hhead : vs.headD (.int 0) = ws.headD (.int 0) := by
        have := h 0 (by simp [Piece.arity, hc])
        cases vs <;> cases ws <;> simp_all
      simp only [Piece.set, if_neg hc, hhead]

/-- Pieces are set with as many values as they take: a missing one reads as zero, and the others are
not looked at. -/
theorem format_congr {ps : List Piece} (h : ∀ p ∈ ps, p.IsComplete) {vs ws : List Value}
    (hvs : ∀ i < Piece.total ps, vs.getD i (.int 0) = ws.getD i (.int 0)) :
    format s (Piece.join ps) vs = format s (Piece.join ps) ws := by
  induction ps generalizing vs ws with
  | nil => simp [Piece.join, format]
  | cons p ps ih =>
    have hp := format_piece s (h p List.mem_cons_self)
    rw [Piece.total_cons] at hvs
    have hset : p.set s vs = p.set s ws := set_congr s fun i hi => hvs i (by omega)
    have hrest : format s (Piece.join ps) (vs.drop p.arity) =
        format s (Piece.join ps) (ws.drop p.arity) := by
      apply ih fun q hq => h q (List.mem_cons_of_mem p hq)
      intro i hi
      simpa [List.getD_eq_getElem?_getD] using hvs (p.arity + i) (by omega)
    rw [Piece.join_cons, hp, hp, hset, hrest]

/-- A format that begins with complete pieces is set piece by piece and then goes on with what is
left of the values: a fault of the pieces is the fault of the whole, and so is a fault behind them.
Of the values the pieces take as many as they have directives that ask for one, with a zero for each
that is missing. -/
theorem format_append {ps : List Piece} (h : ∀ p ∈ ps, p.IsComplete) (g : List Char)
    (vs : List Value) :
    format s (Piece.join ps ++ g) vs = (do
      let a ← format s (Piece.join ps) vs
      let b ← format s g (vs.drop (Piece.total ps))
      return a ++ b) ∧
    format s (Piece.join ps) vs =
      format s (Piece.join ps) ((vs ++ List.replicate (Piece.total ps) (Value.int 0)).take
        (Piece.total ps)) := by
  refine ⟨format_pieces s h g vs, format_congr s h ?_⟩
  intro i hi
  rw [List.getD_eq_getElem?_getD, List.getD_eq_getElem?_getD, List.getElem?_take_of_lt hi]
  rcases Nat.lt_or_ge i vs.length with hlt | hge
  · rw [List.getElem?_append_left hlt]
  · rw [List.getElem?_append_right hge, List.getElem?_eq_none hge,
      List.getElem?_replicate_of_lt (by omega)]
    rfl

end Pieces

def paddedPieces : List Piece :=
  [.plain ['n', '='], .directive ⟨['-'], ['0', '7'], some ['2'], ['l'], 'x'⟩,
    .directive ⟨[], [], none, [], '%'⟩]

theorem complete_paddedPieces : ∀ p ∈ paddedPieces, p.IsComplete := by
  simp only [paddedPieces, List.mem_cons, List.not_mem_nil, or_false, forall_eq_or_imp, forall_eq,
    Piece.IsComplete]
  refine ⟨by decide, ⟨List.all_eq_true.1 (by decide), List.all_eq_true.1 (by decide),
    ?_, by decide, by decide⟩, ⟨by simp, by simp, ?_, by decide, by decide⟩⟩
  · rintro ds ⟨⟩
    exact ⟨by decide, List.all_eq_true.1 (by decide)⟩
  · rintro ds ⟨⟩

theorem format_append_padded : (∀ p ∈ paddedPieces, p.IsComplete) ∧
    Piece.join paddedPieces = "n=%-07.2lx%%".toList ∧ Piece.total paddedPieces = 1 ∧
    format .initial "n=%-07.2lx%%%s%".toList [.int 5, .text "a", .text "b"] =
      .ok "n=05     %a%".toList := by
  have hpieces : format .initial (Piece.join paddedPieces) [.int 5, .text "a", .text "b"] =
      .ok "n=05     %".toList := by
    obtain ⟨hn, hx, hpercent⟩ : Piece.IsComplete _ ∧ Piece.IsComplete _ ∧ Piece.IsComplete _ := by
      simpa [paddedPieces] using complete_paddedPieces
    rw [paddedPieces, Piece.join_cons, Piece.join_cons, Piece.join_cons, format_piece _ hn,
      format_piece _ hx, format_piece _ hpercent, Piece.join, List.flatMap_nil, format]
    rfl
  have hbehind : format .initial "%s%".toList
    ([.int 5, .text "a", .text "b"].drop (Piece.total paddedPieces)) =
      .ok "a%".toList := by
    have hs : Directive.take? "s%".toList = some (⟨[], [], none, [], 's'⟩, ['%']) := rfl
    have hend : Directive.take? [] = none := rfl
    change format .initial ('%' :: "s%".toList) _ = _
    rw [format_taken _ hs, if_neg (by decide), format_untaken _ hend, format]
    rfl
  have hwhole :=
    (format_append .initial complete_paddedPieces "%s%".toList [.int 5, .text "a", .text "b"]).1
  rw [hpieces, hbehind] at hwhole
  exact ⟨complete_paddedPieces, rfl, rfl, hwhole⟩

end MiniC.Machine

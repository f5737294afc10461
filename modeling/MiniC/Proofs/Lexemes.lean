import MiniC.Proofs.Completeness
import MiniC.Proofs.Numerals

/-! How written pieces are cut into tokens. A piece is followed by something, and what follows
decides whether it ends there: digits end where no digit and no point follows, a word where no
character of a word does, an operator where it makes no pair with the next character. -/

namespace MiniC.Token

open Parse

inductive Closed (q : Char) : List Char → Prop
  | quote : Closed q [q]
  | escaped {c : Char} {cs : List Char} : Closed q cs → Closed q ('\\' :: c :: cs)
  | plain {c : Char} {cs : List Char} : c ≠ q → c ≠ '\\' → Closed q cs → Closed q (c :: cs)

theorem Closed.getLast? {q : Char} {cs : List Char} (h : Closed q cs) : cs.getLast? = some q := by
  induction h with
  | quote => rfl
  | escaped _ ih => simp [List.getLast?_cons, ih]
  | plain _ _ _ ih => simp [List.getLast?_cons, ih]

def IsQuoted (q : Char) (s : String) : Prop := ∃ cs, s.toList = q :: cs ∧ Closed q cs

def IsName (x : String) : Prop :=
  (∃ c cs, x.toList = c :: cs ∧ isWordStart c = true ∧ ∀ d ∈ cs, isWordChar d = true) ∧ x ∉ keywords

structure Plain (t : Token) : Prop where
  valid : t.kind ≠ .invalid
  unmarked : isProgramMarker t = false
  readable : Readable t

/-- Characters in front of others are cut into plain tokens with a property, wherever they stand,
and the others into the tokens they are cut into alone. -/
def Cuts (cs rest : List Char) (P : List Token → Prop) : Prop :=
  ∀ pos, ∃ w, scanFrom pos (cs ++ rest) = w ++ scanFrom (pos + cs.length) rest ∧
    (∀ t ∈ w, t.Plain) ∧ P w

variable {cs ds rest : List Char} {P Q : List Token → Prop}

theorem Cuts.mono (h : Cuts cs rest P) (hP : ∀ w, P w → Q w) : Cuts cs rest Q := by
  intro pos
  obtain ⟨w, hw, hplain, hp⟩ := h pos
  exact ⟨w, hw, hplain, hP w hp⟩

theorem Cuts.append (h : Cuts cs (ds ++ rest) P) (h' : Cuts ds rest Q) :
    Cuts (cs ++ ds) rest fun w => ∃ u v, w = u ++ v ∧ P u ∧ Q v := by
  intro pos
  obtain ⟨u, hu, hplain, hp⟩ := h pos
  obtain ⟨v, hv, hplain', hq⟩ := h' (pos + cs.length)
  refine ⟨u ++ v, ?_, ?_, u, v, rfl, hp, hq⟩
  · rw [List.append_assoc, hu, hv, List.append_assoc, List.length_append, Nat.add_assoc]
  · intro t ht
    rcases List.mem_append.1 ht with ht | ht
    · exact hplain t ht
    · exact hplain' t ht

theorem scanFrom_token (pos : Nat) {c : Char} {as rest : List Char} {k : Kind}
    (h : lexeme c (as ++ rest) = ⟨some k, 1 + as.length⟩) : scanFrom pos (c :: (as ++ rest)) =
      ⟨k, String.ofList (c :: as), pos⟩ :: scanFrom (pos + (1 + as.length)) rest := by
  have htake : (c :: (as ++ rest)).take (1 + as.length) = c :: as := by
    rw [Nat.add_comm, List.take_succ_cons, List.take_left]
  have hdrop : (c :: (as ++ rest)).drop (1 + as.length) = rest := by
    rw [Nat.add_comm, List.drop_succ_cons, List.drop_left]
  rw [scanFrom.eq_def]
  simp only [h, htake, hdrop]

section Ordinary

theorem isBlank_of_toNat {c : Char} (h : 33 ≤ c.toNat ∧ c.toNat ≤ 126) :
    Text.isBlank c = false := by
  simp only [Text.isBlank]
  grind

structure Ordinary (c : Char) : Prop where
  blank : Text.isBlank c = false
  hash : c ≠ '#'
  quote : c ≠ '"'
  tick : c ≠ '\x27'
  slash : c ≠ '/'

theorem ordinary_of_toNat {c : Char} (h : 48 ≤ c.toNat ∧ c.toNat ≤ 126) : Ordinary c := by
  have hne {d : Char} (hd : d.toNat < 48) : c ≠ d := by
    rintro rfl
    omega
  exact ⟨isBlank_of_toNat (by omega), hne (by decide), hne (by decide), hne (by decide),
    hne (by decide)⟩

theorem lexeme_of_ordinary {c : Char} (h : Ordinary c) (cs : List Char) : lexeme c cs =
    if Text.isAsciiDigit c then ⟨some .number, 1 + numberLength cs⟩
    else if isWordStart c then ⟨some (wordKind (c :: cs.take (wordLength cs))), 1 + wordLength cs⟩
    else match cs.head?.bind (pairKind? c) with
      | some k => ⟨some k, 2⟩
      | none => ⟨some (singleKind c), 1⟩ := by
  have hslash (d : Char) : ¬(c = '/' ∧ cs.head? = some d) := fun hd => h.slash hd.1
  calc lexeme c cs
    _ = _ := if_neg (Bool.eq_false_iff.mp h.blank)
    _ = _ := if_neg h.hash
    _ = _ := if_neg h.quote
    _ = _ := if_neg h.tick
    _ = _ := if_neg (hslash '/')
    _ = _ := if_neg (hslash '*')

theorem takeWhile_of_head {p : Char → Bool} (hcs : ∀ c ∈ cs, p c = true)
    (hr : ∀ c ∈ rest.head?, p c = false) :
    (cs ++ rest).takeWhile p = cs := by
  rw [List.takeWhile_append_of_pos hcs]
  cases rest with
  | nil => simp
  | cons c rest => rw [List.takeWhile_cons_of_neg (by simp [hr c rfl]), List.append_nil]

end Ordinary

section Numbers

inductive Numeral : List Char → Prop
  | whole {as : List Char} : (∀ c ∈ as, Text.isAsciiDigit c = true) → Numeral as
  | pointed {as bs : List Char} : (∀ c ∈ as, Text.isAsciiDigit c = true) →
      (∀ c ∈ bs, Text.isAsciiDigit c = true) → Numeral (as ++ '.' :: bs)

theorem numberLength_numeral {as : List Char} (h : Numeral as)
    (hr : ∀ d ∈ rest.head?, Text.isAsciiDigit d = false ∧ d ≠ '.') :
    numberLength (as ++ rest) = as.length := by
  have hdigits {as rest : List Char} (has : ∀ c ∈ as, Text.isAsciiDigit c = true)
      (hr : ∀ d ∈ rest.head?, Text.isAsciiDigit d = false) :
      digitsLength (as ++ rest) = as.length := by
    rw [digitsLength, takeWhile_of_head has hr]
  cases h with
  | whole has =>
    simp only [numberLength, hdigits has fun d hd => (hr d hd).1, List.drop_left]
    split
    · exact absurd rfl (hr '.' rfl).2
    · rfl
  | @pointed as bs has hbs =>
    have hpoint : ∀ d ∈ ('.' :: (bs ++ rest)).head?, Text.isAsciiDigit d = false := by
      rintro d ⟨⟩
      decide
    simp only [numberLength, List.append_assoc, List.cons_append, hdigits has hpoint,
      List.drop_left, hdigits hbs fun d hd => (hr d hd).1, List.length_append, List.length_cons]
    omega

theorem Numeral.solid {cs : List Char} (h : Numeral cs) : ∀ c ∈ cs, Text.isBlank c = false := by
  have hdigits {cs : List Char} (hcs : ∀ c ∈ cs, Text.isAsciiDigit c = true) :
      ∀ c ∈ cs, Text.isBlank c = false := by
    intro c hc
    have := Decimal.toNat_of_isAsciiDigit (hcs c hc)
    exact isBlank_of_toNat (by omega)
  cases h with
  | whole has => exact hdigits has
  | pointed has hbs =>
    intro c hc
    rcases List.mem_append.1 hc with hc | hc
    · exact hdigits has c hc
    · rcases List.mem_cons.1 hc with rfl | hc
      · decide
      · exact hdigits hbs c hc

end Numbers

section Words

theorem toNat_of_isWordStart {c : Char} (h : isWordStart c = true) :
    (65 ≤ c.toNat ∧ c.toNat ≤ 90) ∨ c.toNat = 95 ∨ (97 ≤ c.toNat ∧ c.toNat ≤ 122) := by
  change (decide ('A'.val ≤ c.val ∧ c.val ≤ 'Z'.val) ||
    (decide ('a'.val ≤ c.val) && decide (c.val ≤ 'z'.val)) ||
    decide (c = '_')) = true at h
  simp only [Bool.or_eq_true, Bool.and_eq_true, decide_eq_true_eq, UInt32.le_iff_toNat_le] at h
  rcases h with (h | h) | rfl
  · exact .inl h
  · exact .inr (.inr h)
  · exact .inr (.inl rfl)

theorem isBlank_of_isWordChar {c : Char} (h : isWordChar c = true) : Text.isBlank c = false := by
  rcases Bool.or_eq_true_iff.1 h with h | h
  · have := toNat_of_isWordStart h
    exact isBlank_of_toNat (by omega)
  · have := Decimal.toNat_of_isAsciiDigit h
    exact isBlank_of_toNat (by omega)

theorem lexeme_word {c : Char} (hc : isWordStart c = true) (hcs : ∀ d ∈ cs, isWordChar d = true)
    (hr : ∀ d ∈ rest.head?, isWordChar d = false) :
    lexeme c (cs ++ rest) = ⟨some (wordKind (c :: cs)), 1 + cs.length⟩ := by
  have hrange := toNat_of_isWordStart hc
  have hdigit : ¬Text.isAsciiDigit c = true := by
    intro h
    have := Decimal.toNat_of_isAsciiDigit h
    omega
  have hlen : wordLength (cs ++ rest) = cs.length := by rw [wordLength, takeWhile_of_head hcs hr]
  rw [lexeme_of_ordinary (ordinary_of_toNat (by omega)), if_neg hdigit, if_pos hc, hlen,
    List.take_left]

end Words

section Quotes

theorem quotedLength_closed {q : Char} (hq : q ≠ '\\') (h : Closed q cs) (rest : List Char) :
    quotedLength q (cs ++ rest) = cs.length := by
  induction h with
  | quote => cases rest <;> simp [quotedLength]
  | @escaped c cs _ ih =>
    rw [List.cons_append, List.cons_append, quotedLength, if_neg (Ne.symm hq), if_pos rfl, ih]
    simp only [List.length_cons]
    omega
  | @plain c cs hcq hcb h ih =>
    obtain ⟨d, ds, rfl⟩ : ∃ d ds, cs = d :: ds := by
      cases h <;> exact ⟨_, _, rfl⟩
    rw [List.cons_append, List.cons_append, quotedLength, if_neg hcq, if_neg hcb,
      ← List.cons_append, ih]
    simp only [List.length_cons]
    omega

end Quotes

section Marks

theorem forall_of_all {p : Char → Prop} [DecidablePred p]
    (h : cs.all (fun c => decide (p c)) = true) :
    ∀ c ∈ cs, p c := by
  simpa using h

def marks : List Char := ['(', ')', '[', ']', ',', '!', '&', '*', '+', '-']

end Marks

end MiniC.Token

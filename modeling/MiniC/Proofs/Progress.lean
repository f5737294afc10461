import MiniC.Proofs.Positions
import MiniC.Proofs.Prefixes

/-! Reading moves on. The cursor stands on a token of the list and never goes back. A production
that succeeds has taken a token, and the last token is taken by none, so that the cursor never
leaves the list. -/

namespace MiniC.Parse

namespace Cursor

def At (ts : List Token) (i : Nat) (c : Cursor) : Prop := ts.drop i = c.tokens

def Before (c c' : Cursor) : Prop := ∃ w, w ≠ [] ∧ c = c'.back w

variable {ts : List Token} {i : Nat} {c c' : Cursor}

theorem tokens_ne_nil (c : Cursor) : c.tokens ≠ [] := List.cons_ne_nil _ _

theorem At.lt (h : c.At ts i) : i < ts.length := by
  apply Nat.lt_of_not_le
  intro hle
  rw [At, List.drop_eq_nil_of_le hle] at h
  exact c.tokens_ne_nil h.symm

theorem at_ofTokens (ts : List Token) : (ofTokens ts).At (withEnd ts) 0 := (tokens_ofTokens ts).symm

theorem At.current (h : c.At ts i) : ts[i]? = some c.current := by
  have hhead := congrArg List.head? h
  rw [List.head?_drop] at hhead
  exact hhead

theorem At.next (h : c.At ts i) : c.next.At ts (min (i + 1) (ts.length - 1)) := by
  have hlt := h.lt
  have hlength := congrArg List.length h
  rw [List.length_drop] at hlength
  obtain ⟨t, us⟩ := c
  cases us with
  | nil =>
    have hlast : min (i + 1) (ts.length - 1) = i := by
      simp only [tokens, List.length_cons, List.length_nil] at hlength
      omega
    rw [hlast]
    exact h
  | cons u us =>
    have hnext : min (i + 1) (ts.length - 1) = i + 1 := by
      simp only [tokens, List.length_cons] at hlength
      omega
    rw [At, hnext, ← List.drop_drop, h]
    rfl

theorem At.ended (h : c.At (withEnd ts) i) : c.Ended := by
  rw [Ended, ← h, List.getLast?_drop, if_neg (Nat.not_le.2 h.lt)]
  exact getLast?_withEnd ts

theorem Before.at (h : c.Before c') (hc : c.At ts i) : ∃ j, i < j ∧ j < ts.length ∧ c'.At ts j := by
  obtain ⟨w, hw, rfl⟩ := h
  have hat : c'.At ts (i + w.length) := by
    rw [At, ← List.drop_drop, hc, tokens_back, List.drop_left]
  have hpos := List.length_pos_of_ne_nil hw
  exact ⟨i + w.length, by omega, hat.lt, hat⟩

theorem Before.length_lt (h : c.Before c') : c'.rest.length < c.rest.length := by
  obtain ⟨w, hw, rfl⟩ := h
  have hpos := List.length_pos_of_ne_nil hw
  rw [length_rest_back]
  omega

theorem Before.ended (h : c.Before c') (hc : c.Ended) : c'.Ended := by
  obtain ⟨w, -, rfl⟩ := h
  exact hc.of_back

end Cursor

namespace Parser

open Grammar

variable {α β : Type} {p : Parser α} {f : α → Parser β}

def Stays (p : Parser α) : Prop := ∀ c, Yields p c fun _ _ _ => True

def Moves (p : Parser α) : Prop := ∀ c, Yields p c fun _ w _ => w ≠ []

section Composed

theorem Yields.stays {P : Cursor → α → List Token → Cursor → Prop} (h : ∀ c, Yields p c (P c)) :
    Stays p :=
  fun c => (h c).mono fun _ _ _ _ => trivial

theorem Moves.stays (h : Moves p) : Stays p := Yields.stays h

theorem Stays.bind (h : Stays p) (hf : ∀ x, Stays (f x)) : Stays (p >>= f) :=
  fun c => (h c).bind fun x _ c' _ => (hf x c').mono fun _ _ _ _ => trivial

theorem Moves.bind (h : Moves p) (hf : ∀ x, Stays (f x)) : Moves (p >>= f) := by
  intro c
  apply (h c).bind
  intro x u c' hu
  exact (hf x c').mono fun y v c'' _ => List.append_ne_nil_of_left_ne_nil hu v

theorem Stays.bind_moves (h : Stays p) (hf : ∀ x, Moves (f x)) : Moves (p >>= f) := by
  intro c
  apply (h c).bind
  intro x u c' _
  exact (hf x c').mono fun y v c'' hv => List.append_ne_nil_of_right_ne_nil u hv

theorem stays_pure (x : α) : Stays (pure x) := fun _ => yields_pure trivial

theorem stays_advance : Stays advance := by
  intro c hc t c' ht
  cases ht
  obtain ⟨t, us⟩ := c
  cases us with
  | nil => exact ⟨[], rfl, trivial⟩
  | cons u us => exact ⟨[t], rfl, trivial⟩

theorem stays_accept {k : Token.Kind} (hk : k ≠ .eof) : Stays (accept k) :=
  Yields.stays fun _ => yields_accept hk

theorem moves_expect {k : Token.Kind} (hk : k ≠ .eof) (cause : Cause) : Moves (expect k cause) := by
  intro c
  apply (yields_expect hk cause).mono
  intro t w c' h
  rw [h.2]
  exact List.cons_ne_nil _ _

theorem stays_many {more : Token → Bool} {item : Parser α}
    (h : ∀ c : Cursor, more c.current = true → Yields item c fun _ _ _ => True) :
    Stays (many more item) :=
  fun c => yields_many (R := fun _ _ => True) (L := fun _ _ => True) trivial
    (fun _ _ => trivial) h c

theorem stays_commaList {close : Token.Kind} {item : Parser α} (h : Stays item) :
    Stays (commaList close item) :=
  fun c => yields_commaList (R := fun _ _ => True) (L := fun _ _ => True) trivial (fun _ => trivial)
    (fun _ _ _ => trivial) h c

end Composed

section Productions

theorem moves_expression (n : Nat) (tier : Tier) : Moves (expression n tier) := by
  intro c
  apply (yields_expression n tier c).mono
  intro e w c' h
  obtain ⟨t, v, rfl, -⟩ := expression_head h
  exact List.cons_ne_nil t v

theorem moves_statement (n : Nat) : Moves (statement n) := by
  intro c
  apply (yields_statement n c).mono
  intro s w c' h
  obtain ⟨t, v, rfl, -⟩ := statement_head h.1
  exact List.cons_ne_nil t v

theorem moves_item (n : Nat) : Moves (item n) := by
  intro c
  apply yields_current
  split
  · rename_i hk
    exact yields_taken hk (by decide) fun c' => yields_pure (List.cons_ne_nil _ _)
  · exact moves_statement n c

theorem moves_parameter : Moves parameter := by
  intro c
  apply (yields_parameter c).mono
  intro p w c' h
  exact List.ne_nil_of_length_pos (parameter_length_pos h)

theorem stays_typeName : Stays typeName :=
  (stays_many fun c _ => stays_advance c).bind fun _ => stays_pure _

theorem moves_block {stmt : Parser Stmt} (h : Stays stmt) : Moves (block stmt) :=
  stays_advance.bind_moves fun _ => (stays_many fun c _ => h c).bind_moves fun _ =>
    (moves_expect (by decide) _).bind fun _ => stays_pure _

theorem moves_braces {expr : Parser Expr} (h : Stays expr) : Moves (braces expr) :=
  stays_advance.bind_moves fun _ => (stays_commaList h).bind_moves fun _ =>
    (moves_expect (by decide) _).bind fun _ => stays_pure _

theorem moves_function {stmt : Parser Stmt} (h : Stays stmt) (type name : String) (depth : Nat) :
    Moves (function stmt type name depth) := by
  apply stays_advance.bind_moves
  intro _
  apply (Yields.stays yields_parameters).bind_moves
  intro _
  apply (moves_expect (by decide) _).bind
  intro _ c
  apply yields_current
  split
  · exact ((moves_block h).stays.bind fun _ => stays_pure _) c
  · exact yields_fail _

theorem moves_variableDeclaration {expr : Parser Expr} (h : ReadsTier expr .or)
    (type name : String) (depth : Nat) :
    Moves (variableDeclaration expr type name depth) :=
  (Yields.stays yields_arrayPart).bind_moves fun _ =>
    (Yields.stays (yields_initialiser h)).bind_moves fun _ =>
    (moves_expect (by decide) _).bind fun _ => stays_pure _

theorem moves_declaration {expr : Parser Expr} {stmt : Parser Stmt} (he : ReadsTier expr .or)
    (hs : Stays stmt) :
    Moves (declaration expr stmt) := by
  apply stays_typeName.bind_moves
  intro type
  apply (Yields.stays yields_stars).bind_moves
  intro depth
  apply (moves_expect (by decide) _).bind
  intro x c
  apply yields_current
  split
  · exact (moves_function hs _ _ _).stays c
  · exact (moves_variableDeclaration he _ _ _).stays c

theorem moves_simple {expr : Parser Expr} (h : ReadsTier expr .or) : Moves (simple expr) := by
  intro c
  apply (yields_simple h c).mono
  intro s w c' hs
  obtain ⟨t, v, rfl, -⟩ := simple_head hs
  exact List.cons_ne_nil t v

theorem moves_simpleStatement {expr : Parser Expr} (h : ReadsTier expr .or) :
    Moves (simpleStatement expr) :=
  (moves_simple h).bind fun _ => (moves_expect (by decide) _).stays.bind fun _ => stays_pure _

theorem stays_labelled {stmt : Parser Stmt} (h : Stays stmt) (cause : Cause) :
    Stays (labelled stmt cause) := by
  have hend : Stays labelEnd := by
    apply (stays_accept (by decide)).bind
    intro b c
    split
    · exact yields_pure trivial
    · exact stays_accept (by decide) c
  apply hend.bind
  intro b c
  split
  · exact stays_many (fun c _ => h c) c
  · exact yields_fail _

end Productions

end Parser

end MiniC.Parse

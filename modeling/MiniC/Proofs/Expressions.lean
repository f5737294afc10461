import MiniC.Proofs.Programs
import MiniC.Proofs.Unambiguous

/-! Tokens that are no program are read as one expression, the one that the grammar derives from
them. Braces make tokens a program, so that no list in braces is written by any of these. -/

namespace MiniC.Parse.Parser

open Grammar

theorem yields_wholeExpression (n : Nat) (c : Cursor) :
    Yields (wholeTree n false) c fun tree w c' =>
    ∃ e, tree = .expr e ∧ Expression (.tier .or e) w ∧ c'.current.kind = .eof := by
  have htree : Yields (tree n false) c fun tree w _ =>
      ∃ e, tree = .expr e ∧ Expression (.tier .or e) w :=
    (yields_expression n .or c).map fun e w c' hw => ⟨e, rfl, hw⟩
  apply htree.bind
  rintro tree w c' ⟨e, rfl, hw⟩
  apply yields_current
  by_cases hc : c'.current.kind = .eof
  · rw [if_pos hc]
    apply yields_pure
    rw [List.append_nil]
    exact ⟨e, rfl, hw, hc⟩
  · rw [if_neg hc]
    exact yields_fail _

theorem admits_wholeExpression {need : Nat} {e : Expr} {w : List Token}
    (h : Complete need (.tier .or e) w) (n : Nat) {c : Cursor} (hc : c.current.kind = .eof) :
    AdmitsIf (n < need) (wholeTree n false) (c.back w) (.expr e) c := by
  have he : AdmitsIf (n < need) (expression n .or) (c.back w) e c :=
    h n c (closes_of_closer hc (by decide) .or)
  apply (he.bind (admits_pure (Tree.expr e) c)).bind
  apply admits_current
  rw [if_pos hc]
  exact admits_pure _ c

end MiniC.Parse.Parser

namespace MiniC.Parse

open Grammar

section Ended

variable {w : List Token} {e : Token} (he : e.kind = .eof) (hw : ∀ t ∈ w, t.kind ≠ .eof)
  (hv : ∀ t ∈ w ++ [e], t.kind ≠ .invalid) (hp : isProgram (w ++ [e]) = false)
include he hv hp

include hw in
theorem expression_of_ofTokens {tree : Tree} (h : ofTokens (w ++ [e]) = .ok tree) :
    ∃ x, tree = .expr x ∧ Expression (.tier .or x) w := by
  rw [ofTokens_end he hv hp] at h
  cases hread : Parser.wholeTree budget false ((⟨e, []⟩ : Cursor).back w) with
  | error s =>
    rw [hread] at h
    cases h
  | ok r =>
    rw [hread] at h
    obtain ⟨tree', c⟩ := r
    obtain rfl : tree' = tree := Except.ok.inj h
    obtain ⟨u, hback, x, rfl, hx, hc⟩ :=
      Parser.yields_wholeExpression budget _ (Cursor.ended_end he w) tree' c hread
    obtain rfl := Cursor.eq_of_back_end hw hback hc
    exact ⟨x, rfl, hx⟩

theorem ofTokens_of_complete {need : Nat} {x : Expr} (h : Parser.Complete need (.tier .or x) w) :
    ofTokens (w ++ [e]) = .ok (.expr x) ∨
      ∃ s, ofTokens (w ++ [e]) = .error s ∧ s.isLimit = true ∧
      (s.isTooDeep = true → budget < need) := by
  rw [ofTokens_end he hv hp]
  rcases Parser.admits_wholeExpression h budget (c := ⟨e, []⟩) he with hread | ⟨s, hread, hs⟩
  · rw [hread]
    exact .inl rfl
  · rw [hread]
    exact .inr ⟨s, rfl, hs⟩

theorem ofTokens_of_expression {x : Expr} (h : Expression (.tier .or x) w) :
    ofTokens (w ++ [e]) = .ok (.expr x) ∨ ∃ s, ofTokens (w ++ [e]) = .error s ∧
    s.isLimit = true := by
  obtain ⟨need, hneed⟩ := Parser.exists_complete h
  rcases ofTokens_of_complete he hv hp hneed with hok | ⟨s, herror, hs, -⟩
  · exact .inl hok
  · exact .inr ⟨s, herror, hs⟩

end Ended

/-- Reading tokens that are no program gives the expression that the grammar derives from what is
before the end mark, and if the grammar derives one it gives that, unless it stops at a limit. No
tokens have two. -/
theorem ofTokens_scan_expression (source : String)
    (hv : ∀ t ∈ Token.scan source, t.kind ≠ .invalid) (hp : isProgram (Token.scan source) = false) :
    (∀ tree, ofTokens (Token.scan source) = .ok tree →
      ∃ e, tree = .expr e ∧ Expression (.tier .or e) (Token.beforeEnd (Token.scan source))) ∧
    (∀ e, Expression (.tier .or e) (Token.beforeEnd (Token.scan source)) →
      ofTokens (Token.scan source) = .ok (.expr e) ∨
      ∃ d, ofTokens (Token.scan source) = .error (.diagnostic d) ∧
        (d.cause.message = "Input nested too deeply" ∨
          d.cause.message = "Number literal too long")) ∧
    ∀ (w : List Token) (e e' : Expr), Expression (.tier .or e) w →
    Expression (.tier .or e') w → e = e' := by
  obtain ⟨w, eof, hscan, heof, hw⟩ := Token.scanFrom_eq 0 (Text.trim source.toList)
  have hscan : Token.scan source = w ++ [eof] := hscan
  rw [hscan] at hv hp ⊢
  rw [Token.beforeEnd_append hw heof]
  constructor
  · intro tree htree
    exact expression_of_ofTokens heof hw hv hp htree
  constructor
  · intro e he
    rcases ofTokens_of_expression heof hv hp he with h | ⟨s, h, hs⟩
    · exact .inl h
    · obtain ⟨d, rfl, hd⟩ := Stop.message_of_isLimit hs
      exact .inr ⟨d, h, hd⟩
  · intro w e e' he he'
    exact Parser.expression_unique he he'

def mixedPowers : String := "-a ^ b ^ 2 - f(x[1],) - 3"

def mixedPowersTokens : List Token :=
  [⟨.operator, "-", 0⟩, ⟨.identifier, "a", 1⟩, ⟨.operator, "^", 3⟩, ⟨.identifier, "b", 5⟩,
    ⟨.operator, "^", 7⟩, ⟨.number, "2", 9⟩, ⟨.operator, "-", 11⟩, ⟨.identifier, "f", 13⟩,
    ⟨.lparen, "(", 14⟩, ⟨.identifier, "x", 15⟩, ⟨.lbracket, "[", 16⟩, ⟨.number, "1", 17⟩,
    ⟨.rbracket, "]", 18⟩, ⟨.comma, ",", 19⟩, ⟨.rparen, ")", 20⟩, ⟨.operator, "-", 22⟩,
    ⟨.number, "3", 24⟩, ⟨.eof, "", 25⟩]

theorem scan_mixedPowers : Token.scan mixedPowers = mixedPowersTokens := by decide +kernel

def mixedPowersTree : Expr :=
  .binary .sub
    (.binary .sub
      (.binary .pow (.unary .neg (.name "a")) (.binary .pow (.name "b") (.number (.int 2) 0)))
      (.call "f" [.element "x" (.number (.int 1) 0)]))
    (.number (.int 3) 0)

theorem ofTokens_mixedPowers_expression :
    (∀ t ∈ Token.scan mixedPowers, t.kind ≠ .invalid) ∧ isProgram (Token.scan mixedPowers) = false ∧
      ofTokens (Token.scan mixedPowers) = .ok (.expr mixedPowersTree) ∧
      Expression (.tier .or mixedPowersTree) (Token.beforeEnd (Token.scan mixedPowers)) := by
  have hv : ∀ t ∈ Token.scan mixedPowers, t.kind ≠ .invalid := by
    rw [scan_mixedPowers]
    decide
  have hp : isProgram (Token.scan mixedPowers) = false := by
    rw [scan_mixedPowers]
    rfl
  have hread : ofTokens (Token.scan mixedPowers) = .ok (.expr mixedPowersTree) := by
    rw [scan_mixedPowers]
    rfl
  obtain ⟨e, he, hw⟩ := (ofTokens_scan_expression mixedPowers hv hp).1 _ hread
  cases he
  exact ⟨hv, hp, hread, hw⟩

end MiniC.Parse

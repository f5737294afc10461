import MiniC.Proofs.Grammar
import MiniC.Proofs.Reading

/-! What is read is derived: a parser that succeeds has read tokens that write its value in the
grammar. Each production is treated over parsers of its parts, and the budget is taken off by
induction. -/

namespace MiniC.Parse.Parser

open Grammar

theorem number?_eq {text : String} {n : Number} (h : number? text = some n) :
    n = literalValue text := by
  unfold number? at h
  unfold literalValue
  dsimp only at h ⊢
  split at h
  · rename_i hp
    obtain ⟨x, hx, rfl⟩ := Option.map_eq_some_iff.1 h
    rw [if_pos hp, hx]
    rfl
  · rename_i hp
    rw [if_neg hp]
    cases hr : Decimal.readInt text.toList with
    | error e =>
      rw [hr] at h
      cases h
    | ok m =>
      rw [hr] at h
      cases h
      unfold Decimal.readInt at hr
      dsimp only at hr
      repeat' split at hr
      all_goals cases hr
      rfl

theorem yields_number (t : Token) (c : Cursor) :
    Yields (number t) c fun n w _ => n = literalValue t.text ∧ w = [] := by
  unfold number
  cases h : number? t.text with
  | none => exact yields_throw _
  | some n => exact yields_pure ⟨number?_eq h, rfl⟩

theorem yields_updateOp (t : Token) (c : Cursor) :
    Yields (updateOp t) c fun op w _ => t.text = op.symbol ∧ w = [] := by
  unfold updateOp
  cases h : UpdateOp.ofSymbol? t.text with
  | none => exact yields_throw _
  | some op =>
    have hs := List.find?_some h
    exact yields_pure ⟨(of_decide_eq_true hs).symm, rfl⟩

theorem kind_of_operator? {tier : Tier} {t : Token} {op : BinaryOp}
    (h : tier.operator? t = some op) :
    t.kind = tier.kind := by
  unfold Tier.operator? at h
  split at h
  · assumption
  · cases h

section Expressions

def ReadsTier (p : Parser Expr) (tier : Tier) : Prop :=
  ∀ c : Cursor, Yields p c fun e w _ => Expression (.tier tier e) w

theorem yields_chain {operand : Parser Expr} {tier : Tier} (hl : isLeft tier = true)
    (h : ReadsTier operand tier.tighter) : ReadsTier (chain tier.operator? operand) tier := by
  have hover : ∀ (left : List Token) (e : Expr) (c : Cursor),
    Yields (chainOver tier.operator? operand left e) c
      fun e' w _ => Expression (.operands tier e e') w := by
    intro left
    induction left with
    | nil => exact fun e c => yields_pure .done
    | cons t left ih =>
      intro e c
      refine yields_current ?_
      cases ho : tier.operator? c.current with
      | none => exact yields_pure .done
      | some op =>
        have hk : c.current.kind ≠ .eof := by
          rw [kind_of_operator? ho]
          cases tier <;> decide
        refine (yields_advance hk).bind ?_
        rintro t w c' ⟨rfl, rfl, -⟩
        refine (h c').bind fun right u c'' hu => ?_
        exact (ih (.binary op e right) c'').mono fun e' v _ hv => .operand (u := u) hl ho hu hv
  intro c
  refine (h c).bind fun e u c' hu => yields_get ?_
  exact (hover c'.rest e c').mono fun e' v _ hv => .chain hl hu hv

theorem yields_power {base exponent : Parser Expr} (hb : ReadsTier base .primary)
    (he : ReadsTier exponent .power) : ReadsTier (power base exponent) .power := by
  intro c
  refine (hb c).bind fun left u c' hu => (yields_acceptText (by decide) "^").bind ?_
  rintro b w c'' (⟨rfl, ht, rfl⟩ | ⟨rfl, rfl, -, -⟩)
  · exact (he c'').map fun right v c₃ hv => .power hu ht hv
  · refine yields_pure ?_
    rw [List.append_nil, List.append_nil]
    exact .base hu

variable {expr operand : Parser Expr} (he : ReadsTier expr .or) (ho : ReadsTier operand .primary)

include he

theorem yields_index (c : Cursor) :
    Yields (index expr) c fun i w _ => ∃ u r, Expression (.tier .or i) u ∧ r.kind = .rbracket ∧
    w = u ++ [r] := by
  refine (he c).bind fun i u c' hu => (yields_expect (by decide) _).bind ?_
  rintro r w c'' ⟨hr, rfl⟩
  exact yields_pure ⟨u, r, hu, hr, rfl⟩

theorem yields_items (close : Token.Kind) (c : Cursor) :
    Yields (commaList close expr) c fun es w _ => Expression (.list es) w :=
  yields_commaList .nil .last .cons he c

theorem yields_named {c : Cursor} (hx : c.current.kind = .identifier) :
    Yields (named expr) c fun e w _ => Expression (.tier .primary e) w := by
  refine yields_taken hx (by decide) fun c' => ?_
  refine (yields_accept (by decide)).bind ?_
  rintro b w c₁ (⟨rfl, hl, rfl⟩ | ⟨rfl, rfl, rfl, -⟩)
  · refine (yields_index he c₁).map ?_
    rintro i v c₃ ⟨u, r, hu, hr, rfl⟩
    exact .element hx hl hu hr
  · refine (yields_accept (by decide)).bind ?_
    rintro b w c₂ (⟨rfl, hl, rfl⟩ | ⟨rfl, rfl, rfl, -⟩)
    · refine (yields_items he .rparen c₂).bind fun es u c₃ hu =>
        (yields_expect (by decide) _).bind ?_
      rintro r w c₄ ⟨hr, rfl⟩
      exact yields_pure (.call hx hl hu hr)
    · refine yields_current ?_
      split
      · rename_i hu
        have hu' : c₂.current.kind = .increment ∨ c₂.current.kind = .decrement := by
          simpa using hu
        refine (yields_advance (by rcases hu' with h | h <;> rw [h] <;> decide)).bind ?_
        rintro t w c'' ⟨rfl, rfl, -⟩
        refine (yields_updateOp _ c'').bind ?_
        rintro op w c₃ ⟨hs, rfl⟩
        exact yields_pure (.updateAfter hx ⟨hu', hs⟩)
      · exact yields_pure (.name hx)

theorem yields_parenthesised {c : Cursor} (hl : c.current.kind = .lparen) :
    Yields (parenthesised expr) c fun e w _ => Expression (.tier .primary e) w := by
  refine yields_taken hl (by decide) fun c' => ?_
  refine (he c').bind fun e u c'' hu => yields_current ?_
  split
  · rename_i hr
    refine yields_taken hr (by decide) fun c₃ => ?_
    exact yields_pure (.parentheses hl hu hr)
  · exact yields_throw _

theorem yields_braces {c : Cursor} (hl : c.current.kind = .lbrace) :
    Yields (braces expr) c fun e w _ => Expression (.tier .primary e) w := by
  refine yields_taken hl (by decide) fun c' => ?_
  refine (yields_items he .rbrace c').bind fun es u c'' hu => (yields_expect (by decide) _).bind ?_
  rintro r w c₃ ⟨hr, rfl⟩
  exact yields_pure (.braces hl hu hr)

omit he

theorem yields_updated {c : Cursor}
    (ht : c.current.kind = .increment ∨ c.current.kind = .decrement) :
    Yields updated c fun e w _ => Expression (.tier .primary e) w := by
  refine (yields_advance (by rcases ht with h | h <;> rw [h] <;> decide)).bind ?_
  rintro t w c' ⟨rfl, rfl, -⟩
  refine (yields_expect (by decide) _).bind ?_
  rintro x w c'' ⟨hx, rfl⟩
  refine (yields_updateOp _ c'').bind ?_
  rintro op w c₃ ⟨hs, rfl⟩
  exact yields_pure (.updateBefore ⟨ht, hs⟩ hx)

theorem yields_literal {make : String → Expr} {c : Cursor} (hk : c.current.kind ≠ .eof)
    (h : Expression (.tier .primary (make c.current.text)) [c.current]) :
    Yields (literal make) c fun e w _ => Expression (.tier .primary e) w := by
  refine (yields_advance hk).bind ?_
  rintro t w c' ⟨rfl, rfl, -⟩
  exact yields_pure h

include ho

theorem yields_signed {make : Expr → Expr} {c : Cursor} (hk : c.current.kind ≠ .eof)
    (hs : sign? c.current = some make) :
    Yields (signed make operand) c fun e w _ => Expression (.tier .primary e) w := by
  refine (yields_advance hk).bind ?_
  rintro t w c' ⟨rfl, rfl, -⟩
  exact (ho c').map fun e u c'' hu => .signed hs hu

theorem yields_operatorExpr {c : Cursor} (hk : c.current.kind = .operator) :
    Yields (operatorExpr c.current.text operand) c fun e w _ =>
      Expression (.tier .primary e) w := by
  have hne : c.current.kind ≠ .eof := by rw [hk]; decide
  have hsign (text : String) (ht : c.current.text = text) :
      sign? c.current = if text = "*" then some .deref else if text = "-" then some (.unary .neg)
        else if text = "+" then some (.unary .pos) else none := by
    simp [sign?, Token.is, hk, ht]
  unfold operatorExpr
  split
  · rename_i ht
    exact yields_signed ho hne (by rw [hsign _ ht, if_pos rfl])
  · split
    · rename_i ht
      exact yields_signed ho hne (by rw [hsign _ ht]; rfl)
    · split
      · rename_i ht
        exact yields_signed ho hne (by rw [hsign _ ht]; rfl)
      · exact yields_fail _

include he

theorem yields_primary : ReadsTier (primary expr operand) .primary := by
  intro c
  refine yields_current ?_
  split
  all_goals rename_i hk
  · refine yields_taken hk (by decide) fun c' => ?_
    refine (yields_number _ c').bind ?_
    rintro n w c'' ⟨rfl, rfl⟩
    exact yields_pure (.number hk)
  · exact yields_literal (by rw [hk]; decide) (.string hk)
  · exact yields_literal (by rw [hk]; decide) (.char hk)
  · exact yields_updated (.inl hk)
  · exact yields_updated (.inr hk)
  · split
    · rename_i ht
      exact yields_signed ho (by rw [hk]; decide) (by simp [sign?, Token.is, hk, ht])
    · exact yields_fail _
  · exact yields_signed ho (by rw [hk]; decide) (by simp [sign?, Token.is, hk])
  · exact yields_named he hk
  · exact yields_parenthesised he hk
  · exact yields_fail _
  · exact yields_braces he hk
  · exact yields_operatorExpr ho hk
  · exact yields_fail _
  · exact yields_fail _

end Expressions

theorem yields_expression (n : Nat) (tier : Tier) : ReadsTier (expression n tier) tier := by
  induction n generalizing tier with
  | zero => exact fun c => yields_fail _
  | succ n ih =>
    cases tier with
    | primary => exact yields_primary (ih .or) (ih .primary)
    | power => exact yields_power (ih .primary) (ih .power)
    | _ => exact yields_chain rfl (ih _)

theorem kind_of_isTypeWord {t : Token} (h : isTypeWord t = true) : t.kind = .keyword := by
  rw [isTypeWord, Bool.and_eq_true] at h
  exact of_decide_eq_true h.1

section Words

variable {more : Token → Bool} (hm : ∀ t, more t = true → t.kind ≠ .eof)
include hm

theorem yields_while (left : List Token) (c : Cursor) :
    Yields (manyOver more advance left) c fun ts w _ => ts = w ∧ ∀ t ∈ w, more t = true := by
  refine yields_manyOver (R := fun t w => w = [t] ∧ more t = true) ⟨rfl, by simp⟩ ?_ ?_ left c
  · rintro t ts u v ⟨rfl, ht⟩ ⟨rfl, hts⟩
    exact ⟨rfl, by simpa using ⟨ht, hts⟩⟩
  · intro c hc
    refine (yields_advance (hm _ hc)).mono ?_
    rintro t w c' ⟨rfl, rfl, -⟩
    exact ⟨rfl, hc⟩

theorem yields_while_first {c : Cursor} (hc : more c.current = true) :
    Yields (many more advance) c fun ts w _ => ts = w ∧ w ≠ [] ∧ ∀ t ∈ w, more t = true := by
  intro he
  -- The first token is not the last, so one at least is counted off.
  have hrest := he.rest_ne_nil (hm _ hc)
  refine yields_get ?_ he
  cases hr : c.rest with
  | nil => exact absurd hr hrest
  | cons u us =>
    refine yields_current ?_
    rw [if_pos hc]
    refine (yields_advance (hm _ hc)).bind ?_
    rintro t w c' ⟨rfl, rfl, -⟩
    refine (yields_while hm us c').bind ?_
    rintro ts v c'' ⟨rfl, hts⟩
    exact yields_pure ⟨by simp, by simp, by simpa using ⟨hc, hts⟩⟩

end Words

theorem yields_typeName {c : Cursor} (hc : isTypeWord c.current = true) :
    Yields typeName c fun type w _ => TypeName type w := by
  have hm (t : Token) (ht : isTypeWord t = true) : t.kind ≠ .eof := by
    rw [kind_of_isTypeWord ht]; decide
  refine (yields_while_first hm hc).map ?_
  rintro ts w c' ⟨rfl, hne, hts⟩
  exact ⟨hne, hts, rfl⟩

theorem yields_stars (c : Cursor) : Yields stars c fun depth w _ => Stars depth w := by
  have hm (t : Token) (ht : t.is .operator "*" = true) : t.kind ≠ .eof := by
    rw [(Token.is_iff.1 ht).1]; decide
  refine (yields_get (yields_while hm c.rest c)).map ?_
  rintro ts w c' ⟨rfl, hts⟩
  exact ⟨hts, rfl⟩

theorem yields_parameter (c : Cursor) : Yields parameter c fun p w _ => ParameterOf p w := by
  refine yields_current ?_
  split
  · exact yields_fail _
  · rename_i hc
    have hw : isTypeWord c.current = true := by simpa using hc
    refine (yields_typeName hw).bind fun type u c' hu =>
      (yields_stars c').bind fun depth v c'' hv =>
      (yields_expect (by decide) _).bind ?_
    rintro x w c₃ ⟨hx, rfl⟩
    exact yields_pure (.mk hu hv hx)

theorem parameter_length_pos {p : Parameter} {w : List Token} (h : ParameterOf p w) :
    0 < w.length := by
  cases h
  simp only [List.length_append, List.length_cons]
  omega

/-- A parameter takes a token, so the tokens counted off last until the list ends. -/
theorem yields_parametersOver (left : List Token) {c : Cursor}
    (hl : c.tokens.length ≤ left.length) :
    Yields (parametersOver left) c fun ps w _ => ParameterList ps w := by
  induction left generalizing c with
  | nil => simp [Cursor.tokens] at hl
  | cons t left ih =>
    refine (yields_parameter c).located.bind ?_
    rintro p u c' ⟨hp, rfl⟩
    refine (yields_accept (by decide)).located.bind ?_
    rintro b w c'' ⟨⟨rfl, ht, rfl⟩ | ⟨rfl, rfl, -, -⟩, hc'⟩
    · have hpos := parameter_length_pos hp
      have hlength := congrArg (·.tokens.length) hc'
      simp only [Cursor.tokens_back, List.length_append, List.length_cons,
        List.length_nil] at hl hlength
      exact (ih (c := c'') (by omega)).map fun ps v c₃ hv => .cons hp ht hv
    · refine yields_pure ?_
      rw [List.append_nil, List.append_nil]
      exact .last hp

theorem yields_parameters (c : Cursor) : Yields parameters c fun ps w _ => Parameters ps w := by
  refine yields_get ?_
  split
  · rename_i hv
    rw [Bool.and_eq_true] at hv
    refine yields_taken (Token.is_iff.1 hv.1).1 (by decide) fun c' => ?_
    exact yields_pure (.void hv.1)
  · split
    · exact yields_pure .none
    · exact (yields_parametersOver _ (Nat.le_refl _)).mono fun ps w _ hw => .list hw

section Statements

/-- A statement has been read, and if it ends with an open if, no else follows. -/
def Finished (s : Stmt) (w : List Token) (c : Cursor) : Prop :=
  Statement (.statement s) w ∧ (endsOpen s = true → c.current.is .keyword "else" = false)

theorem Finished.of_closed {s : Stmt} {w : List Token} {c : Cursor} (h : Statement (.statement s) w)
    (hs : endsOpen s = false) : Finished s w c :=
  ⟨h, fun ho => absurd ho (by rw [hs]; exact Bool.false_ne_true)⟩

variable {expr : Parser Expr} {stmt : Parser Stmt} (he : ReadsTier expr .or)
  (hs : ∀ c : Cursor, Yields stmt c Finished)

section

include hs

theorem yields_statements (more : Token → Bool) (c : Cursor) :
    Yields (many more stmt) c fun ss w _ => Statement (.statements ss) w :=
  yields_many .nil .cons (fun c _ => (hs c).mono fun _ _ _ h => h.1) c

theorem yields_block {c : Cursor} (hl : c.current.kind = .lbrace) :
    Yields (block stmt) c fun body w _ => ∃ l u r, l.kind = .lbrace ∧
    Statement (.statements body) u ∧
      r.kind = .rbrace ∧ w = l :: (u ++ [r]) := by
  refine yields_taken hl (by decide) fun c' => ?_
  refine (yields_statements hs _ c').bind fun body u c'' hu => (yields_expect (by decide) _).bind ?_
  rintro r w c₃ ⟨hr, rfl⟩
  exact yields_pure ⟨c.current, u, r, hl, hu, hr, rfl⟩

theorem yields_function {c : Cursor} (hl : c.current.kind = .lparen) {type : String} {x : Token}
    {depth : Nat} {u v : List Token} (ht : TypeName type u) (hd : Stars depth v)
    (hx : x.kind = .identifier) :
    Yields (function stmt type x.text depth) c fun s w _ =>
      Statement (.declaration s) (u ++ (v ++ x :: w)) ∧ endsOpen s = false := by
  refine yields_taken hl (by decide) fun c' => ?_
  refine (yields_parameters c').bind fun ps p c'' hp => (yields_expect (by decide) _).bind ?_
  rintro r w c₃ ⟨hr, rfl⟩
  refine yields_current ?_
  split
  · rename_i hl'
    refine (yields_block hs hl').map ?_
    rintro body w c₄ ⟨l', b, r', hl', hb, hr', rfl⟩
    exact ⟨.function ht hd hx hl hp hr hl' hb hr', rfl⟩
  · exact yields_fail _

end

theorem yields_arrayPart (c : Cursor) : Yields arrayPart c fun size w _ => Brackets size w := by
  refine (yields_accept (by decide)).bind ?_
  rintro b w c' (⟨rfl, hl, rfl⟩ | ⟨rfl, rfl, -, -⟩)
  · have hlength : Yields arrayLength c' fun size w _ =>
        (size = none ∧ w = []) ∨ ∃ t, t.kind = .number ∧ size = some (literalValue t.text) ∧
          w = [t] := by
      refine yields_current ?_
      split
      · rename_i hk
        refine yields_taken hk (by decide) fun c'' => ?_
        refine (yields_number _ c'').bind ?_
        rintro n w c₃ ⟨rfl, rfl⟩
        exact yields_pure (.inr ⟨_, hk, rfl, rfl⟩)
      · exact yields_pure (.inl ⟨rfl, rfl⟩)
    refine hlength.bind fun size v c'' hv => (yields_expect (by decide) _).bind ?_
    rintro r w c₃ ⟨hr, rfl⟩
    refine yields_pure ?_
    rcases hv with ⟨rfl, rfl⟩ | ⟨t, ht, rfl, rfl⟩
    · exact .empty hl hr
    · exact .sized hl ht hr
  · exact yields_pure .none

include he

theorem yields_initialiser (c : Cursor) :
    Yields (initialiser expr) c fun init w _ => Initialiser init w := by
  refine (yields_accept (by decide)).bind ?_
  rintro b w c' (⟨rfl, ht, rfl⟩ | ⟨rfl, rfl, -, -⟩)
  · exact (he c').map fun e u c'' hu => .some ht hu
  · exact yields_pure .none

theorem yields_variableDeclaration {c : Cursor} {type : String} {x : Token} {depth : Nat}
    {u v : List Token} (ht : TypeName type u) (hd : Stars depth v) (hx : x.kind = .identifier) :
    Yields (variableDeclaration expr type x.text depth) c fun s w _ =>
      Statement (.declaration s) (u ++ (v ++ x :: w)) ∧ endsOpen s = false := by
  refine (yields_arrayPart c).bind fun size a c' ha =>
    (yields_initialiser he c').bind fun init i c'' hi =>
    (yields_expect (by decide) _).bind ?_
  rintro z w c₃ ⟨hz, rfl⟩
  exact yields_pure ⟨.declare ht hd hx ha hi hz, rfl⟩

include hs

theorem yields_declaration {c : Cursor} (hc : isTypeWord c.current = true) :
    Yields (declaration expr stmt) c fun s w _ => Statement (.declaration s) w ∧
    endsOpen s = false := by
  refine (yields_typeName hc).bind fun type u c' hu => (yields_stars c').bind fun depth v c'' hv =>
    (yields_expect (by decide) _).bind ?_
  rintro x w c₃ ⟨hx, rfl⟩
  refine yields_current ?_
  split
  · rename_i hl
    exact yields_function hs hl hu hv hx
  · exact yields_variableDeclaration he hu hv hx

omit hs

theorem yields_target {c : Cursor} (hx : c.current.kind = .identifier) :
    Yields (target expr) c fun place w _ => Place place w := by
  refine yields_taken hx (by decide) fun c' => ?_
  refine (yields_accept (by decide)).bind ?_
  rintro b w c₁ (⟨rfl, hl, rfl⟩ | ⟨rfl, rfl, -, -⟩)
  · refine (yields_index he c₁).map ?_
    rintro i v c₃ ⟨u, r, hu, hr, rfl⟩
    exact .element hx hl hu hr
  · exact yields_pure (.name hx)

theorem yields_assignment {c : Cursor} {place : Target} {u : List Token} (hu : Place place u)
    (ha : c.current.kind = .assign ∨ c.current.kind = .compoundAssign) (start : Cursor) :
    Yields (assignment expr start place) c fun s w _ => Simple s (u ++ w) := by
  refine yields_current ?_
  rw [if_pos (by simpa using ha)]
  refine (yields_advance (by rcases ha with h | h <;> rw [h] <;> decide)).bind ?_
  rintro t w c' ⟨rfl, rfl, -⟩
  have hop : Yields (assignOp c.current) c' fun op w _ => Assigns c.current op ∧ w = [] := by
    unfold assignOp
    cases h : AssignOp.ofSymbol? c.current.text with
    | none => exact yields_throw _
    | some op =>
      have hs := List.find?_some h
      exact yields_pure ⟨⟨ha, (of_decide_eq_true hs).symm⟩, rfl⟩
  refine hop.bind ?_
  rintro op w c'' ⟨hop, rfl⟩
  exact (he c'').map fun e v c₃ hv => .assign hu hop hv

/-- Where the place turns out not to be assigned to, nothing of it is kept. -/
theorem yields_simple (c : Cursor) : Yields (simple expr) c fun s w _ => Simple s w := by
  have hexpr : Yields (do return .expr (← expr)) c fun s w _ => Simple s w := by
    exact (he c).map fun e u c' hu => .expr hu
  refine yields_get ?_
  split
  · rename_i hx
    intro hc s c' hs
    obtain ⟨place, c₁, hp, hs⟩ := bind_eq_ok hs
    by_cases ha : c₁.current.kind = .assign ∨ c₁.current.kind = .compoundAssign
    · obtain ⟨u, rfl, hu⟩ := yields_target he hx hc place c₁ hp
      obtain ⟨v, rfl, hv⟩ := yields_assignment he hu ha _ hc.of_back s c' hs
      exact ⟨u ++ v, (Cursor.back_append c' u v).symm, hv⟩
    -- The cursor is set back, so what was read as a place does not count.
    · unfold assignment at hs
      rw [current_bind, if_neg (by simpa using ha)] at hs
      exact hexpr hc s c' hs
  · exact hexpr

omit he in
theorem simple_closed {s : Stmt} {w : List Token} (h : Simple s w) : endsOpen s = false := by
  cases h <;> rfl

theorem yields_simpleStatement (c : Cursor) : Yields (simpleStatement expr) c fun s w _ =>
    ∃ u z, Simple s u ∧ z.kind = .semicolon ∧ w = u ++ [z] := by
  refine (yields_simple he c).bind fun s u c' hu => (yields_expect (by decide) _).bind ?_
  rintro z w c'' ⟨hz, rfl⟩
  exact yields_pure ⟨u, z, hu, hz, rfl⟩

theorem yields_condition (word : String) (c : Cursor) : Yields (condition expr word) c fun e w _ =>
    ∃ l u r, l.kind = .lparen ∧ Expression (.tier .or e) u ∧ r.kind = .rparen ∧
    w = l :: (u ++ [r]) := by
  refine (yields_expect (by decide) _).bind ?_
  rintro l w c' ⟨hl, rfl⟩
  refine (he c').bind fun e u c'' hu => (yields_expect (by decide) _).bind ?_
  rintro r w c₃ ⟨hr, rfl⟩
  exact yields_pure ⟨l, u, r, hl, hu, hr, rfl⟩

omit he in
theorem yields_before {α : Type} {close : Token.Kind} {p : Parser α}
    {R : Option α → List Token → Prop} (none : R none [])
    (h : ∀ c, Yields p c fun x w _ => R (some x) w) (c : Cursor) :
    Yields (before close p) c fun o w _ => R o w := by
  refine yields_current ?_
  split
  · exact yields_pure none
  · exact (h c).map fun x w c' hw => hw

theorem yields_returnStatement {c : Cursor} (ht : c.current.is .keyword "return" = true) :
    Yields (returnStatement expr) c Finished := by
  refine yields_taken (Token.is_iff.1 ht).1 (by decide) fun c' => ?_
  refine (yields_before (R := Optional) .none (fun c => (he c).mono fun _ _ _ h => .some h) c').bind
    fun value u c'' hu => (yields_expect (by decide) _).bind ?_
  rintro z w c₃ ⟨hz, rfl⟩
  exact yields_pure (.of_closed (.ret ht hu hz) rfl)

omit he in
theorem yields_jump {c : Cursor} {word : String} {make : Stmt}
    (ht : c.current.is .keyword word = true)
    (h : ∀ z : Token, z.kind = .semicolon → Statement (.statement make) [c.current, z])
    (ho : endsOpen make = false) : Yields (jump make) c Finished := by
  refine yields_taken (Token.is_iff.1 ht).1 (by decide) fun c' => ?_
  refine (yields_expect (by decide) _).bind ?_
  rintro z w c'' ⟨hz, rfl⟩
  exact yields_pure (.of_closed (h z hz) ho)

include hs

theorem yields_branch {c : Cursor} (ht : c.current.is .keyword "if" = true) :
    Yields (branch expr stmt) c Finished := by
  refine yields_taken (Token.is_iff.1 ht).1 (by decide) fun c₁ => ?_
  refine (yields_condition he "if" c₁).bind ?_
  rintro e w c₂ ⟨l, u, r, hl, hu, hr, rfl⟩
  refine (hs c₂).bind ?_
  rintro yes v c₃ ⟨hv, hopen⟩
  refine (yields_acceptText (by decide) "else").bind ?_
  rintro b w c₄ (⟨rfl, ht', rfl⟩ | ⟨rfl, rfl, rfl, hno⟩)
  -- An open if in front of the else would have taken it.
  · have hclosed : endsOpen yes = false := by
      cases ho : endsOpen yes with
      | false => rfl
      | true => exact absurd ht' (by rw [hopen ho]; exact Bool.false_ne_true)
    refine (hs c₄).bind ?_
    rintro no w c₅ ⟨hw, hopen'⟩
    refine yields_pure ⟨?_, hopen'⟩
    have hb := Statement.branchElse ht hl hu hr hv hclosed ht' hw
    simpa using hb
  · refine yields_pure ⟨?_, fun _ => hno⟩
    have hb := Statement.branch ht hl hu hr hv
    simpa using hb

theorem yields_whileLoop {c : Cursor} (ht : c.current.is .keyword "while" = true) :
    Yields (whileLoop expr stmt) c Finished := by
  refine yields_taken (Token.is_iff.1 ht).1 (by decide) fun c₁ => ?_
  refine (yields_condition he "while" c₁).bind ?_
  rintro e w c₂ ⟨l, u, r, hl, hu, hr, rfl⟩
  refine (hs c₂).bind ?_
  rintro body v c₃ ⟨hv, hopen⟩
  refine yields_pure ⟨?_, hopen⟩
  have hw := Statement.whileLoop ht hl hu hr hv
  simpa using hw

theorem yields_doLoop {c : Cursor} (ht : c.current.is .keyword "do" = true) :
    Yields (doLoop expr stmt) c Finished := by
  refine yields_taken (Token.is_iff.1 ht).1 (by decide) fun c₁ => ?_
  refine (hs c₁).bind ?_
  rintro body u c₂ ⟨hu, -⟩
  refine (yields_acceptText (by decide) "while").bind ?_
  rintro b w c₃ (⟨rfl, ht', rfl⟩ | ⟨rfl, rfl, -, -⟩)
  · refine (yields_condition he "while" c₃).bind ?_
    rintro e w c₄ ⟨l, v, r, hl, hv, hr, rfl⟩
    refine (yields_expect (by decide) _).bind ?_
    rintro z w c₅ ⟨hz, rfl⟩
    refine yields_pure (.of_closed ?_ rfl)
    have hd := Statement.doLoop ht hu ht' hl hv hr hz
    simpa using hd
  · exact yields_fail _

theorem yields_forInit (c : Cursor) :
    Yields (forInit expr stmt) c fun init w _ => Statement (.init init) w := by
  refine (yields_accept (by decide)).bind ?_
  rintro b w c₁ (⟨rfl, hz, rfl⟩ | ⟨rfl, rfl, -, -⟩)
  · exact yields_pure (.noInit hz)
  · refine yields_current ?_
    split
    · rename_i hc
      exact (yields_declaration he hs hc).map fun s w c₂ hw => .declarationInit hw.1
    · refine (yields_simpleStatement he c₁).map ?_
      rintro s w c₂ ⟨u, z, hu, hz, rfl⟩
      exact .simpleInit hu hz

theorem yields_forLoop {c : Cursor} (ht : c.current.is .keyword "for" = true) :
    Yields (forLoop expr stmt) c Finished := by
  refine yields_taken (Token.is_iff.1 ht).1 (by decide) fun c₁ => ?_
  refine (yields_expect (by decide) _).bind ?_
  rintro l w c₂ ⟨hl, rfl⟩
  have hcondition : ∀ c, Yields (before .semicolon expr) c fun e u _ => Optional e u :=
    yields_before .none fun c => (he c).mono fun _ _ _ h => .some h
  have hstep : ∀ c, Yields (before .rparen (simple expr)) c fun s v _ => Step s v :=
    yields_before .none fun c => (yields_simple he c).mono fun _ _ _ h => .some h
  refine (yields_forInit he hs c₂).bind fun init i c₃ hi => (hcondition c₃).bind fun e u c₄ hu =>
    (yields_expect (by decide) _).bind ?_
  rintro z w c₅ ⟨hz, rfl⟩
  refine (hstep c₅).bind fun step v c₆ hv => (yields_expect (by decide) _).bind ?_
  rintro r w c₇ ⟨hr, rfl⟩
  refine (hs c₇).bind ?_
  rintro body w c₈ ⟨hw, hopen⟩
  refine yields_pure ⟨?_, hopen⟩
  have hf := Statement.forLoop ht hl hi hu hz hv hr hw
  simpa using hf

omit he in
theorem yields_labelled (cause : Cause) (c : Cursor) :
    Yields (labelled stmt cause) c fun body w _ =>
    ∃ z u, EndsLabel z ∧ Statement (.statements body) u ∧ w = z :: u := by
  have hend : Yields labelEnd c fun b w _ => b = true → ∃ z, EndsLabel z ∧ w = [z] := by
    refine (yields_accept (by decide)).bind ?_
    rintro b w c₁ (⟨rfl, hz, rfl⟩ | ⟨rfl, rfl, -, -⟩)
    · exact yields_pure fun _ => ⟨_, .inl hz, rfl⟩
    · refine (yields_accept (by decide)).mono ?_
      rintro b w c₂ (⟨rfl, hz, rfl⟩ | ⟨rfl, rfl, -, -⟩)
      · exact fun _ => ⟨_, .inr hz, rfl⟩
      · exact fun h => absurd h Bool.false_ne_true
  refine hend.bind fun b w c₁ hb => ?_
  cases b with
  | false => exact yields_fail _
  | true =>
    obtain ⟨z, hz, rfl⟩ := hb rfl
    exact (yields_statements hs _ c₁).mono fun body u _ hu => ⟨z, u, hz, hu, rfl⟩

theorem yields_sectionsOver (left : List Token) (cases : List SwitchCase)
    (otherwise : Option (List Stmt)) (c : Cursor) :
    Yields (sectionsOver expr stmt left cases otherwise) c fun r w _ =>
      ∃ cs o, Statement (.sections cs o) w ∧ r.1 = cases ++ cs ∧
        ((o = none ∧ r.2 = otherwise) ∨ (otherwise = none ∧ r.2 = o)) := by
  have hnone (cases : List SwitchCase) (otherwise : Option (List Stmt)) (c : Cursor) :
      Yields (pure (cases, otherwise)) c fun r w _ =>
        ∃ cs o, Statement (.sections cs o) w ∧ r.1 = cases ++ cs ∧
        ((o = none ∧ r.2 = otherwise) ∨ (otherwise = none ∧ r.2 = o)) :=
    yields_pure ⟨[], none, .noSections, (List.append_nil _).symm, .inl ⟨rfl, rfl⟩⟩
  induction left generalizing cases otherwise c with
  | nil => exact hnone cases otherwise c
  | cons t left ih =>
    refine yields_current ?_
    split
    · exact hnone cases otherwise c
    · split
      · rename_i ht
        refine yields_taken (Token.is_iff.1 ht).1 (by decide) fun c₁ => ?_
        refine (he c₁).bind fun value u c₂ hu => (yields_labelled hs _ c₂).bind ?_
        rintro body w c₃ ⟨z, v, hz, hv, rfl⟩
        refine (ih _ _ c₃).mono ?_
        rintro r w c₄ ⟨cs, o, hw, hr, ho⟩
        refine ⟨.mk value body :: cs, o, ?_, by rw [hr, List.append_assoc]; rfl, ho⟩
        exact .caseSection ht hu hz hv hw
      · split
        · rename_i ht
          cases otherwise with
          | some body => exact yields_fail _
          | none =>
            refine yields_taken (Token.is_iff.1 ht).1 (by decide) fun c₁ => ?_
            refine (yields_labelled hs _ c₁).bind ?_
            rintro body w c₂ ⟨z, v, hz, hv, rfl⟩
            refine (ih _ _ c₂).mono ?_
            -- A second default is refused, so behind this one there are only cases.
            rintro r w c₃ ⟨cs, o, hw, hr, ⟨rfl, ho⟩ | ⟨h, -⟩⟩
            · exact ⟨cs, some body, .defaultSection ht hz hv hw, hr, .inr ⟨rfl, ho⟩⟩
            · cases h
        · exact yields_fail _

theorem yields_switch {c : Cursor} (ht : c.current.is .keyword "switch" = true) :
    Yields (switch expr stmt) c Finished := by
  refine yields_taken (Token.is_iff.1 ht).1 (by decide) fun c₁ => ?_
  refine (yields_expect (by decide) _).bind ?_
  rintro l w c₂ ⟨hl, rfl⟩
  refine yields_current ?_
  split
  · exact yields_fail _
  · refine (he c₂).bind fun test u c₃ hu => (yields_expect (by decide) _).bind ?_
    rintro r w c₄ ⟨hr, rfl⟩
    refine (yields_expect (by decide) _).bind ?_
    rintro l' w c₅ ⟨hl', rfl⟩
    refine yields_get ((yields_sectionsOver he hs _ [] none c₅).bind ?_)
    rintro ⟨cases, otherwise⟩ v c₆ ⟨cs, o, hv, hcs, ho⟩
    obtain rfl : cases = cs := hcs
    obtain rfl : otherwise = o := by
      rcases ho with ⟨rfl, h⟩ | ⟨-, h⟩
      · exact h
      · exact h
    refine (yields_expect (by decide) _).bind ?_
    rintro r' w c₇ ⟨hr', rfl⟩
    exact yields_pure (.of_closed (.switch ht hl hu hr hl' hv hr') rfl)

theorem yields_plainStatement (c : Cursor) : Yields (plainStatement expr stmt) c Finished := by
  refine yields_current ?_
  split
  · rename_i hl
    refine (yields_block hs hl).map ?_
    rintro body w c₁ ⟨l, u, r, hl, hu, hr, rfl⟩
    exact .of_closed (.block hl hu hr) rfl
  · split
    · rename_i hz
      refine yields_taken hz (by decide) fun c₁ => ?_
      exact yields_pure (.of_closed (.empty hz) rfl)
    · split
      · rename_i hl _ _
        refine (yields_simpleStatement he c).located.mono ?_
        rintro s w c₁ ⟨⟨u, z, hu, hz, rfl⟩, hc⟩
        refine .of_closed (.simple hu ?_ hz) (simple_closed hu)
        cases u with
        | nil => simp
        | cons t u =>
          rw [hc] at hl
          intro hk
          exact hl (Option.some.inj hk)
      · exact yields_fail _

theorem yields_worded {c : Cursor} (hk : c.current.kind = .keyword) {p : Parser Stmt}
    (hp : (worded expr stmt).lookup c.current.text = some p) : Yields p c Finished := by
  have hword {word : String} (ht : c.current.text = word) : c.current.is .keyword word = true :=
    Token.is_iff.2 ⟨hk, ht⟩
  obtain ⟨l₁, l₂, hl, -⟩ := List.lookup_eq_some_iff.1 hp
  have hmem : (c.current.text, p) ∈ worded expr stmt := by simp [hl]
  simp only [worded, List.mem_cons, Prod.mk.injEq, List.not_mem_nil, or_false] at hmem
  rcases hmem with ⟨ht, rfl⟩ | ⟨ht, rfl⟩ | ⟨ht, rfl⟩ | ⟨ht, rfl⟩ | ⟨ht, rfl⟩ | ⟨ht, rfl⟩ | ⟨ht,
    rfl⟩ | ⟨ht, rfl⟩
  · exact yields_branch he hs (hword ht)
  · exact yields_whileLoop he hs (hword ht)
  · exact yields_doLoop he hs (hword ht)
  · exact yields_forLoop he hs (hword ht)
  · exact yields_switch he hs (hword ht)
  · exact yields_returnStatement he (hword ht)
  · exact yields_jump (hword ht) (fun z hz => .breakOut (hword ht) hz) rfl
  · exact yields_jump (hword ht) (fun z hz => .continueOn (hword ht) hz) rfl

theorem yields_statementOf (c : Cursor) : Yields (statementOf expr stmt) c Finished := by
  refine yields_current ?_
  split
  · rename_i hc
    exact (yields_declaration he hs hc).mono fun s w _ h => .of_closed (.declaration h.1) h.2
  · split
    · rename_i hk
      cases hp : (worded expr stmt).lookup c.current.text with
      | none => exact yields_plainStatement he hs c
      | some p => exact yields_worded he hs hk hp
    · exact yields_plainStatement he hs c

end Statements

theorem yields_statement (n : Nat) (c : Cursor) : Yields (statement n) c Finished := by
  induction n generalizing c with
  | zero => exact yields_fail _
  | succ n ih => exact yields_statementOf (yields_expression n .or) ih c

theorem yields_program (n : Nat) (c : Cursor) :
    Yields (program n) c fun body w _ => Program body w := by
  refine yields_many (R := fun s w => ∀ ss v, Program ss v → Program (s :: ss) (w ++ v)) .nil ?_ ?_
    c
  · exact fun hx hxs => hx _ _ hxs
  · intro c _
    refine yields_current ?_
    split
    · rename_i ht
      refine yields_taken ht (by decide) fun c₁ => ?_
      exact yields_pure fun ss v hv => .directive ht hv
    · exact (yields_statement n c).mono fun s w _ hw ss v hv => .statement hw.1 hv

end MiniC.Parse.Parser

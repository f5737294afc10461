import MiniC.Proofs.RoundTrip

/-! An expression alone and an expression as a statement. Reading tokens as one expression, and
reading them as a program with a semicolon behind them, go through different productions: the first
token decides what kind of statement there is, and what might be assigned to is read first and given
up again. Main statement: neither changes which expressions are read, or into which tree. Nesting
apart, what could stop one of the two and not the other is a number that is too long, so an
expression that has been read is shown to have none. -/

namespace MiniC.Parse.Parser

open Grammar

section Legible

variable {α β : Type} {p : Parser α} {f : α → Parser β} {c : Cursor}

def LegibleAt (p : Parser α) (c : Cursor) : Prop := Yields p c fun _ w _ => ∀ t ∈ w, Readable t

def Legible (p : Parser α) : Prop := ∀ c : Cursor, LegibleAt p c

theorem readable_of_kind {t : Token} (h : t.kind ≠ .number) : Readable t := fun hk => absurd hk h

theorem legible_nothing (h : Yields p c fun _ w _ => w = []) : LegibleAt p c := by
  apply h.mono
  rintro x w c' rfl t ht
  simp at ht

theorem LegibleAt.bind (h : LegibleAt p c) (hf : ∀ x, Legible (f x)) : LegibleAt (p >>= f) c := by
  apply Yields.bind h
  intro x u c' hu
  apply (hf x c').mono
  intro y v c'' hv t ht
  rcases List.mem_append.1 ht with ht | ht
  · exact hu t ht
  · exact hv t ht

theorem legible_pure (x : α) : Legible (pure x : Parser α) :=
  fun _ => legible_nothing (yields_pure rfl)

theorem legible_fail (cause : Cause) : Legible (fail cause : Parser α) := fun _ => yields_fail cause

theorem LegibleAt.map (h : LegibleAt p c) (g : α → β) : LegibleAt (p >>= fun x => pure (g x)) c :=
  h.bind fun x => legible_pure (g x)

theorem legible_taken {f : Token → Parser β} (hk : c.current.kind ∉ [Token.Kind.eof, .number])
    (h : Legible (f c.current)) : LegibleAt (advance >>= f) c := by
  simp only [List.mem_cons, List.not_mem_nil, or_false, not_or] at hk
  apply yields_taken rfl hk.1
  intro c'
  apply (h c').mono
  intro y v c'' hv t ht
  rcases List.mem_cons.1 ht with rfl | ht
  · exact readable_of_kind hk.2
  · exact hv t ht

theorem legible_advance (hk : c.current.kind ∉ [Token.Kind.eof, .number]) : LegibleAt advance c :=
  legible_taken (f := pure) hk (legible_pure _)

theorem legible_accept {k : Token.Kind} (hk : k ∉ [Token.Kind.eof, .number]) :
    Legible (accept k) := by
  intro c
  apply yields_current
  split
  · rename_i hc
    exact legible_taken (by rwa [hc]) (legible_pure true)
  · exact legible_pure false c

theorem legible_acceptText {k : Token.Kind} (hk : k ∉ [Token.Kind.eof, .number]) (text : String) :
    Legible (acceptText k text) := by
  intro c
  apply yields_current
  split
  · rename_i hc
    exact legible_taken (by rwa [(Token.is_iff.1 hc).1]) (legible_pure true)
  · exact legible_pure false c

theorem legible_expect {k : Token.Kind} (hk : k ∉ [Token.Kind.eof, .number]) (cause : Cause) :
    Legible (expect k cause) := by
  intro c
  apply yields_current
  split
  · rename_i hc
    exact legible_advance (by rwa [hc])
  · exact legible_fail cause c

theorem legible_updateOp (t : Token) : Legible (updateOp t) := by
  intro c
  apply legible_nothing
  exact (yields_updateOp t c).mono fun _ _ _ h => h.2

theorem legible_commaList {item : Parser α} (h : Legible item) (close : Token.Kind) :
    Legible (commaList close item) := by
  apply yields_commaList (R := fun _ w => ∀ t ∈ w, Readable t) (L := fun _ w => ∀ t ∈ w, Readable t)
  · simp
  · exact id
  · intro x xs t u v hu ht hv s hs
    simp only [List.mem_append, List.mem_cons] at hs
    rcases hs with hs | rfl | hs
    · exact hu s hs
    · exact readable_of_kind (by simp [ht])
    · exact hv s hs
  · exact h

end Legible

section Expressions

theorem legible_chain {operand : Parser Expr} (h : Legible operand) (tier : Tier) :
    Legible (chain tier.operator? operand) := by
  have hover : ∀ (left : List Token) (e : Expr),
      Legible (chainOver tier.operator? operand left e) := by
    intro left
    induction left with
    | nil => exact fun e => legible_pure e
    | cons t left ih =>
      intro e c
      apply yields_current
      cases ho : tier.operator? c.current with
      | none => exact legible_pure e c
      | some op =>
        have hk : c.current.kind ∉ [Token.Kind.eof, .number] := by
          rw [kind_of_operator? ho]
          cases tier <;> decide
        exact legible_taken hk fun c' => (h c').bind fun right => ih (.binary op e right)
  intro c
  exact (h c).bind fun e c' => hover c'.rest e c'

theorem legible_power {base exponent : Parser Expr} (hb : Legible base) (he : Legible exponent) :
    Legible (power base exponent) := by
  intro c
  apply (hb c).bind
  intro left c'
  apply (legible_acceptText (by decide) "^" c').bind
  intro b c''
  cases b with
  | true => exact (he c'').map _
  | false => exact legible_pure left c''

variable {expr operand : Parser Expr} (he : Legible expr) (ho : Legible operand)

include he

theorem legible_index : Legible (index expr) := by
  intro c
  apply (he c).bind
  intro i c'
  exact (legible_expect (by decide) _ c').map fun _ => i

theorem legible_named {c : Cursor} (hx : c.current.kind = .identifier) :
    LegibleAt (named expr) c := by
  apply legible_taken (by simp [hx])
  intro c₁
  apply (legible_accept (by decide) c₁).bind
  intro b c₂
  cases b with
  | true => exact (legible_index he c₂).map _
  | false =>
    apply (legible_accept (by decide) c₂).bind
    intro b c₃
    cases b with
    | true =>
      apply (legible_commaList he .rparen c₃).bind
      intro args c₄
      exact (legible_expect (by decide) _ c₄).map fun _ => _
    | false =>
      apply yields_current
      split
      · rename_i hu
        apply legible_taken (by rcases (by simpa using hu : _ ∨ _) with h | h <;> simp [h])
        intro c₄
        exact (legible_updateOp _ c₄).map _
      · exact legible_pure _ c₃

theorem legible_parenthesised {c : Cursor} (hl : c.current.kind = .lparen) :
    LegibleAt (parenthesised expr) c := by
  apply legible_taken (by simp [hl])
  intro c'
  apply (he c').bind
  intro e c''
  apply yields_current
  split
  · rename_i hr
    exact legible_taken (by simp [hr]) (legible_pure e)
  · exact yields_throw _

theorem legible_braces {c : Cursor} (hl : c.current.kind = .lbrace) :
    LegibleAt (braces expr) c := by
  apply legible_taken (by simp [hl])
  intro c'
  apply (legible_commaList he .rbrace c').bind
  intro items c''
  exact (legible_expect (by decide) _ c'').map fun _ => _

omit he

theorem legible_updated {c : Cursor} (hk : c.current.kind ∉ [Token.Kind.eof, .number]) :
    LegibleAt updated c := by
  apply legible_taken hk
  intro c'
  apply (legible_expect (by decide) _ c').bind
  intro x c''
  exact (legible_updateOp _ c'').map _

theorem legible_number {c : Cursor} (hk : c.current.kind = .number) :
    LegibleAt (do return Expr.number (← number (← advance)) 0) c := by
  apply yields_taken hk (by decide)
  intro c'
  have hnumber : Yields (number c.current) c' fun _ w _ => w = [] ∧ Readable c.current := by
    unfold number
    cases hn : number? c.current.text with
    | none => exact yields_throw _
    | some n => exact yields_pure ⟨rfl, fun _ => by simp [hn]⟩
  apply hnumber.map
  rintro n w c'' ⟨rfl, hread⟩
  simpa using hread

include ho

theorem legible_signed {make : Expr → Expr} {c : Cursor}
    (hk : c.current.kind ∉ [Token.Kind.eof, .number]) :
    LegibleAt (signed make operand) c := by
  apply legible_taken hk
  intro c'
  exact (ho c').map make

theorem legible_operatorExpr {c : Cursor} (hk : c.current.kind ∉ [Token.Kind.eof, .number])
    (text : String) :
    LegibleAt (operatorExpr text operand) c := by
  unfold operatorExpr
  split
  · exact legible_signed ho hk
  split
  · exact legible_signed ho hk
  split
  · exact legible_signed ho hk
  · exact legible_fail _ c

include he

theorem legible_primary : Legible (primary expr operand) := by
  intro c
  apply yields_current
  split
  all_goals rename_i hk
  · exact legible_number hk
  · exact (legible_advance (by simp [hk])).map _
  · exact (legible_advance (by simp [hk])).map _
  · exact legible_updated (by simp [hk])
  · exact legible_updated (by simp [hk])
  · split
    · exact legible_signed ho (by simp [hk])
    · exact legible_fail _ c
  · exact legible_signed ho (by simp [hk])
  · exact legible_named he hk
  · exact legible_parenthesised he hk
  · exact legible_fail _ c
  · exact legible_braces he hk
  · exact legible_operatorExpr ho (by simp [hk]) _
  · exact legible_fail _ c
  · exact legible_fail _ c

end Expressions

theorem legible_expression (n : Nat) (tier : Tier) : Legible (expression n tier) := by
  induction n generalizing tier with
  | zero => exact legible_fail _
  | succ n ih =>
    cases tier with
    | primary => exact legible_primary (ih .or) (ih .primary)
    | power => exact legible_power (ih .primary) (ih .power)
    | _ => exact legible_chain (ih _) _

section Extraction

variable {expr : Parser Expr} {stmt : Parser Stmt} {c c' : Cursor} {x : Expr}

/-- What was read as a place and not assigned to is read again as the expression alone would be. -/
theorem expr_of_simple (h : simple expr c = .ok (.expr x, c')) : expr c = .ok (x, c') := by
  have hexpr {c : Cursor} (h : (do return Stmt.expr (← expr)) c = .ok (Stmt.expr x, c')) :
      expr c = .ok (x, c') := by
    obtain ⟨y, c₁, hy, hpure⟩ := bind_eq_ok h
    cases hpure
    exact hy
  have hstart : (if c.current.kind = .identifier then target expr >>= assignment expr c
      else do return Stmt.expr (← expr)) c = .ok (.expr x, c') := h
  by_cases hk : c.current.kind = .identifier
  · rw [if_pos hk] at hstart
    obtain ⟨place, c₁, -, ha⟩ := bind_eq_ok hstart
    unfold assignment at ha
    rw [current_bind] at ha
    split at ha
    · obtain ⟨t, c₂, -, ha⟩ := bind_eq_ok ha
      obtain ⟨op, c₃, -, ha⟩ := bind_eq_ok ha
      obtain ⟨e, c₄, -, ha⟩ := bind_eq_ok ha
      cases ha
    · exact hexpr ha
  · rw [if_neg hk] at hstart
    exact hexpr hstart

theorem expect_eq_ok {k : Token.Kind} {cause : Cause} {t : Token}
    (h : expect k cause c = .ok (t, c')) :
    c.current.kind = k := by
  unfold expect at h
  rw [current_bind] at h
  split at h
  · assumption
  · cases h

theorem expr_of_plainStatement (h : plainStatement expr stmt c = .ok (.expr x, c')) :
    ∃ c₁, expr c = .ok (x, c₁) ∧ c₁.current.kind = .semicolon := by
  unfold plainStatement at h
  rw [current_bind] at h
  split at h
  · obtain ⟨body, c₁, -, h⟩ := bind_eq_ok h
    cases h
  split at h
  · cases h
  split at h
  · obtain ⟨s, c₁, hs, h⟩ := bind_eq_ok h
    obtain ⟨t, c₂, ht, h⟩ := bind_eq_ok h
    cases h
    exact ⟨c₁, expr_of_simple hs, expect_eq_ok ht⟩
  · cases h

end Extraction

theorem item_of_program {n : Nat} {c c' : Cursor} {s : Stmt} {ss : List Stmt}
    (h : program n c = .ok (s :: ss, c')) : ∃ c₁, item n c = .ok (s, c₁) := by
  have hover : manyOver (·.kind ≠ .eof) (item n) c.rest c = .ok (s :: ss, c') := h
  cases hr : c.rest with
  | nil =>
    rw [hr] at hover
    cases hover
  | cons t left =>
    rw [hr] at hover
    unfold manyOver at hover
    rw [current_bind] at hover
    split at hover
    · obtain ⟨y, c₁, hy, hover⟩ := bind_eq_ok hover
      obtain ⟨ys, c₂, -, hover⟩ := bind_eq_ok hover
      cases hover
      exact ⟨c₁, hy⟩
    · cases hover

theorem expression_of_wholeTree {n : Nat} {c c' : Cursor} {x : Expr} {ss : List Stmt}
    (hk : c.current.kind ∉ [Token.Kind.keyword, .preprocessor])
    (h : wholeTree (n + 1) true c = .ok (.program (.expr x :: ss), c')) :
    ∃ c₁, expression n .or c = .ok (x, c₁) ∧ c₁.current.kind = .semicolon := by
  simp only [List.mem_cons, List.not_mem_nil, or_false, not_or] at hk
  obtain ⟨c₁, hprogram⟩ : ∃ c₁, program (n + 1) c = .ok (.expr x :: ss, c₁) := by
    obtain ⟨tree, c₁, htree, hend⟩ := bind_eq_ok h
    obtain ⟨body, c₂, hbody, hpure⟩ := bind_eq_ok htree
    cases hpure
    rw [current_bind] at hend
    split at hend
    · cases hend
      exact ⟨_, hbody⟩
    · cases hend
  obtain ⟨c₂, hitem⟩ := item_of_program hprogram
  have hplain : plainStatement (expression n .or) (statement n) c = .ok (.expr x, c₂) := by
    unfold item at hitem
    rw [current_bind, if_neg hk.2] at hitem
    rw [← statementOf_plain hk.1]
    exact hitem
  exact expr_of_plainStatement hplain

end MiniC.Parse.Parser

namespace MiniC.Token

def insertBeforeEnd (z : Token) (ts : List Token) : List Token :=
  beforeEnd ts ++ z :: ts.dropWhile (·.kind ≠ .eof)

theorem insertBeforeEnd_append {w : List Token} (hw : ∀ t ∈ w, t.kind ≠ .eof) {e : Token}
    (he : e.kind = .eof) (z : Token) : insertBeforeEnd z (w ++ [e]) = w ++ [z] ++ [e] := by
  unfold insertBeforeEnd
  rw [beforeEnd_append hw he, List.dropWhile_append_of_pos (by simpa using hw),
    List.dropWhile_cons_of_neg (by simp [he]), List.append_assoc, List.singleton_append]

end MiniC.Token

namespace MiniC.Parse

open Grammar

/-- A cursor on a semicolon, with none before the last, stands in front of that. -/
theorem Cursor.eq_of_back_semicolon {c : Cursor} {u w : List Token} {e z : Token}
    (he : e.kind = .eof) (hw : ∀ t ∈ w, t.kind ≠ .semicolon)
    (h : (⟨e, []⟩ : Cursor).back (w ++ [z]) = c.back u) (hc : c.current.kind = .semicolon) :
    u = w := by
  have htokens : w ++ z :: [e] = u ++ c.current :: c.rest := by
    have := congrArg tokens h
    rwa [tokens_back, tokens_back, List.append_assoc] at this
  have hbefore : c.current ∉ w := fun hmem => hw _ hmem hc
  have hend : c.current ∉ [e] := by
    intro hmem
    rw [List.mem_singleton.1 hmem, he] at hc
    cases hc
  exact ((List.append_cons_inj_of_notMem hbefore hend).1 htokens).1.symm

theorem wholeTree_of_ofTokens {w : List Token} {e : Token} (he : e.kind = .eof)
    (hv : ∀ t ∈ w ++ [e], t.kind ≠ .invalid) {b : Bool} (hb : isProgram (w ++ [e]) = b)
    {tree : Tree} (h : ofTokens (w ++ [e]) = .ok tree) :
    ∃ c, Parser.wholeTree budget b ((⟨e, []⟩ : Cursor).back w) = .ok (tree, c) := by
  rw [ofTokens_end he hv hb] at h
  cases hread : Parser.wholeTree budget b ((⟨e, []⟩ : Cursor).back w) with
  | error s =>
    rw [hread] at h
    cases h
  | ok r =>
    rw [hread] at h
    obtain rfl := Except.ok.inj h
    exact ⟨r.2, rfl⟩

section Ended

variable {w : List Token} {e z : Token} (he : e.kind = .eof) (hw : ∀ t ∈ w, t.kind ≠ .eof)
  (hv : ∀ t ∈ w ++ [e], t.kind ≠ .invalid) (hp : isProgram (w ++ [e]) = false)
    (hz : z.kind = .semicolon)

include he hw hv hp in
theorem readable_of_ofTokens {tree : Tree} (h : ofTokens (w ++ [e]) = .ok tree) :
    ∀ t ∈ w, Readable t := by
  have hlegible : Parser.Legible (Parser.wholeTree budget false) := by
    intro c
    apply ((Parser.legible_expression budget .or c).map Tree.expr).bind
    intro tree c'
    apply Parser.yields_current
    split
    · exact Parser.legible_pure tree c'
    · exact Parser.legible_fail _ c'
  obtain ⟨c, hread⟩ := wholeTree_of_ofTokens he hv hp h
  have hended := Cursor.ended_end he w
  obtain ⟨-, -, x, rfl, -, hc⟩ := Parser.yields_wholeExpression budget _ hended tree c hread
  obtain ⟨v, hback, hall⟩ := hlegible _ hended _ c hread
  obtain rfl := Cursor.eq_of_back_end hw hback hc
  exact hall

include hp in
theorem unmarked_of_isProgram :
    ∀ t ∈ w, t.kind ∉ [Token.Kind.keyword, .semicolon, .lbrace, .rbrace, .preprocessor] := by
  intro t ht hk
  have hmark := List.any_eq_false.1 hp t (List.mem_append_left _ ht)
  simp only [List.mem_cons, List.not_mem_nil, or_false] at hk
  rcases hk with hk | hk | hk | hk | hk <;> simp [isProgramMarker, hk] at hmark

include hz in
theorem isProgram_semicolon : isProgram (w ++ [z] ++ [e]) = true := by
  simp [isProgram, isProgramMarker, hz]

include hv hz in
theorem valid_semicolon : ∀ t ∈ w ++ [z] ++ [e], t.kind ≠ .invalid := by
  intro t ht
  simp only [List.mem_append, List.mem_singleton] at ht hv
  rcases ht with (ht | rfl) | rfl
  · exact hv t (.inl ht)
  · simp [hz]
  · exact hv t (.inr rfl)

include he hv hp hz in
theorem ofTokens_semicolon {x : Expr} (hx : Expression (.tier .or x) w)
    (hread : ∀ t ∈ w, Readable t) :
    ofTokens (w ++ [z] ++ [e]) = .ok (.program [.expr x]) ∨
      ∃ d, ofTokens (w ++ [z] ++ [e]) = .error (.diagnostic d) ∧ d.cause = .tooDeep := by
  have hhead : w.head?.map (·.kind) ≠ some .lbrace := by
    intro hl
    obtain ⟨t, ht, hk⟩ := Option.map_eq_some_iff.1 hl
    exact unmarked_of_isProgram hp t (List.mem_of_mem_head? ht) (by simp [hk])
  have hprogram : Program [.expr x] (w ++ [z]) := by
    simpa using Program.statement (.simple (.expr hx) hhead hz) .nil
  have hall : ∀ t ∈ w ++ [z] ++ [e], Readable t := by
    intro t ht
    simp only [List.mem_append, List.mem_singleton] at ht
    rcases ht with (ht | rfl) | rfl
    · exact hread t ht
    · exact Parser.readable_of_kind (by simp [hz])
    · exact Parser.readable_of_kind (by simp [he])
  have hend := ofTokens_end he (valid_semicolon hv hz) (isProgram_semicolon (w := w) (e := e) hz)
  rcases Parser.admits_wholeTree hprogram budget (c := ⟨e, []⟩) he with hok | ⟨s, herror, hs, -⟩
  · rw [hend, hok]
    exact .inl rfl
  · rw [herror] at hend
    obtain ⟨d, rfl, hd⟩ := tooDeep_of_readable he hall hend hs
    exact .inr ⟨d, hend, hd⟩

include he hv hp hz in
theorem expression_of_semicolon {x : Expr}
    (h : ofTokens (w ++ [z] ++ [e]) = .ok (.program [.expr x])) :
    Expression (.tier .or x) w ∧ ∀ t ∈ w, Readable t := by
  have hmark := unmarked_of_isProgram hp
  obtain ⟨c, hread⟩ := wholeTree_of_ofTokens he (valid_semicolon hv hz) (isProgram_semicolon hz) h
  have hended := Cursor.ended_end he (w ++ [z])
  have hkind : ((⟨e, []⟩ : Cursor).back (w ++ [z])).current.kind ∉
      [Token.Kind.keyword, .preprocessor] := by
    cases w with
    | nil => simp [Cursor.back, hz]
    | cons t w =>
      have ht := hmark t (by simp)
      simp only [List.mem_cons, List.not_mem_nil, or_false, not_or] at ht
      simp [Cursor.back, ht]
  obtain ⟨n, hn⟩ : ∃ n, budget = n + 1 := ⟨999, rfl⟩
  rw [hn] at hread
  obtain ⟨c', hexpr, hc'⟩ := Parser.expression_of_wholeTree hkind hread
  -- There is no semicolon but the last, so the expression goes up to that.
  have hsemicolon : ∀ t ∈ w, t.kind ≠ .semicolon := fun t ht hk => hmark t ht (by simp [hk])
  obtain ⟨u, hback, hu⟩ := Parser.yields_expression n .or _ hended x c' hexpr
  obtain ⟨v, hback', hlegible⟩ := Parser.legible_expression n .or _ hended x c' hexpr
  obtain rfl := Cursor.eq_of_back_semicolon he hsemicolon hback hc'
  obtain rfl := Cursor.eq_of_back_semicolon he hsemicolon hback' hc'
  exact ⟨hu, hlegible⟩

end Ended

/-- Tokens that are no program are read as an expression exactly when they are read, with a
semicolon in front of the end mark, as a program that is this expression and nothing else, nesting
limits aside. -/
theorem ofTokens_scan_iff_statement (source : String) (z : Token)
    (hv : ∀ t ∈ Token.scan source, t.kind ≠ .invalid) (hp : isProgram (Token.scan source) = false)
    (hz : z.kind = .semicolon)
    (hshallow : ∀ d, ofTokens (Token.scan source) = .error (.diagnostic d) → d.cause ≠ .tooDeep)
    (hshallow' : ∀ d, ofTokens (Token.insertBeforeEnd z (Token.scan source)) =
      .error (.diagnostic d) → d.cause ≠ .tooDeep)
    (tree : Tree) :
    ofTokens (Token.scan source) = .ok tree ↔
      ∃ x, tree = .expr x ∧
        ofTokens (Token.insertBeforeEnd z (Token.scan source)) = .ok (.program [.expr x]) := by
  obtain ⟨w, e, hscan, he, hw⟩ := Token.scanFrom_eq 0 (Text.trim source.toList)
  have hscan : Token.scan source = w ++ [e] := hscan
  rw [hscan] at hv hp hshallow hshallow' ⊢
  rw [Token.insertBeforeEnd_append hw he] at hshallow' ⊢
  constructor
  · intro htree
    obtain ⟨x, rfl, hx⟩ := expression_of_ofTokens he hw hv hp htree
    rcases ofTokens_semicolon he hv hp hz hx (readable_of_ofTokens he hw hv hp htree) with
      h | ⟨d, h, hd⟩
    · exact ⟨x, rfl, h⟩
    · exact absurd hd (hshallow' d h)
  · rintro ⟨x, rfl, hprogram⟩
    obtain ⟨hx, hread⟩ := expression_of_semicolon he hv hp hz hprogram
    have hall : ∀ t ∈ w ++ [e], Readable t := by
      intro t ht
      rcases List.mem_append.1 ht with ht | ht
      · exact hread t ht
      · exact Parser.readable_of_kind (by simp [List.mem_singleton.1 ht, he])
    rcases ofTokens_of_expression he hv hp hx with h | ⟨s, h, hs⟩
    · exact h
    · obtain ⟨d, rfl, hd⟩ := tooDeep_of_readable he hall h hs
      exact absurd hd (hshallow d h)

def unassigned : String := "x[i + 1] < -f(2,)"

def unassignedTokens : List Token :=
  [⟨.identifier, "x", 0⟩, ⟨.lbracket, "[", 1⟩, ⟨.identifier, "i", 2⟩, ⟨.operator, "+", 4⟩,
    ⟨.number, "1", 6⟩, ⟨.rbracket, "]", 7⟩, ⟨.comparison, "<", 9⟩, ⟨.operator, "-", 11⟩,
    ⟨.identifier, "f", 12⟩, ⟨.lparen, "(", 13⟩, ⟨.number, "2", 14⟩, ⟨.comma, ",", 15⟩,
    ⟨.rparen, ")", 16⟩, ⟨.eof, "", 17⟩]

theorem scan_unassigned : Token.scan unassigned = unassignedTokens := by decide +kernel

def unassignedTree : Expr :=
  .binary .lt (.element "x" (.binary .add (.name "i") (.number (.int 1) 0)))
    (.unary .neg (.call "f" [.number (.int 2) 0]))

theorem ofTokens_unassigned_statement :
    (∀ t ∈ Token.scan unassigned, t.kind ≠ .invalid) ∧ isProgram (Token.scan unassigned) = false ∧
      ofTokens (Token.scan unassigned) = .ok (.expr unassignedTree) ∧
      ofTokens (Token.insertBeforeEnd ⟨.semicolon, ";", 17⟩ (Token.scan unassigned)) =
        .ok (.program [.expr unassignedTree]) := by
  have hread : ofTokens (Token.scan unassigned) = .ok (.expr unassignedTree) := by
    rw [scan_unassigned]
    rfl
  have hprogram : ofTokens (Token.insertBeforeEnd ⟨.semicolon, ";", 17⟩ (Token.scan unassigned)) =
      .ok (.program [.expr unassignedTree]) := by
    rw [scan_unassigned]
    rfl
  have hv : ∀ t ∈ Token.scan unassigned, t.kind ≠ .invalid := by
    rw [scan_unassigned]
    decide
  have hp : isProgram (Token.scan unassigned) = false := by
    rw [scan_unassigned]
    rfl
  obtain ⟨x, hx, hx'⟩ := (ofTokens_scan_iff_statement unassigned ⟨.semicolon, ";", 17⟩ hv hp rfl
    (by simp [hread]) (by simp [hprogram]) (.expr unassignedTree)).1 hread
  cases hx
  exact ⟨hv, hp, hread, hx'⟩

end MiniC.Parse

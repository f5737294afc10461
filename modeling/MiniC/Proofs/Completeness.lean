import MiniC.Proofs.Soundness

/-! What is derived is read: tokens that write a tree in the grammar are read as that tree, unless a
limit is met. A production reads its tokens and stops at the next one; that it stops there and not
later is a matter of which tokens can follow. -/

namespace MiniC.Parse.Parser

open Grammar

section Operators

def rank : Tier → Nat
  | .or => 0
  | .and => 1
  | .equality => 2
  | .relational => 3
  | .additive => 4
  | .multiplicative => 5
  | .power => 6
  | .primary => 7

theorem operator?_eq_some {tier : Tier} {t : Token} {op : BinaryOp}
    (h : tier.operator? t = some op) :
    op ∈ tier.ops ∧ op.symbol = t.text := by
  unfold Tier.operator? at h
  split at h
  · have hs := List.find?_some h
    exact ⟨List.mem_of_find?_eq_some h, of_decide_eq_true hs⟩
  · cases h

def tierOf : BinaryOp → Tier
  | .or => .or
  | .and => .and
  | .eq | .ne => .equality
  | .lt | .gt | .le | .ge => .relational
  | .add | .sub => .additive
  | .mul | .div | .mod => .multiplicative
  | .pow => .power

theorem tierOf_eq {tier : Tier} {op : BinaryOp} (h : op ∈ tier.ops) : tierOf op = tier := by
  have hall : ∀ op ∈ tier.ops, tierOf op = tier := by cases tier <;> decide
  exact hall op h

theorem symbol_injective {op op' : BinaryOp} (h : op.symbol = op'.symbol) : op = op' := by
  have hop := BinaryOp.ofSymbol?_symbol op
  rw [h, BinaryOp.ofSymbol?_symbol] at hop
  exact (Option.some.inj hop).symm

/-- A token that ends an expression of a tier: it is no operator of that tier or a tighter one, and
nothing that goes on behind a name. -/
structure Closes (tier : Tier) (t : Token) : Prop where
  operator? : ∀ tier', rank tier ≤ rank tier' → tier'.operator? t = none
  lbracket : t.kind ≠ .lbracket
  lparen : t.kind ≠ .lparen
  increment : t.kind ≠ .increment
  decrement : t.kind ≠ .decrement

theorem Closes.mono {tier tier' : Tier} {t : Token} (h : Closes tier t)
    (hr : rank tier ≤ rank tier') :
    Closes tier' t :=
  ⟨fun tier'' hle => h.operator? tier'' (Nat.le_trans hr hle), h.lbracket, h.lparen,
    h.increment, h.decrement⟩

theorem Closes.tighter {tier : Tier} {t : Token} (h : Closes tier t) : Closes tier.tighter t :=
  h.mono (by cases tier <;> decide)

/-- An operator ends what stands in the tiers that are tighter than its own. -/
theorem closes_of_operator? {tier tier' : Tier} {t : Token} {op : BinaryOp}
    (h : tier.operator? t = some op) (hr : rank tier < rank tier') : Closes tier' t := by
  have hk : t.kind = tier.kind := kind_of_operator? h
  obtain ⟨hop, hs⟩ := operator?_eq_some h
  have hkind (k : Token.Kind) (hne : ∀ tier : Tier, tier.kind ≠ k) : t.kind ≠ k := by
    rw [hk]
    exact hne tier
  refine ⟨fun tier'' hle => ?_, hkind _ ?_, hkind _ ?_, hkind _ ?_, hkind _ ?_⟩
  -- An operator of another tier would have the same symbol, and the tiers share none.
  · cases ho : tier''.operator? t with
    | none => rfl
    | some op' =>
      obtain ⟨hop', hs'⟩ := operator?_eq_some ho
      rw [symbol_injective (hs'.trans hs.symm)] at hop'
      rw [← tierOf_eq hop, tierOf_eq hop'] at hr
      omega
  all_goals
    intro tier
    cases tier <;> decide

def closers : List Token.Kind := [.rparen, .rbracket, .rbrace, .comma, .semicolon, .colon, .eof]

theorem closes_of_closer {t : Token} {k : Token.Kind} (ht : t.kind = k) (hk : k ∈ closers)
    (tier : Tier) :
    Closes tier t := by
  have hkind (k' : Token.Kind) (hne : k' ∉ closers) : t.kind ≠ k' := by
    rw [ht]
    rintro rfl
    exact hne hk
  refine ⟨fun tier' _ => ?_, hkind _ (by decide), hkind _ (by decide), hkind _ (by decide),
    hkind _ (by decide)⟩
  unfold Tier.operator?
  rw [if_neg (hkind _ (by cases tier' <;> decide))]

end Operators

section Starts

def Starts (t : Token) : Prop := startsExpression t = true ∨ t.kind = .lbrace

def starters : List Token.Kind :=
  [.number, .string, .char, .identifier, .operator, .logical, .increment, .decrement, .ampersand,
    .lparen, .lbrace]

theorem Starts.mem {t : Token} (h : Starts t) : t.kind ∈ starters := by
  rcases h with h | h
  · unfold startsExpression at h
    split at h <;> simp_all [starters]
  · rw [h]
    decide

theorem Starts.kind_ne {t : Token} (h : Starts t) {k : Token.Kind} (hk : k ∉ starters) :
    t.kind ≠ k := by
  rintro rfl
  exact hk h.mem

theorem sign?_cases {t : Token} {make : Expr → Expr} (h : sign? t = some make) :
    (t.kind = .logical ∧ t.text = "!" ∧ make = .unary .not) ∨
    (t.kind = .ampersand ∧ make = .addressOf) ∨
      (t.kind = .operator ∧ ((t.text = "*" ∧ make = .deref) ∨ (t.text = "-" ∧ make = .unary .neg) ∨
        (t.text = "+" ∧ make = .unary .pos))) := by
  unfold sign? at h
  split at h
  · rename_i ht
    cases h
    exact .inl ⟨(Token.is_iff.1 ht).1, (Token.is_iff.1 ht).2, rfl⟩
  split at h
  · rename_i ht
    cases h
    exact .inr (.inl ⟨ht, rfl⟩)
  split at h
  · rename_i ht
    cases h
    exact .inr (.inr ⟨(Token.is_iff.1 ht).1, .inl ⟨(Token.is_iff.1 ht).2, rfl⟩⟩)
  split at h
  · rename_i ht
    cases h
    exact .inr (.inr ⟨(Token.is_iff.1 ht).1, .inr (.inl ⟨(Token.is_iff.1 ht).2, rfl⟩)⟩)
  split at h
  · rename_i ht
    cases h
    exact .inr (.inr ⟨(Token.is_iff.1 ht).1, .inr (.inr ⟨(Token.is_iff.1 ht).2, rfl⟩)⟩)
  · cases h

theorem starts_of_sign? {t : Token} {make : Expr → Expr} (h : sign? t = some make) : Starts t := by
  left
  rcases sign?_cases h with ⟨hk, ht, -⟩ | ⟨hk, -⟩ | ⟨hk, ⟨ht, -⟩ | ⟨ht, -⟩ | ⟨ht, -⟩⟩
  all_goals simp [startsExpression, *]

def HeadOf : Phrase → List Token → Prop
  | .tier _ _, w => ∃ t v, w = t :: v ∧ Starts t
  | .operands tier _ _, w => w = [] ∨ ∃ t v op, w = t :: v ∧ tier.operator? t = some op
  | .list _, _ => True

theorem expression_head {phrase : Phrase} {w : List Token} (h : Expression phrase w) :
    HeadOf phrase w := by
  have hkind {t : Token} {v : List Token} (hs : startsExpression t = true) :
      ∃ t' v', t :: v = t' :: v' ∧ Starts t' :=
    ⟨t, v, rfl, .inl hs⟩
  induction h with
  | chain _ _ _ ih _ =>
    obtain ⟨t, v, rfl, ht⟩ := ih
    exact ⟨t, _, rfl, ht⟩
  | done => exact .inl rfl
  | operand _ ho _ _ _ _ => exact .inr ⟨_, _, _, rfl, ho⟩
  | base _ ih => exact ih
  | power _ _ _ ih _ =>
    obtain ⟨t, v, rfl, ht⟩ := ih
    exact ⟨t, _, rfl, ht⟩
  | number hk => exact hkind (by simp [startsExpression, hk])
  | string hk => exact hkind (by simp [startsExpression, hk])
  | char hk => exact hkind (by simp [startsExpression, hk])
  | name hk => exact hkind (by simp [startsExpression, hk])
  | element hk _ _ _ _ => exact hkind (by simp [startsExpression, hk])
  | call hk _ _ _ _ => exact hkind (by simp [startsExpression, hk])
  | updateAfter hk _ => exact hkind (by simp [startsExpression, hk])
  | updateBefore ht _ => exact hkind (by rcases ht.1 with hk | hk <;> simp [startsExpression, hk])
  | parentheses hk _ _ _ => exact hkind (by simp [startsExpression, hk])
  | signed hs _ _ => exact ⟨_, _, rfl, starts_of_sign? hs⟩
  | braces hk _ _ _ => exact ⟨_, _, rfl, .inr hk⟩
  | nil => trivial
  | last _ _ => trivial
  | cons _ _ _ _ _ => trivial

end Starts

section Expressions

/-- A phrase is read whenever a token follows that ends it, and the tokens counted off are enough.
It is nested too deep only where fewer than `need` productions may be nested in one another. -/
def Complete (need : Nat) : Phrase → List Token → Prop
  | .tier tier e, w =>
    ∀ n c, Closes tier c.current → AdmitsIf (n < need) (expression n tier) (c.back w) e c
  | .operands tier left e, w =>
    ∀ n (fuel : List Token) c, Closes tier c.current → w.length ≤ fuel.length →
      AdmitsIf (n < need) (chainOver tier.operator? (expression n tier.tighter) fuel left)
        (c.back w) e c
  | .list es, w =>
    ∀ n (close : Token.Kind) (fuel : List Token) c, close = .rparen ∨ close = .rbrace →
      c.current.kind = close → w.length ≤ fuel.length →
      AdmitsIf (n < need) (commaListOver close (expression n .or) fuel) (c.back w) es c

variable {need : Nat}

theorem Complete.mono {need' : Nat} {phrase : Phrase} {w : List Token} (h : Complete need phrase w)
    (hn : need ≤ need') : Complete need' phrase w := by
  cases phrase with
  | tier tier e => exact fun n c hc => (h n c hc).mono fun hlt => Nat.lt_of_lt_of_le hlt hn
  | operands tier left e =>
    exact fun n fuel c hc hfuel => (h n fuel c hc hfuel).mono fun hlt => Nat.lt_of_lt_of_le hlt hn
  | list es =>
    exact fun n close fuel c hclose hc hfuel =>
      (h n close fuel c hclose hc hfuel).mono fun hlt => Nat.lt_of_lt_of_le hlt hn

theorem admits_expression {tier : Tier} {c c' : Cursor} {e : Expr}
    (h : ∀ n, AdmitsIf (n < need) (expression (n + 1) tier) c e c') (n : Nat) :
    AdmitsIf (n < need + 1) (expression n tier) c e c' := by
  cases n with
  | zero => exact admits_tooDeep (Nat.succ_pos need) c e c'
  | succ n => exact (h n).mono Nat.succ_lt_succ

theorem length_le_rest_back (c : Cursor) (w : List Token) : w.length ≤ (c.back w).rest.length := by
  cases w with
  | nil => exact Nat.zero_le _
  | cons t w =>
    change (t :: w).length ≤ (w ++ c.tokens).length
    rw [List.length_append, List.length_cons, Cursor.tokens, List.length_cons]
    omega

theorem complete_done {tier : Tier} {e : Expr} : Complete need (.operands tier e e) [] := by
  intro n fuel c hc _
  cases fuel with
  | nil => exact admits_pure e c
  | cons t fuel =>
    refine admits_current ?_
    rw [show tier.operator? (c.back []).current = none from hc.operator? tier (Nat.le_refl _)]
    exact admits_pure e c

theorem closes_operands {tier : Tier} {left e : Expr} {v : List Token} (hl : isLeft tier = true)
    (h : Expression (.operands tier left e) v) {c : Cursor} (hc : Closes tier c.current) :
    Closes tier.tighter (c.back v).current := by
  rcases expression_head h with rfl | ⟨t, v, op, rfl, ho⟩
  · exact hc.tighter
  · have hrank : isLeft tier = true → rank tier < rank tier.tighter := by cases tier <;> decide
    exact closes_of_operator? ho (hrank hl)

theorem complete_operand {tier : Tier} {op : BinaryOp} {t : Token} {left right e : Expr}
    {u v : List Token} (hl : isLeft tier = true) (ho : tier.operator? t = some op)
    (hv : Expression (.operands tier (.binary op left right) e) v)
    (ihu : Complete need (.tier tier.tighter right) u)
    (ihv : Complete need (.operands tier (.binary op left right) e) v) :
    Complete need (.operands tier left e) (t :: (u ++ v)) := by
  intro n fuel c hc hfuel
  cases fuel with
  | nil => simp at hfuel
  | cons t' fuel =>
    simp only [List.length_cons, List.length_append] at hfuel
    refine admits_current ?_
    rw [show tier.operator? (c.back (t :: (u ++ v))).current = some op from ho]
    refine (admits_advance c t (u ++ v)).bind ?_
    rw [Cursor.back_append]
    exact (ihu n (c.back v) (closes_operands hl hv hc)).bind (ihv n fuel c hc (by omega))

theorem complete_chain {tier : Tier} {left e : Expr} {u v : List Token} (hl : isLeft tier = true)
    (hv : Expression (.operands tier left e) v) (ihu : Complete need (.tier tier.tighter left) u)
    (ihv : Complete need (.operands tier left e) v) :
    Complete (need + 1) (.tier tier e) (u ++ v) := by
  intro n c hc
  refine admits_expression (fun n => ?_) n
  have hchain : AdmitsIf (n < need) (chain tier.operator? (expression n tier.tighter))
      (c.back (u ++ v)) e c := by
    rw [Cursor.back_append]
    exact (ihu n (c.back v) (closes_operands hl hv hc)).bind
      (admits_get (ihv n _ c hc (length_le_rest_back c v)))
  cases tier with
  | power => cases hl
  | primary => cases hl
  | _ => exact hchain

theorem complete_base {e : Expr} {w : List Token} (ih : Complete need (.tier .primary e) w) :
    Complete (need + 1) (.tier .power e) w := by
  intro n c hc
  refine admits_expression (fun n => ?_) n
  have hcaret : c.current.is .operator "^" = false := by
    cases h : c.current.is .operator "^" with
    | false => rfl
    | true =>
      have hnone := hc.operator? .power (Nat.le_refl _)
      simp [Tier.operator?, Tier.kind, Tier.ops, BinaryOp.symbol, (Token.is_iff.1 h).1,
        (Token.is_iff.1 h).2] at hnone
  exact (ih n c hc.tighter).bind ((admits_rejectText hcaret).bind (admits_pure e c))

theorem complete_power {t : Token} {left right : Expr} {u v : List Token}
    (ht : t.is .operator "^" = true) (ihu : Complete need (.tier .primary left) u)
    (ihv : Complete need (.tier .power right) v) :
    Complete (need + 1) (.tier .power (.binary .pow left right)) (u ++ t :: v) := by
  intro n c hc
  refine admits_expression (fun n => ?_) n
  have hop : Tier.power.operator? t = some .pow := by
    simp [Tier.operator?, Tier.kind, Tier.ops, BinaryOp.symbol, (Token.is_iff.1 ht).1,
      (Token.is_iff.1 ht).2]
  rw [Cursor.back_append]
  refine (ihu n (c.back (t :: v)) (closes_of_operator? hop (by decide))).bind ?_
  exact (admits_acceptText ht c v).bind ((ihv n c hc).bind (admits_pure _ c))

theorem complete_primary {t : Token} {e : Expr} {w : List Token}
    (h : ∀ (n : Nat) (c : Cursor), Closes .primary c.current →
    AdmitsIf (n < need) (primary (expression n .or) (expression n .primary))
      (c.back (t :: w)) e c) :
    Complete (need + 1) (.tier .primary e) (t :: w) := by
  intro n c hc
  refine admits_expression (fun n => ?_) n
  exact h n c hc

theorem admits_number {deep : Prop} (t : Token) (c : Cursor) :
    AdmitsIf deep (number t) c (literalValue t.text) c := by
  unfold number
  cases h : number? t.text with
  | none => exact .inr ⟨_, rfl, rfl, nofun⟩
  | some n =>
    rw [← number?_eq h]
    exact admits_pure n c

theorem admits_updateOp {deep : Prop} {t : Token} {op : UpdateOp} (ht : Updates t op) (c : Cursor) :
    AdmitsIf deep (updateOp t) c op c := by
  unfold updateOp
  rw [ht.2, UpdateOp.ofSymbol?_symbol]
  exact admits_pure op c

theorem admits_index {n : Nat} {i : Expr} {w : List Token} (ih : Complete need (.tier .or i) w)
    {r : Token} (hr : r.kind = .rbracket) (c : Cursor) (v : List Token) :
    AdmitsIf (n < need) (index (expression n .or)) (c.back (w ++ r :: v)) i (c.back v) := by
  rw [Cursor.back_append]
  have hclose : Closes .or (c.back (r :: v)).current := closes_of_closer hr (by decide) _
  exact (ih n (c.back (r :: v)) hclose).bind ((admits_expect hr _ c v).bind (admits_pure i _))

theorem complete_number {t : Token} (hk : t.kind = .number) :
    Complete (need + 1) (.tier .primary (.number (literalValue t.text) 0)) [t] := by
  refine complete_primary fun n c _ => admits_current ?_
  rw [show (c.back [t]).current.kind = .number from hk]
  exact (admits_advance c t []).bind ((admits_number t c).bind (admits_pure _ c))

theorem complete_string {t : Token} (hk : t.kind = .string) :
    Complete (need + 1) (.tier .primary (.string t.text)) [t] := by
  refine complete_primary fun n c _ => admits_current ?_
  rw [show (c.back [t]).current.kind = .string from hk]
  exact (admits_advance c t []).bind (admits_pure _ c)

theorem complete_char {t : Token} (hk : t.kind = .char) :
    Complete (need + 1) (.tier .primary (.char t.text)) [t] := by
  refine complete_primary fun n c _ => admits_current ?_
  rw [show (c.back [t]).current.kind = .char from hk]
  exact (admits_advance c t []).bind (admits_pure _ c)

theorem complete_named {x : Token} (hx : x.kind = .identifier) {e : Expr} {w : List Token}
    (h : ∀ (n : Nat) (c : Cursor), Closes .primary c.current →
      AdmitsIf (n < need) (named (expression n .or)) (c.back (x :: w)) e c) :
    Complete (need + 1) (.tier .primary e) (x :: w) := by
  refine complete_primary fun n c hc => admits_current ?_
  rw [show (c.back (x :: w)).current.kind = .identifier from hx]
  exact h n c hc

theorem complete_element {x l r : Token} {i : Expr} {w : List Token} (hx : x.kind = .identifier)
    (hl : l.kind = .lbracket) (hr : r.kind = .rbracket) (ih : Complete need (.tier .or i) w) :
    Complete (need + 1) (.tier .primary (.element x.text i)) (x :: l :: (w ++ [r])) := by
  refine complete_named hx fun n c _ => (admits_advance c x _).bind ((admits_accept hl c _).bind ?_)
  exact (admits_index ih hr c []).bind (admits_pure _ c)

theorem complete_call {x l r : Token} {es : List Expr} {w : List Token} (hx : x.kind = .identifier)
    (hl : l.kind = .lparen) (hr : r.kind = .rparen) (ih : Complete need (.list es) w) :
    Complete (need + 1) (.tier .primary (.call x.text es)) (x :: l :: (w ++ [r])) := by
  refine complete_named hx fun n c _ => (admits_advance c x _).bind ?_
  refine (admits_reject (show l.kind ≠ .lbracket by rw [hl]; decide)).bind
    ((admits_accept hl c _).bind ?_)
  rw [Cursor.back_append]
  refine AdmitsIf.bind (admits_get (ih n .rparen _ (c.back [r]) (.inl rfl) hr ?_)) ?_
  · exact length_le_rest_back (c.back [r]) w
  · exact (admits_expect hr _ c []).bind (admits_pure _ c)

theorem complete_updateAfter {x t : Token} {op : UpdateOp} (hx : x.kind = .identifier)
    (ht : Updates t op) :
    Complete (need + 1) (.tier .primary (.update op x.text false)) [x, t] := by
  have hne : t.kind ≠ .lbracket ∧ t.kind ≠ .lparen := by
    rcases ht.1 with h | h <;> rw [h] <;> decide
  refine complete_named hx fun n c _ => (admits_advance c x [t]).bind ?_
  refine (admits_reject (show t.kind ≠ .lbracket from hne.1)).bind ?_
  refine (admits_reject (show t.kind ≠ .lparen from hne.2)).bind (admits_current ?_)
  have hu : (c.back [t]).current.kind = .increment ∨ (c.back [t]).current.kind = .decrement := ht.1
  rw [if_pos (by simpa using hu)]
  exact (admits_advance c t []).bind ((admits_updateOp ht c).bind (admits_pure _ c))

theorem complete_name {x : Token} (hx : x.kind = .identifier) :
    Complete (need + 1) (.tier .primary (.name x.text)) [x] := by
  refine complete_named hx fun n c hc => (admits_advance c x []).bind ?_
  refine (admits_reject hc.lbracket).bind ((admits_reject hc.lparen).bind (admits_current ?_))
  rw [if_neg (by simpa using ⟨hc.increment, hc.decrement⟩)]
  exact admits_pure _ c

theorem complete_updateBefore {x t : Token} {op : UpdateOp} (ht : Updates t op)
    (hx : x.kind = .identifier) :
    Complete (need + 1) (.tier .primary (.update op x.text true)) [t, x] := by
  have hupdated {deep : Prop} (c : Cursor) : AdmitsIf deep updated (c.back [t, x])
      (.update op x.text true) c :=
    (admits_advance c t [x]).bind
      ((admits_expect hx _ c []).bind ((admits_updateOp ht c).bind (admits_pure _ c)))
  refine complete_primary fun n c _ => admits_current ?_
  rcases ht.1 with hk | hk
  · rw [show (c.back [t, x]).current.kind = .increment from hk]
    exact hupdated c
  · rw [show (c.back [t, x]).current.kind = .decrement from hk]
    exact hupdated c

theorem complete_parentheses {l r : Token} {e : Expr} {w : List Token} (hl : l.kind = .lparen)
    (hr : r.kind = .rparen) (ih : Complete need (.tier .or e) w) :
    Complete (need + 1) (.tier .primary e) (l :: (w ++ [r])) := by
  refine complete_primary fun n c _ => admits_current ?_
  rw [show (c.back (l :: (w ++ [r]))).current.kind = .lparen from hl]
  refine (admits_advance c l _).bind ?_
  rw [Cursor.back_append]
  have hclose : Closes .or (c.back [r]).current := closes_of_closer hr (by decide) _
  refine (ih n (c.back [r]) hclose).bind (admits_current ?_)
  rw [if_pos (show (c.back [r]).current.kind = .rparen from hr)]
  exact (admits_advance c r []).bind (admits_pure e c)

theorem complete_signed {t : Token} {make : Expr → Expr} {e : Expr} {w : List Token}
    (hs : sign? t = some make) (ih : Complete need (.tier .primary e) w) :
    Complete (need + 1) (.tier .primary (make e)) (t :: w) := by
  have hsigned (n : Nat) {c : Cursor} (hc : Closes .primary c.current) :
      AdmitsIf (n < need) (signed make (expression n .primary)) (c.back (t :: w)) (make e) c :=
    (admits_advance c t w).bind ((ih n c hc).bind (admits_pure _ c))
  refine complete_primary fun n c hc => admits_current ?_
  rcases sign?_cases hs with ⟨hk, ht, rfl⟩ | ⟨hk, rfl⟩ | ⟨hk, hop⟩
  · rw [show (c.back (t :: w)).current.kind = .logical from hk]
    dsimp only
    rw [if_pos (show (c.back (t :: w)).current.text = "!" from ht)]
    exact hsigned n hc
  · rw [show (c.back (t :: w)).current.kind = .ampersand from hk]
    exact hsigned n hc
  · rw [show (c.back (t :: w)).current.kind = .operator from hk]
    change AdmitsIf (n < need) (operatorExpr t.text _) _ _ _
    rcases hop with ⟨ht, rfl⟩ | ⟨ht, rfl⟩ | ⟨ht, rfl⟩
    all_goals
      rw [ht]
      exact hsigned n hc

theorem complete_braces {l r : Token} {es : List Expr} {w : List Token} (hl : l.kind = .lbrace)
    (hr : r.kind = .rbrace) (ih : Complete need (.list es) w) :
    Complete (need + 1) (.tier .primary (.braces es)) (l :: (w ++ [r])) := by
  refine complete_primary fun n c _ => admits_current ?_
  rw [show (c.back (l :: (w ++ [r]))).current.kind = .lbrace from hl]
  refine (admits_advance c l _).bind ?_
  rw [Cursor.back_append]
  refine AdmitsIf.bind (admits_get (ih n .rbrace _ (c.back [r]) (.inr rfl) hr ?_)) ?_
  · exact length_le_rest_back (c.back [r]) w
  · exact (admits_expect hr _ c []).bind (admits_pure _ c)

theorem complete_nil : Complete need (.list []) [] := by
  intro n close fuel c _ hc _
  cases fuel with
  | nil => exact admits_pure [] c
  | cons t fuel =>
    refine admits_current ?_
    rw [if_pos (by simpa using .inl hc)]
    exact admits_pure [] c

theorem item_head {e : Expr} {w : List Token} (h : Expression (.tier .or e) w) (c : Cursor)
    {close : Token.Kind} (hclose : close = .rparen ∨ close = .rbrace) :
    ¬(((c.back w).current.kind = close || (c.back w).current.kind = .eof : Bool) = true) := by
  obtain ⟨t, w, rfl, ht⟩ := expression_head h
  change ¬((t.kind = close || t.kind = .eof : Bool) = true)
  have hne : t.kind ≠ close := by rcases hclose with rfl | rfl <;> exact ht.kind_ne (by decide)
  simpa using ⟨hne, ht.kind_ne (by decide)⟩

theorem complete_last {e : Expr} {w : List Token} (h : Expression (.tier .or e) w)
    (ih : Complete need (.tier .or e) w) : Complete need (.list [e]) w := by
  intro n close fuel c hclose hc hfuel
  have hcl : close ∈ closers ∧ close ≠ .comma := by rcases hclose with rfl | rfl <;> decide
  have hcomma : c.current.kind ≠ .comma := by rw [hc]; exact hcl.2
  cases fuel with
  | nil =>
    obtain ⟨t, w, rfl, -⟩ := expression_head h
    simp at hfuel
  | cons t fuel =>
    refine admits_current ?_
    rw [if_neg (item_head h c hclose)]
    exact (ih n c (closes_of_closer hc hcl.1 _)).bind
      ((admits_reject hcomma).bind (admits_pure [e] c))

theorem complete_cons {t : Token} {e : Expr} {es : List Expr} {u v : List Token}
    (h : Expression (.tier .or e) u) (ht : t.kind = .comma) (ihu : Complete need (.tier .or e) u)
    (ihv : Complete need (.list es) v) :
    Complete need (.list (e :: es)) (u ++ t :: v) := by
  intro n close fuel c hclose hc hfuel
  rw [List.length_append, List.length_cons] at hfuel
  cases fuel with
  | nil => simp at hfuel
  | cons t' fuel =>
    rw [List.length_cons] at hfuel
    rw [Cursor.back_append]
    refine admits_current ?_
    rw [if_neg (item_head h _ hclose)]
    have hcomma : Closes .or (c.back (t :: v)).current := closes_of_closer ht (by decide) _
    refine (ihu n (c.back (t :: v)) hcomma).bind ((admits_accept ht c v).bind ?_)
    exact (ihv n close fuel c hclose hc (by omega)).bind (admits_pure (e :: es) c)

theorem complete_both {phrase phrase' : Phrase} {u v : List Token}
    (hu : ∃ need, Complete need phrase u) (hv : ∃ need, Complete need phrase' v) :
    ∃ need, Complete need phrase u ∧ Complete need phrase' v := by
  obtain ⟨a, hu⟩ := hu
  obtain ⟨b, hv⟩ := hv
  exact ⟨max a b, hu.mono (Nat.le_max_left a b), hv.mono (Nat.le_max_right a b)⟩

/-- For whatever is derived there is a number of nested productions that is enough to read it. -/
theorem exists_complete {phrase : Phrase} {w : List Token} (h : Expression phrase w) :
    ∃ need, Complete need phrase w := by
  induction h with
  | chain hl _ hv ihu ihv =>
    obtain ⟨need, ihu, ihv⟩ := complete_both ihu ihv
    exact ⟨need + 1, complete_chain hl hv ihu ihv⟩
  | done => exact ⟨0, complete_done⟩
  | operand hl ho _ hv ihu ihv =>
    obtain ⟨need, ihu, ihv⟩ := complete_both ihu ihv
    exact ⟨need, complete_operand hl ho hv ihu ihv⟩
  | base _ ih => exact ih.imp' (· + 1) fun _ ih => complete_base ih
  | power _ ht _ ihu ihv =>
    obtain ⟨need, ihu, ihv⟩ := complete_both ihu ihv
    exact ⟨need + 1, complete_power ht ihu ihv⟩
  | number hk => exact ⟨1, complete_number hk⟩
  | string hk => exact ⟨1, complete_string hk⟩
  | char hk => exact ⟨1, complete_char hk⟩
  | name hx => exact ⟨1, complete_name hx⟩
  | element hx hl _ hr ih => exact ih.imp' (· + 1) fun _ ih => complete_element hx hl hr ih
  | call hx hl _ hr ih => exact ih.imp' (· + 1) fun _ ih => complete_call hx hl hr ih
  | updateAfter hx ht => exact ⟨1, complete_updateAfter hx ht⟩
  | updateBefore ht hx => exact ⟨1, complete_updateBefore ht hx⟩
  | parentheses hl _ hr ih => exact ih.imp' (· + 1) fun _ ih => complete_parentheses hl hr ih
  | signed hs _ ih => exact ih.imp' (· + 1) fun _ ih => complete_signed hs ih
  | braces hl _ hr ih => exact ih.imp' (· + 1) fun _ ih => complete_braces hl hr ih
  | nil => exact ⟨0, complete_nil⟩
  | last h ih => exact ih.imp fun _ ih => complete_last h ih
  | cons h ht _ ihu ihv =>
    obtain ⟨need, ihu, ihv⟩ := complete_both ihu ihv
    exact ⟨need, complete_cons h ht ihu ihv⟩

theorem expression_complete {tier : Tier} {e : Expr} {w : List Token}
    (h : Expression (.tier tier e) w) (n : Nat) (c : Cursor) (hc : Closes tier c.current) :
    Admits (expression n tier) (c.back w) e c := by
  obtain ⟨need, hneed⟩ := exists_complete h
  exact (hneed n c hc).mono fun _ => trivial

end Expressions

end MiniC.Parse.Parser

import MiniC.Proofs.Completeness

/-! The grammar of expressions is unambiguous. Of two derivations that begin at one token, each
followed by something that ends it, both write the same tree and stop at the same place. What a
primary is follows from its first token; where the operands of a tier end, from the token behind
them. -/

namespace MiniC.Parse.Parser

open Grammar

inductive Suffix (x : String) : Expr → List Token → Prop
  | none : Suffix x (.name x) []
  | index {l r : Token} {i : Expr} {w : List Token} :
      l.kind = .lbracket → Expression (.tier .or i) w →
      r.kind = .rbracket → Suffix x (.element x i) (l :: (w ++ [r]))
  | arguments {l r : Token} {es : List Expr} {w : List Token} :
      l.kind = .lparen → Expression (.list es) w →
      r.kind = .rparen → Suffix x (.call x es) (l :: (w ++ [r]))
  | update {t : Token} {op : UpdateOp} : Updates t op → Suffix x (.update op x false) [t]

def Primary (t : Token) (e : Expr) (w : List Token) : Prop :=
  match t.kind with
  | .number => e = .number (literalValue t.text) 0 ∧ w = []
  | .string => e = .string t.text ∧ w = []
  | .char => e = .char t.text ∧ w = []
  | .identifier => Suffix t.text e w
  | .increment | .decrement => ∃ op x, t.text = op.symbol ∧ e = .update op x.text true ∧ w = [x]
  | .lparen => ∃ v r, Expression (.tier .or e) v ∧ r.kind = .rparen ∧ w = v ++ [r]
  | .lbrace => ∃ es v r, e = .braces es ∧ Expression (.list es) v ∧ r.kind = .rbrace ∧ w = v ++ [r]
  | _ =>
    ∃ make operand, sign? t = some make ∧ e = make operand ∧ Expression (.tier .primary operand) w

theorem primary_cases {e : Expr} {w : List Token} (h : Expression (.tier .primary e) w) :
    ∃ t v, w = t :: v ∧ Primary t e v := by
  cases h with
  | chain hl _ _ => cases hl
  | number hk => exact ⟨_, _, rfl, by simp [Primary, hk]⟩
  | string hk => exact ⟨_, _, rfl, by simp [Primary, hk]⟩
  | char hk => exact ⟨_, _, rfl, by simp [Primary, hk]⟩
  | name hk => exact ⟨_, _, rfl, by simp only [Primary, hk]; exact .none⟩
  | element hk hl hi hr => exact ⟨_, _, rfl, by simp only [Primary, hk]; exact .index hl hi hr⟩
  | call hk hl hes hr => exact ⟨_, _, rfl, by simp only [Primary, hk]; exact .arguments hl hes hr⟩
  | updateAfter hk ht => exact ⟨_, _, rfl, by simp only [Primary, hk]; exact .update ht⟩
  | updateBefore ht _ =>
    rcases ht.1 with hk | hk
    · exact ⟨_, _, rfl, by simp only [Primary, hk]; exact ⟨_, _, ht.2, rfl, rfl⟩⟩
    · exact ⟨_, _, rfl, by simp only [Primary, hk]; exact ⟨_, _, ht.2, rfl, rfl⟩⟩
  | parentheses hk he hr => exact ⟨_, _, rfl, by simp only [Primary, hk]; exact ⟨_, _, he, hr, rfl⟩⟩
  | braces hk hes hr =>
    exact ⟨_, _, rfl, by simp only [Primary, hk]; exact ⟨_, _, _, rfl, hes, hr, rfl⟩⟩
  | signed hs he =>
    rcases sign?_cases hs with ⟨hk, -, -⟩ | ⟨hk, -⟩ | ⟨hk, -⟩
    · exact ⟨_, _, rfl, by simp only [Primary, hk]; exact ⟨_, _, hs, rfl, he⟩⟩
    · exact ⟨_, _, rfl, by simp only [Primary, hk]; exact ⟨_, _, hs, rfl, he⟩⟩
    · exact ⟨_, _, rfl, by simp only [Primary, hk]; exact ⟨_, _, hs, rfl, he⟩⟩

theorem chain_cases {tier : Tier} (hl : isLeft tier = true) {e : Expr} {w : List Token}
    (h : Expression (.tier tier e) w) :
    ∃ left u v, Expression (.tier tier.tighter left) u ∧ Expression (.operands tier left e) v ∧
    w = u ++ v := by
  cases h with
  | chain _ hu hv => exact ⟨_, _, _, hu, hv, rfl⟩
  | _ => cases hl

theorem power_cases {e : Expr} {w : List Token} (h : Expression (.tier .power e) w) :
    Expression (.tier .primary e) w ∨ ∃ left right t u v, Expression (.tier .primary left) u ∧
      t.is .operator "^" = true ∧ Expression (.tier .power right) v ∧ e = .binary .pow left right ∧
      w = u ++ t :: v := by
  cases h with
  | chain hl _ _ => cases hl
  | base h => exact .inl h
  | power hu ht hv => exact .inr ⟨_, _, _, _, _, hu, ht, hv, rfl, rfl⟩

theorem list_cases {es : List Expr} {w : List Token} (h : Expression (.list es) w) :
    (es = [] ∧ w = []) ∨ (∃ e, es = [e] ∧ Expression (.tier .or e) w) ∨
      ∃ e es' t u v, es = e :: es' ∧ Expression (.tier .or e) u ∧ t.kind = .comma ∧
      Expression (.list es') v ∧
        w = u ++ t :: v := by
  cases h with
  | nil => exact .inl ⟨rfl, rfl⟩
  | last h => exact .inr (.inl ⟨_, rfl, h⟩)
  | cons h ht hs => exact .inr (.inr ⟨_, _, _, _, _, rfl, h, ht, hs, rfl⟩)

theorem back_cons_inj {c c' : Cursor} {t t' : Token} {w w' : List Token}
    (h : c.back (t :: w) = c'.back (t' :: w')) : t = t' ∧ c.back w = c'.back w' := by
  have hnext : (c.back (t :: w)).next = (c'.back (t' :: w')).next := by rw [h]
  rw [Cursor.next_back, Cursor.next_back] at hnext
  exact ⟨congrArg Cursor.current h, hnext⟩

def EndsList (t : Token) : Prop := t.kind = .rparen ∨ t.kind = .rbrace

theorem EndsList.closes {t : Token} (h : EndsList t) (tier : Tier) : Closes tier t := by
  rcases h with h | h
  · exact closes_of_closer h (by decide) tier
  · exact closes_of_closer h (by decide) tier

/-- Tokens followed by an end write one thing only, up to one place: so does whatever else begins
where they begin and is followed by an end. -/
def Pins {α : Type} (R : α → List Token → Prop) (Ends : Token → Prop) (x : α) (w : List Token) :
    Prop :=
  ∀ (x' : α) (w' : List Token) (c c' : Cursor), R x' w' → Ends c.current → Ends c'.current →
    c.back w = c'.back w' → x = x' ∧ c = c'

def Decides : Phrase → List Token → Prop
  | .tier tier e, w => Pins (fun e w => Expression (.tier tier e) w) (Closes tier) e w
  | .operands tier left e, w =>
    Pins (fun e w => Expression (.operands tier left e) w) (Closes tier) e w
  | .list es, w => Pins (fun es w => Expression (.list es) w) EndsList es w

section Tiers

theorem decides_chain {tier : Tier} {left e : Expr} {u v : List Token} (hl : isLeft tier = true)
    (hv : Expression (.operands tier left e) v) (ihu : Decides (.tier tier.tighter left) u)
    (ihv : Decides (.operands tier left e) v) : Decides (.tier tier e) (u ++ v) := by
  intro e' w' c c' h' hc hc' hb
  obtain ⟨left', u', v', hu', hv', rfl⟩ := chain_cases hl h'
  rw [Cursor.back_append, Cursor.back_append] at hb
  obtain ⟨rfl, hb⟩ := ihu _ _ _ _ hu' (closes_operands hl hv hc) (closes_operands hl hv' hc') hb
  exact ihv _ _ _ _ hv' hc hc' hb

theorem decides_done {tier : Tier} {e : Expr} : Decides (.operands tier e e) [] := by
  intro e' w' c c' h' hc hc' hb
  cases h' with
  | done => exact ⟨rfl, hb⟩
  | @operand _ _ t _ _ _ _ _ _ ho _ _ =>
    have ht : c.current = t := congrArg Cursor.current hb
    have hnone := hc.operator? tier (Nat.le_refl _)
    rw [ht, ho] at hnone
    cases hnone

theorem decides_operand {tier : Tier} {op : BinaryOp} {t : Token} {left right e : Expr}
    {u v : List Token} (hl : isLeft tier = true) (ho : tier.operator? t = some op)
    (hv : Expression (.operands tier (.binary op left right) e) v)
    (ihu : Decides (.tier tier.tighter right) u)
    (ihv : Decides (.operands tier (.binary op left right) e) v) :
    Decides (.operands tier left e) (t :: (u ++ v)) := by
  intro e' w' c c' h' hc hc' hb
  cases h' with
  | done =>
    have ht : t = c'.current := congrArg Cursor.current hb
    have hnone := hc'.operator? tier (Nat.le_refl _)
    rw [← ht, ho] at hnone
    cases hnone
  | @operand _ op' t' _ right' _ u' v' _ ho' hu' hv' =>
    obtain ⟨rfl, hnext⟩ := back_cons_inj hb
    obtain rfl : op = op' := Option.some.inj (ho.symm.trans ho')
    rw [Cursor.back_append, Cursor.back_append] at hnext
    obtain ⟨rfl, hb⟩ := ihu _ _ _ _ hu' (closes_operands hl hv hc)
      (closes_operands hl hv' hc') hnext
    exact ihv _ _ _ _ hv' hc hc' hb

theorem power_operator? {t : Token} (ht : t.is .operator "^" = true) :
    Tier.power.operator? t = some .pow := by
  simp [Tier.operator?, Tier.kind, Tier.ops, BinaryOp.symbol, (Token.is_iff.1 ht).1,
    (Token.is_iff.1 ht).2]

theorem not_caret {t : Token} (h : Closes .power t) : ¬t.is .operator "^" = true := by
  intro ht
  have hnone := h.operator? .power (Nat.le_refl _)
  rw [power_operator? ht] at hnone
  cases hnone

theorem decides_base {e : Expr} {w : List Token} (ih : Decides (.tier .primary e) w) :
    Decides (.tier .power e) w := by
  intro e' w' c c' h' hc hc' hb
  rcases power_cases h' with h' | ⟨left, right, t, u, v, hu, ht, hv, rfl, rfl⟩
  · exact ih _ _ _ _ h' hc.tighter hc'.tighter hb
  · rw [Cursor.back_append] at hb
    obtain ⟨-, rfl⟩ :=
      ih _ _ _ _ hu hc.tighter (closes_of_operator? (power_operator? ht) (by decide)) hb
    exact absurd ht (not_caret hc)

theorem decides_power {t : Token} {left right : Expr} {u v : List Token}
    (ht : t.is .operator "^" = true) (ihu : Decides (.tier .primary left) u)
    (ihv : Decides (.tier .power right) v) :
    Decides (.tier .power (.binary .pow left right)) (u ++ t :: v) := by
  intro e' w' c c' h' hc hc' hb
  have hcaret {t : Token} (ht : t.is .operator "^" = true) : Closes .primary t :=
    closes_of_operator? (power_operator? ht) (by decide)
  rw [Cursor.back_append] at hb
  rcases power_cases h' with h' | ⟨left', right', t', u', v', hu', ht', hv', rfl, rfl⟩
  · obtain ⟨-, rfl⟩ := ihu _ _ _ _ h' (hcaret ht) hc'.tighter hb
    exact absurd ht (not_caret hc')
  · rw [Cursor.back_append] at hb
    obtain ⟨rfl, hb⟩ := ihu _ _ _ _ hu' (hcaret ht) (hcaret ht') hb
    obtain ⟨-, hb⟩ := back_cons_inj hb
    obtain ⟨rfl, rfl⟩ := ihv _ _ _ _ hv' hc hc' hb
    exact ⟨rfl, rfl⟩

end Tiers

section Primaries

theorem decides_primary {t : Token} {e : Expr} {w : List Token}
    (h : Pins (Primary t) (Closes .primary) e w) : Decides (.tier .primary e) (t :: w) := by
  intro e' w' c c' h' hc hc' hb
  obtain ⟨t', v, rfl, hp⟩ := primary_cases h'
  obtain ⟨rfl, hnext⟩ := back_cons_inj hb
  exact h _ _ _ _ hp hc hc' hnext

theorem decides_literal {t : Token} {e : Expr} (h : ∀ e' w', Primary t e' w' → e' = e ∧ w' = []) :
    Decides (.tier .primary e) [t] := by
  apply decides_primary
  intro e' w' c c' hp _ _ hb
  obtain ⟨rfl, rfl⟩ := h e' w' hp
  exact ⟨rfl, hb⟩

theorem decides_named {x : Token} (hx : x.kind = .identifier) {e : Expr} {w : List Token}
    (h : Pins (Suffix x.text) (Closes .primary) e w) : Decides (.tier .primary e) (x :: w) := by
  apply decides_primary
  intro e' w' c c' hp hc hc' hb
  simp only [Primary, hx] at hp
  exact h _ _ _ _ hp hc hc' hb

theorem decides_name {x : Token} (hx : x.kind = .identifier) :
    Decides (.tier .primary (.name x.text)) [x] := by
  apply decides_named hx
  intro e' w' c c' hp hc hc' hb
  have hcurrent : c.current = (c'.back w').current := congrArg Cursor.current hb
  cases hp with
  | none => exact ⟨rfl, hb⟩
  | index hl _ _ => exact absurd (hcurrent ▸ hl) hc.lbracket
  | arguments hl _ _ => exact absurd (hcurrent ▸ hl) hc.lparen
  | update ht =>
    rcases ht.1 with hk | hk
    · exact absurd (hcurrent ▸ hk) hc.increment
    · exact absurd (hcurrent ▸ hk) hc.decrement

/-- Behind a name stands a token of a kind that only one suffix begins with. -/
theorem suffix_cases {x : String} {e : Expr} {t : Token} {w w' : List Token} {c c' : Cursor}
    (hp : Suffix x e w') (hc' : Closes .primary c'.current) (hb : c.back (t :: w) = c'.back w')
    (ht : t.kind = .lbracket ∨ t.kind = .lparen ∨ t.kind = .increment ∨ t.kind = .decrement) :
    (∃ v i r, t.kind = .lbracket ∧ Expression (.tier .or i) v ∧ r.kind = .rbracket ∧
      e = .element x i ∧
      c.back w = c'.back (v ++ [r])) ∨
    (∃ v es r, t.kind = .lparen ∧ Expression (.list es) v ∧ r.kind = .rparen ∧ e = .call x es ∧
      c.back w = c'.back (v ++ [r])) ∨
    ∃ op, Updates t op ∧ e = .update op x false ∧ c.back w = c' := by
  cases hp with
  | none =>
    have hcurrent : t = c'.current := congrArg Cursor.current hb
    rw [hcurrent] at ht
    rcases ht with ht | ht | ht | ht
    · exact absurd ht hc'.lbracket
    · exact absurd ht hc'.lparen
    · exact absurd ht hc'.increment
    · exact absurd ht hc'.decrement
  | index hl hi hr =>
    obtain ⟨rfl, hnext⟩ := back_cons_inj hb
    exact .inl ⟨_, _, _, hl, hi, hr, rfl, hnext⟩
  | arguments hl hes hr =>
    obtain ⟨rfl, hnext⟩ := back_cons_inj hb
    exact .inr (.inl ⟨_, _, _, hl, hes, hr, rfl, hnext⟩)
  | update hu =>
    obtain ⟨rfl, hnext⟩ := back_cons_inj hb
    exact .inr (.inr ⟨_, hu, rfl, hnext⟩)

theorem decides_element {x l r : Token} {i : Expr} {w : List Token} (hx : x.kind = .identifier)
    (hl : l.kind = .lbracket) (hr : r.kind = .rbracket) (ih : Decides (.tier .or i) w) :
    Decides (.tier .primary (.element x.text i)) (x :: l :: (w ++ [r])) := by
  apply decides_named hx
  intro e' w' c c' hp hc hc' hb
  rcases suffix_cases hp hc' hb (.inl hl) with
    ⟨v, i', r', -, hi', hr', rfl, hb⟩ | ⟨_, _, _, hk, -⟩ | ⟨_, hu, -⟩
  · rw [Cursor.back_append, Cursor.back_append] at hb
    obtain ⟨rfl, hb⟩ := ih _ _ _ _ hi' (closes_of_closer hr (by decide) _)
      (closes_of_closer hr' (by decide) _) hb
    exact ⟨rfl, (back_cons_inj hb).2⟩
  · rw [hl] at hk
    cases hk
  · rw [Updates, hl] at hu
    simp at hu

theorem decides_call {x l r : Token} {es : List Expr} {w : List Token} (hx : x.kind = .identifier)
    (hl : l.kind = .lparen) (hr : r.kind = .rparen) (ih : Decides (.list es) w) :
    Decides (.tier .primary (.call x.text es)) (x :: l :: (w ++ [r])) := by
  apply decides_named hx
  intro e' w' c c' hp hc hc' hb
  rcases suffix_cases hp hc' hb (.inr (.inl hl)) with
    ⟨_, _, _, hk, -⟩ | ⟨v, es', r', -, hes', hr', rfl, hb⟩ | ⟨_, hu, -⟩
  · rw [hl] at hk
    cases hk
  · rw [Cursor.back_append, Cursor.back_append] at hb
    obtain ⟨rfl, hb⟩ := ih _ _ _ _ hes' (.inl hr) (.inl hr') hb
    exact ⟨rfl, (back_cons_inj hb).2⟩
  · rw [Updates, hl] at hu
    simp at hu

theorem symbol_update_injective {op op' : UpdateOp} (h : op.symbol = op'.symbol) : op = op' := by
  have hop := UpdateOp.ofSymbol?_symbol op
  rw [h, UpdateOp.ofSymbol?_symbol] at hop
  exact (Option.some.inj hop).symm

theorem decides_updateAfter {x t : Token} {op : UpdateOp} (hx : x.kind = .identifier)
    (ht : Updates t op) :
    Decides (.tier .primary (.update op x.text false)) [x, t] := by
  apply decides_named hx
  intro e' w' c c' hp hc hc' hb
  rcases suffix_cases hp hc' hb (.inr (.inr ht.1)) with ⟨_, _, _, hk, -⟩ | ⟨_, _, _, hk,
    -⟩ | ⟨op', hu, rfl, hb⟩
  · rw [Updates, hk] at ht
    simp at ht
  · rw [Updates, hk] at ht
    simp at ht
  · obtain rfl := symbol_update_injective (ht.2.symm.trans hu.2)
    exact ⟨rfl, hb⟩

theorem decides_updateBefore {x t : Token} {op : UpdateOp} (ht : Updates t op) :
    Decides (.tier .primary (.update op x.text true)) [t, x] := by
  apply decides_primary
  intro e' w' c c' hp hc hc' hb
  have hp : ∃ op' x', t.text = op'.symbol ∧ e' = .update op' x'.text true ∧ w' = [x'] := by
    rcases ht.1 with hk | hk
    · simpa only [Primary, hk] using hp
    · simpa only [Primary, hk] using hp
  obtain ⟨op', x', hs, rfl, rfl⟩ := hp
  obtain rfl := symbol_update_injective (ht.2.symm.trans hs)
  obtain ⟨rfl, hnext⟩ := back_cons_inj hb
  exact ⟨rfl, hnext⟩

theorem decides_parentheses {l r : Token} {e : Expr} {w : List Token} (hl : l.kind = .lparen)
    (hr : r.kind = .rparen) (ih : Decides (.tier .or e) w) :
    Decides (.tier .primary e) (l :: (w ++ [r])) := by
  apply decides_primary
  intro e' w' c c' hp hc hc' hb
  simp only [Primary, hl] at hp
  obtain ⟨v, r', he', hr', rfl⟩ := hp
  rw [Cursor.back_append, Cursor.back_append] at hb
  obtain ⟨rfl, hb⟩ := ih _ _ _ _ he' (closes_of_closer hr (by decide) _)
    (closes_of_closer hr' (by decide) _) hb
  exact ⟨rfl, (back_cons_inj hb).2⟩

theorem decides_braces {l r : Token} {es : List Expr} {w : List Token} (hl : l.kind = .lbrace)
    (hr : r.kind = .rbrace) (ih : Decides (.list es) w) :
    Decides (.tier .primary (.braces es)) (l :: (w ++ [r])) := by
  apply decides_primary
  intro e' w' c c' hp hc hc' hb
  simp only [Primary, hl] at hp
  obtain ⟨es', v, r', rfl, hes', hr', rfl⟩ := hp
  rw [Cursor.back_append, Cursor.back_append] at hb
  obtain ⟨rfl, hb⟩ := ih _ _ _ _ hes' (.inr hr) (.inr hr') hb
  exact ⟨rfl, (back_cons_inj hb).2⟩

theorem decides_signed {t : Token} {make : Expr → Expr} {e : Expr} {w : List Token}
    (hs : sign? t = some make) (ih : Decides (.tier .primary e) w) :
    Decides (.tier .primary (make e)) (t :: w) := by
  apply decides_primary
  intro e' w' c c' hp hc hc' hb
  have hp : ∃ make' operand, sign? t = some make' ∧ e' = make' operand ∧
      Expression (.tier .primary operand) w' := by
    rcases sign?_cases hs with ⟨hk, -, -⟩ | ⟨hk, -⟩ | ⟨hk, -⟩
    · simpa only [Primary, hk] using hp
    · simpa only [Primary, hk] using hp
    · simpa only [Primary, hk] using hp
  obtain ⟨make', operand, hs', rfl, ho⟩ := hp
  obtain rfl : make = make' := Option.some.inj (hs.symm.trans hs')
  obtain ⟨rfl, hb⟩ := ih _ _ _ _ ho hc hc' hb
  exact ⟨rfl, hb⟩

end Primaries

section Lists

theorem not_endsList_item {e : Expr} {w : List Token} (h : Expression (.tier .or e) w)
    (c : Cursor) :
    ¬EndsList (c.back w).current := by
  obtain ⟨t, v, rfl, ht⟩ := expression_head h
  rintro (hk | hk)
  · exact ht.kind_ne (by decide) hk
  · exact ht.kind_ne (by decide) hk

theorem not_endsList_comma {t : Token} (ht : t.kind = .comma) : ¬EndsList t := by
  simp [EndsList, ht]

theorem decides_nil : Decides (.list []) [] := by
  intro es' w' c c' h' hc hc' hb
  have hb : c = c'.back w' := hb
  rcases list_cases h' with ⟨rfl, rfl⟩ | ⟨e, rfl, he⟩ | ⟨e, es, t, u, v, rfl, hu, ht, hv, rfl⟩
  · exact ⟨rfl, hb⟩
  · rw [hb] at hc
    exact absurd hc (not_endsList_item he c')
  · rw [hb, Cursor.back_append] at hc
    exact absurd hc (not_endsList_item hu _)

theorem decides_last {e : Expr} {w : List Token} (h : Expression (.tier .or e) w)
    (ih : Decides (.tier .or e) w) :
    Decides (.list [e]) w := by
  intro es' w' c c' h' hc hc' hb
  rcases list_cases h' with ⟨rfl, rfl⟩ | ⟨e', rfl, he'⟩ | ⟨e', es, t, u, v, rfl, hu, ht, hv, rfl⟩
  · have hb : c.back w = c' := hb
    rw [← hb] at hc'
    exact absurd hc' (not_endsList_item h c)
  · obtain ⟨rfl, hb⟩ := ih _ _ _ _ he' (hc.closes _) (hc'.closes _) hb
    exact ⟨rfl, hb⟩
  · rw [Cursor.back_append] at hb
    obtain ⟨-, rfl⟩ := ih _ _ _ _ hu (hc.closes _) (closes_of_closer ht (by decide) _) hb
    exact absurd hc (not_endsList_comma ht)

theorem decides_cons {t : Token} {e : Expr} {es : List Expr} {u v : List Token}
    (h : Expression (.tier .or e) u) (ht : t.kind = .comma) (ihu : Decides (.tier .or e) u)
    (ihv : Decides (.list es) v) :
    Decides (.list (e :: es)) (u ++ t :: v) := by
  intro es' w' c c' h' hc hc' hb
  have hcomma {t : Token} (ht : t.kind = .comma) : Closes .or t := closes_of_closer ht (by decide) _
  rw [Cursor.back_append] at hb
  rcases list_cases h' with
    ⟨rfl, rfl⟩ | ⟨e', rfl, he'⟩ | ⟨e', es', t', u', v', rfl, hu', ht', hv', rfl⟩
  · have hb : (c.back (t :: v)).back u = c' := hb
    rw [← hb] at hc'
    exact absurd hc' (not_endsList_item h _)
  · obtain ⟨-, rfl⟩ := ihu _ _ _ _ he' (hcomma ht) (hc'.closes _) hb
    exact absurd hc' (not_endsList_comma ht)
  · rw [Cursor.back_append] at hb
    obtain ⟨rfl, hb⟩ := ihu _ _ _ _ hu' (hcomma ht) (hcomma ht') hb
    obtain ⟨-, hb⟩ := back_cons_inj hb
    obtain ⟨rfl, hb⟩ := ihv _ _ _ _ hv' hc hc' hb
    exact ⟨rfl, hb⟩

end Lists

theorem expression_decides {phrase : Phrase} {w : List Token} (h : Expression phrase w) :
    Decides phrase w := by
  induction h with
  | chain hl _ hv ihu ihv => exact decides_chain hl hv ihu ihv
  | done => exact decides_done
  | operand hl ho _ hv ihu ihv => exact decides_operand hl ho hv ihu ihv
  | base _ ih => exact decides_base ih
  | power _ ht _ ihu ihv => exact decides_power ht ihu ihv
  | number hk => exact decides_literal (by simp [Primary, hk])
  | string hk => exact decides_literal (by simp [Primary, hk])
  | char hk => exact decides_literal (by simp [Primary, hk])
  | name hx => exact decides_name hx
  | element hx hl _ hr ih => exact decides_element hx hl hr ih
  | call hx hl _ hr ih => exact decides_call hx hl hr ih
  | updateAfter hx ht => exact decides_updateAfter hx ht
  | updateBefore ht _ => exact decides_updateBefore ht
  | parentheses hl _ hr ih => exact decides_parentheses hl hr ih
  | signed hs _ ih => exact decides_signed hs ih
  | braces hl _ hr ih => exact decides_braces hl hr ih
  | nil => exact decides_nil
  | last h ih => exact decides_last h ih
  | cons h ht _ ihu ihv => exact decides_cons h ht ihu ihv

/-- Tokens write at most one expression. -/
theorem expression_unique {tier : Tier} {e e' : Expr} {w : List Token}
    (h : Expression (.tier tier e) w) (h' : Expression (.tier tier e') w) : e = e' := by
  let c : Cursor := ⟨⟨.rparen, ")", 0⟩, []⟩
  have hc : Closes tier c.current := closes_of_closer rfl (by decide) tier
  exact (expression_decides h e' w c c h' hc hc rfl).1

end MiniC.Parse.Parser

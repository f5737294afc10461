import MiniC.Proofs.RoundTrip
import MiniC.Proofs.Stops

/-! Mistakes in expressions are found at the first token that makes them. A parser of expressions
looks at what it reads and at the token it ends at, and at nothing behind. So where it stops, no
other continuation would have made it go on; and what it has read by then can always be completed,
by closing what is open and adding the operand that is missing. Main statement:
`ofTokens_scan_earliest`. -/

namespace MiniC.Token

theorem scan_increasing (source : String) : (scan source).Pairwise fun t u => t.pos < u.pos := by
  obtain ⟨w, hw, hspread⟩ := scanFrom_spread 0 (Text.trim source.toList)
  have hspread : Spread ([] : List Char).length (Text.trim source.toList) w := hspread
  have hstop {t : Token} (ht : t ∈ w) : t.pos < t.stop := by
    have hlength : t.text.length ≠ 0 := by simpa using (hspread.slice ht).2.1
    rw [stop]
    omega
  rw [scan, hw, List.pairwise_append]
  refine ⟨?_, List.pairwise_singleton _ _, ?_⟩
  · exact hspread.ordered.imp_of_mem fun ht _ hle => Int.lt_of_lt_of_le (hstop ht) hle
  · intro t ht u hu
    obtain ⟨-, -, i, hi, hle, -⟩ := hspread.slice ht
    have hlt := hstop ht
    rw [List.nil_append] at hle
    rw [List.mem_singleton.1 hu]
    rw [stop] at hlt
    change t.pos < ((0 + (Text.trim source.toList).length : Nat) : Int)
    omega

theorem pos_inj_scan (source : String) {i j : Nat} {t u : Token} (ht : (scan source)[i]? = some t)
    (hu : (scan source)[j]? = some u) : t.pos = u.pos ↔ i = j := by
  have hlt {i j : Nat} {t u : Token} (ht : (scan source)[i]? = some t)
    (hu : (scan source)[j]? = some u)
      (hij : i < j) : t.pos < u.pos := by
    obtain ⟨hi, rfl⟩ := List.getElem?_eq_some_iff.1 ht
    obtain ⟨hj, rfl⟩ := List.getElem?_eq_some_iff.1 hu
    exact List.pairwise_iff_getElem.1 (scan_increasing source) i j hi hj hij
  constructor
  · intro hpos
    rcases Nat.lt_trichotomy i j with hij | rfl | hij
    · have := hlt ht hu hij
      omega
    · rfl
    · have := hlt hu ht hij
      omega
  · rintro rfl
    rw [ht] at hu
    cases hu
    rfl

end MiniC.Token

namespace MiniC.Parse

/-- The offset of the token that could not be read. A parenthesis that is not closed is reported
where it was opened, and then the cause quotes the other place. -/
def Diagnostic.foundAt (d : Diagnostic) : Int :=
  match d.cause with
  | .parenthesisEnd pos => pos
  | _ => d.pos

structure Diagnostic.Marks (d : Diagnostic) (w : List Token) (t : Token) : Prop where
  found : t.pos = d.foundAt
  opened : ∀ pos, d.cause = .parenthesisEnd pos → ∃ o ∈ w, o.kind = .lparen ∧ o.pos = d.pos

theorem Diagnostic.marks_plain {cause : Cause} (h : cause.isPlain = true) (w : List Token)
    (t : Token) :
    Diagnostic.Marks ⟨cause, t.pos⟩ w t := by
  cases cause with
  | parenthesisEnd => cases h
  | _ => exact ⟨rfl, by rintro _ ⟨⟩⟩

namespace Cursor

theorem Ended.back {c : Cursor} (h : c.Ended) (w : List Token) : (c.back w).Ended := by
  have hlast : (w ++ c.tokens).getLast? = c.tokens.getLast? := by
    rw [List.getLast?_append, tokens, List.getLast?_cons, Option.some_or]
  rw [Ended, tokens_back, hlast]
  exact h

theorem current_back {c d : Cursor} (h : d.current = c.current) (w : List Token) :
    (d.back w).current = (c.back w).current := by
  cases w with
  | nil => exact h
  | cons t w => rfl

theorem back_injective {c : Cursor} {u v : List Token} (h : c.back u = c.back v) : u = v := by
  have htokens := congrArg tokens h
  rw [tokens_back, tokens_back] at htokens
  exact List.append_cancel_right htokens

theorem length_rest_back (c : Cursor) (w : List Token) :
    (c.back w).rest.length = w.length + c.rest.length := by
  cases w with
  | nil => exact (Nat.zero_add _).symm
  | cons t w =>
    change (w ++ c.tokens).length = _
    rw [List.length_append, tokens, List.length_cons, List.length_cons]
    omega

theorem Ended.eof_of_rest {c : Cursor} (h : c.Ended) (hr : c.rest.length ≤ 0) :
    c.current.kind = .eof := by
  by_contra hk
  exact h.rest_ne_nil hk (List.length_eq_zero_iff.1 (Nat.le_zero.1 hr))

structure Plain (c : Cursor) : Prop where
  ended : c.Ended
  unmarked : ∀ t ∈ c.tokens, isProgramMarker t = false
  spelled : ∀ t ∈ c.tokens, t.kind.spells t.text = true

theorem Plain.of_back {c : Cursor} {w : List Token} (h : (c.back w).Plain) : c.Plain := by
  have hmem : ∀ t ∈ c.tokens, t ∈ (c.back w).tokens := by
    intro t ht
    rw [tokens_back]
    exact List.mem_append_right w ht
  exact ⟨h.ended.of_back, fun t ht => h.unmarked t (hmem t ht), fun t ht => h.spelled t (hmem t ht)⟩

end Cursor

namespace Parser

open Grammar

variable {α β : Type}

/-- From a cursor, behind some tokens, a parser does what it does whatever stands behind the token
that it ends at. If it stops there, that token is the one it reports, and what it has read is as `V`
says. -/
def Timely (b : List Token) (p : Parser α) (c : Cursor) (V : List Token → Prop) : Prop := c.Plain →
  (∀ x c', p c = .ok (x, c') → ∃ w, c = c'.back w ∧
    ∀ d : Cursor, d.Ended → d.current = c'.current → p (d.back w) = .ok (x, d)) ∧
  ∀ s, p c = .error s → s.isLimit = true ∨
    ∃ (e : Diagnostic) (w : List Token) (c' : Cursor), s = .diagnostic e ∧
      c = c'.back w ∧ e.Marks (b ++ w) c'.current ∧ V w ∧
      ∀ d : Cursor, d.Ended → d.current = c'.current → p (d.back w) = .error s

section Composed

variable {b : List Token} {p q : Parser α} {f : α → Parser β} {c : Cursor} {V : List Token → Prop}

theorem Timely.bind {P : α → List Token → Cursor → Prop} (h : Timely b p c V) (hy : Yields p c P)
    (hf : ∀ x u c', P x u c' → Timely (b ++ u) (f x) c' fun v => V (u ++ v)) :
    Timely b (p >>= f) c V := by
  intro hc
  obtain ⟨hok, herror⟩ := h hc
  cases hp : p c with
  | error s =>
    rw [bind_of_error hp f]
    refine ⟨fun x c' hx => (by cases hx), ?_⟩
    rintro _ ⟨⟩
    rcases herror s hp with hlimit | ⟨e, w, c', rfl, rfl, hmarks, hV, hagain⟩
    · exact .inl hlimit
    · exact .inr ⟨e, w, c', rfl, rfl, hmarks, hV, fun d hd hcurrent => bind_of_error
        (hagain d hd hcurrent) f⟩
  | ok r =>
    obtain ⟨x, c₁⟩ := r
    obtain ⟨u, rfl, hagain⟩ := hok x c₁ hp
    obtain ⟨u', hu, hP⟩ := hy hc.ended x c₁ hp
    obtain rfl := Cursor.back_injective hu
    rw [bind_of_ok hp f]
    -- What the second part looks at is what the first was free to find behind its end.
    have hboth {c₂ : Cursor} {v : List Token} (hv : c₁ = c₂.back v) (d : Cursor) (hd : d.Ended)
        (hcurrent : d.current = c₂.current) : (p >>= f) (d.back (u ++ v)) = f x (d.back v) := by
      rw [Cursor.back_append]
      apply bind_of_ok
      apply hagain _ (hd.back v)
      rw [hv, Cursor.current_back hcurrent]
    obtain ⟨hok', herror'⟩ := hf x u c₁ hP hc.of_back
    constructor
    · intro y c₂ hy
      obtain ⟨v, hv, hagain'⟩ := hok' y c₂ hy
      refine ⟨u ++ v, by rw [Cursor.back_append, ← hv], fun d hd hcurrent => ?_⟩
      rw [hboth hv d hd hcurrent]
      exact hagain' d hd hcurrent
    · intro s hs
      rcases herror' s hs with hlimit | ⟨e, v, c₂, rfl, hv, hmarks, hV, hagain'⟩
      · exact .inl hlimit
      · rw [List.append_assoc] at hmarks
        refine .inr ⟨e, u ++ v, c₂,
          rfl, by rw [Cursor.back_append, ← hv], hmarks, hV, fun d hd hcurrent => ?_⟩
        rw [hboth hv d hd hcurrent]
        exact hagain' d hd hcurrent

theorem Timely.mono {V' : List Token → Prop} (h : Timely b p c V) (hV : ∀ w, V w → V' w) :
    Timely b p c V' := by
  intro hc
  refine ⟨(h hc).1, fun s hs => ?_⟩
  rcases (h hc).2 s hs with hlimit | ⟨e, w, c', he, hw, hmarks, hVw, hagain⟩
  · exact .inl hlimit
  · exact .inr ⟨e, w, c', he, hw, hmarks, hV w hVw, hagain⟩

theorem Timely.congr (h : Timely b q c V)
    (hpq : ∀ d : Cursor, d.Ended → d.current = c.current → p d = q d) :
    Timely b p c V := by
  intro hc
  have hagree {c' : Cursor} {w : List Token} (hw : c = c'.back w) (d : Cursor) (hd : d.Ended)
      (hcurrent : d.current = c'.current) : p (d.back w) = q (d.back w) := by
    apply hpq _ (hd.back w)
    rw [hw, Cursor.current_back hcurrent]
  rw [hpq c hc.ended rfl]
  constructor
  · intro x c' hx
    obtain ⟨w, hw, hagain⟩ := (h hc).1 x c' hx
    refine ⟨w, hw, fun d hd hcurrent => ?_⟩
    rw [hagree hw d hd hcurrent]
    exact hagain d hd hcurrent
  · intro s hs
    rcases (h hc).2 s hs with hlimit | ⟨e, w, c', he, hw, hmarks, hV, hagain⟩
    · exact .inl hlimit
    · refine .inr ⟨e, w, c', he, hw, hmarks, hV, fun d hd hcurrent => ?_⟩
      rw [hagree hw d hd hcurrent]
      exact hagain d hd hcurrent

theorem timely_plain (h : c.Plain → Timely b p c V) : Timely b p c V := fun hc => h hc hc

theorem timely_current {f : Token → Parser α} (h : Timely b (f c.current) c V) :
    Timely b (current >>= f) c V := by
  apply h.congr
  intro d _ hd
  rw [current_bind, hd]

theorem timely_pure (x : α) : Timely b (pure x) c V := by
  intro _
  refine ⟨?_, fun s hs => by cases hs⟩
  rintro _ _ ⟨⟩
  exact ⟨[], rfl, fun d _ _ => rfl⟩

theorem timely_limit {s : Stop} (hs : s.isLimit = true) : Timely b (throw s : Parser α) c V := by
  intro _
  refine ⟨fun x c' hx => (by cases hx), ?_⟩
  rintro _ ⟨⟩
  exact .inl hs

theorem timely_throw {e : Diagnostic} (he : e.Marks b c.current) (hV : V []) :
    Timely b (throw (.diagnostic e) : Parser α) c V := by
  intro _
  refine ⟨fun x c' hx => (by cases hx), ?_⟩
  rintro _ ⟨⟩
  rw [← List.append_nil b] at he
  exact .inr ⟨e, [], c, rfl, rfl, he, hV, fun d _ _ => rfl⟩

theorem timely_fail {cause : Cause} (hcause : cause.isPlain = true) (hV : V []) :
    Timely b (fail cause : Parser α) c V := by
  apply timely_current
  exact timely_throw (Diagnostic.marks_plain hcause b c.current) hV

theorem timely_advance (hk : c.current.kind ≠ .eof) : Timely b advance c V := by
  intro hc
  refine ⟨?_, fun s hs => by cases hs⟩
  rintro _ _ ⟨⟩
  refine ⟨[c.current], hc.ended.eq_back hk, fun d _ _ => ?_⟩
  rfl

theorem timely_taken {f : Token → Parser α} (hk : c.current.kind ≠ .eof)
    (h : ∀ c', Timely (b ++ [c.current]) (f c.current) c' fun v => V (c.current :: v)) :
    Timely b (advance >>= f) c V := by
  apply (timely_advance hk).bind (yields_advance hk)
  rintro t w c' ⟨rfl, rfl, -⟩
  exact h c'

theorem timely_accept {k : Token.Kind} (hk : k ≠ .eof) : Timely b (accept k) c V := by
  apply timely_current
  split
  · rename_i hc
    exact timely_taken (by rw [hc]; exact hk) fun _ => timely_pure true
  · exact timely_pure false

theorem timely_acceptText {k : Token.Kind} (hk : k ≠ .eof) (text : String) :
    Timely b (acceptText k text) c V := by
  apply timely_current
  split
  · rename_i hc
    exact timely_taken (by rw [(Token.is_iff.1 hc).1]; exact hk) fun _ => timely_pure true
  · exact timely_pure false

theorem timely_expect {k : Token.Kind} (hk : k ≠ .eof) {cause : Cause}
    (hcause : cause.isPlain = true) (hV : V []) :
    Timely b (expect k cause) c V := by
  apply timely_current
  split
  · rename_i hc
    exact timely_advance (by rw [hc]; exact hk)
  · exact timely_fail hcause hV

theorem Timely.map {P : α → List Token → Cursor → Prop} (h : Timely b p c V) (hy : Yields p c P)
    (g : α → β) :
    Timely b (p >>= fun x => pure (g x)) c V := h.bind hy fun x _ _ _ => timely_pure (g x)

end Composed

section Counted

variable {p q : Parser α} {f g : α → Parser β} {c : Cursor}

theorem length_rest_of_back {c' : Cursor} {w : List Token} (h : c = c'.back w) :
    c.rest.length = w.length + c'.rest.length := by
  rw [h, Cursor.length_rest_back]

/-- What follows a parser has to agree only where that one can end, and with that many tokens
less. -/
theorem bind_congr {P : α → List Token → Cursor → Prop} (hy : Yields p c P) (hc : c.Ended)
    (h : ∀ x w c', P x w c' → c.rest.length = w.length + c'.rest.length → c'.Ended →
    f x c' = g x c') :
    (p >>= f) c = (p >>= g) c := by
  cases hp : p c with
  | error s => rw [bind_of_error hp, bind_of_error hp]
  | ok r =>
    obtain ⟨w, hw, hP⟩ := hy hc r.1 r.2 hp
    rw [bind_of_ok hp, bind_of_ok hp]
    apply h r.1 w r.2 hP (length_rest_of_back hw)
    rw [hw] at hc
    exact hc.of_back

theorem bind_congr_left (h : p c = q c) (f : α → Parser β) : (p >>= f) c = (q >>= f) c := by
  change (p c >>= fun r => f r.1 r.2) = (q c >>= fun r => f r.1 r.2)
  rw [h]

end Counted

section Viable

/-- Tokens that can be completed to a phrase without making them a program. -/
def Viable {ε : Type} (phrase : ε → Phrase) (w : List Token) : Prop :=
  ∃ x s, isProgram s = false ∧ Expression (phrase x) (w ++ s)

variable {ε δ : Type} {f : ε → Phrase} {g : δ → Phrase} {w w' : List Token}

theorem viable_of_expression {x : ε} (h : Expression (f x) w) : Viable f w :=
  ⟨x, [], rfl, by rw [List.append_nil]; exact h⟩

theorem Viable.into (h : Viable f w) (make : ε → δ)
    (hg : ∀ x s, Expression (f x) (w ++ s) → Expression (g (make x)) (w' ++ s)) : Viable g w' := by
  obtain ⟨x, s, hs, hx⟩ := h
  exact ⟨make x, s, hs, hg x s hx⟩

/-- What completes the part that is open completes the whole, with a closing token behind it. -/
theorem Viable.close (h : Viable f w) (make : ε → δ) {r : Token} (hr : isProgramMarker r = false)
    (hg : ∀ x s, Expression (f x) (w ++ s) → Expression (g (make x)) (w' ++ (s ++ [r]))) :
    Viable g w' := by
  obtain ⟨x, s, hs, hx⟩ := h
  refine ⟨make x, s ++ [r], ?_, hg x s hx⟩
  rw [isProgram, List.any_append, Bool.or_eq_false_iff]
  exact ⟨hs, by rw [List.any_cons, hr]; rfl⟩

theorem viable_nil (tier : Tier) : Viable (.tier tier) [] := by
  have hzero : Written 1 (.tier .primary _) [⟨.number, "0", 0⟩] :=
    ⟨.number rfl, complete_number rfl⟩
  have hrank : rank .primary = rank tier + (7 - rank tier) := by cases tier <;> rfl
  exact ⟨_, [⟨.number, "0", 0⟩], rfl, (hzero.loosen hrank).derives⟩

theorem viable_operand {tier : Tier} {op : BinaryOp} {t : Token} (left : Expr)
    (hl : isLeft tier = true) (ho : tier.operator? t = some op)
    (h : Viable (.tier tier.tighter) w) : Viable (.operands tier left) (t :: w) := by
  apply h.into (fun right => .binary op left right)
  intro right s hs
  have hoperand : Expression (.operands tier left (.binary op left right)) (t :: (w ++ s ++ [])) :=
    .operand hl ho hs .done
  rw [List.append_nil] at hoperand
  exact hoperand

end Viable

section Chains

variable {tier : Tier} {operand : Parser Expr}

theorem operator?_of_rest (tier : Tier) {c : Cursor} (hc : c.Ended) (hr : c.rest.length ≤ 0) :
    tier.operator? c.current = none :=
  (closes_of_closer (hc.eof_of_rest hr) (by decide) .or).operator? tier (Nat.zero_le _)

theorem chainOver_none {c : Cursor} (h : tier.operator? c.current = none) (m : List Token)
    (e : Expr) :
    chainOver tier.operator? operand m e c = .ok (e, c) := by
  cases m with
  | nil => rfl
  | cons t m =>
    rw [chainOver, current_bind, h]
    rfl

theorem chainOver_some {op : BinaryOp} {c : Cursor} (h : tier.operator? c.current = some op)
    (t : Token) (m : List Token) (e : Expr) : chainOver tier.operator? operand (t :: m) e c =
      (advance >>= fun _ => operand >>= fun right => chainOver tier.operator? operand m
        (.binary op e right)) c := by
  rw [chainOver, current_bind, h]

theorem operator?_ne_eof {op : BinaryOp} {t : Token} (h : tier.operator? t = some op) :
    t.kind ≠ .eof := by
  rw [kind_of_operator? h]
  cases tier <;> decide

theorem chainOver_congr (ho : ReadsTier operand tier.tighter) {m m' : List Token} (e : Expr)
    {c : Cursor} (hc : c.Ended) (hm : c.rest.length ≤ m.length) (hm' : c.rest.length ≤ m'.length) :
    chainOver tier.operator? operand m e c = chainOver tier.operator? operand m' e c := by
  induction m generalizing m' e c with
  | nil =>
    have hnone := operator?_of_rest tier hc hm
    rw [chainOver_none hnone, chainOver_none hnone]
  | cons t m ih =>
    cases m' with
    | nil =>
      have hnone := operator?_of_rest tier hc hm'
      rw [chainOver_none hnone, chainOver_none hnone]
    | cons t' m' =>
      rw [List.length_cons] at hm hm'
      cases hop : tier.operator? c.current with
      | none => rw [chainOver_none hop, chainOver_none hop]
      | some op =>
        rw [chainOver_some hop, chainOver_some hop]
        apply bind_congr (yields_advance (operator?_ne_eof hop)) hc
        rintro t w c' ⟨rfl, rfl, -⟩ hlength hc'
        apply bind_congr (ho c') hc'
        intro right u c'' _ hlength' hc''
        rw [List.length_singleton] at hlength
        exact ih _ hc'' (by omega) (by omega)

def chainFrom (tier : Tier) (operand : Parser Expr) (e : Expr) : Parser Expr :=
  get >>= fun c => chainOver tier.operator? operand c.rest e

theorem chainFrom_some (ho : ReadsTier operand tier.tighter) {op : BinaryOp} (e : Expr)
    {c : Cursor} (hc : c.Ended) (h : tier.operator? c.current = some op) :
    chainFrom tier operand e c =
      (advance >>= fun _ => operand >>= fun right => chainFrom tier operand (.binary op e right))
        c := by
  change chainOver tier.operator? operand c.rest e c = _
  cases hr : c.rest with
  | nil => exact absurd hr (hc.rest_ne_nil (operator?_ne_eof h))
  | cons t m =>
    rw [chainOver_some h]
    apply bind_congr (yields_advance (operator?_ne_eof h)) hc
    rintro t w c' ⟨rfl, rfl, -⟩ hlength hc'
    apply bind_congr (ho c') hc'
    intro right u c'' _ hlength' hc''
    rw [hr, List.length_cons, List.length_singleton] at hlength
    exact chainOver_congr ho _ hc'' (by omega) (Nat.le_refl _)

def InTime (p : Parser Expr) (tier : Tier) : Prop := ∀ b c, Timely b p c (Viable (.tier tier))

theorem timely_chainFrom (hl : isLeft tier = true) (ho : ReadsTier operand tier.tighter)
    (ht : InTime operand tier.tighter) (e : Expr) (b : List Token) (c : Cursor) :
    Timely b (chainFrom tier operand e) c (Viable (.operands tier e)) := by
  induction hn : c.rest.length using Nat.strong_induction_on generalizing e b c with
  | h n ih =>
    cases hop : tier.operator? c.current with
    | none =>
      apply (timely_pure e).congr
      intro d _ hd
      exact chainOver_none (by rw [hd]; exact hop) _ _
    | some op =>
      have hk := operator?_ne_eof hop
      have hstep : Timely b (advance >>= fun _ => operand >>= fun right =>
          chainFrom tier operand (.binary op e right)) c (Viable (.operands tier e)) := by
        apply (timely_advance hk).bind (yields_advance hk).located
        rintro t w c' ⟨⟨rfl, rfl, -⟩, hback⟩
        apply ((ht _ c').mono fun w hw => viable_operand e hl hop hw).bind (ho c').located
        rintro right u c'' ⟨hu, hback'⟩
        have hlength := length_rest_of_back hback
        have hlength' := length_rest_of_back hback'
        rw [List.length_singleton] at hlength
        apply (ih c''.rest.length (by omega) (.binary op e right) _ c'' rfl).mono
        intro v hv
        apply hv.into id
        intro e' s he'
        have hoperand := Expression.operand hl hop hu he'
        simpa using hoperand
      apply hstep.congr
      intro d hd hcurrent
      exact chainFrom_some ho e hd (by rw [hcurrent]; exact hop)

theorem timely_chain (hl : isLeft tier = true) (ho : ReadsTier operand tier.tighter)
    (ht : InTime operand tier.tighter) : InTime (chain tier.operator? operand) tier := by
  intro b c
  have hfirst (w : List Token) (hw : Viable (.tier tier.tighter) w) : Viable (.tier tier) w :=
    hw.into id fun e s he => expression_of_tighter he
  apply ((ht _ c).mono hfirst).bind (ho c)
  intro e u c' hu
  apply (timely_chainFrom hl ho ht e _ c').mono
  intro v hv
  apply hv.into id
  intro e' s he'
  have hchain := Expression.chain hl hu he'
  simpa using hchain

end Chains

section Lists

variable {close : Token.Kind} {expr : Parser Expr} {c : Cursor}

theorem commaListOver_end (h : c.current.kind = close ∨ c.current.kind = .eof) (m : List Token) :
    commaListOver close expr m c = .ok ([], c) := by
  cases m with
  | nil => rfl
  | cons t m =>
    rw [commaListOver, current_bind, if_pos (by simpa using h)]
    rfl

theorem commaListOver_item (h : ¬(c.current.kind = close ∨ c.current.kind = .eof)) (t : Token)
    (m : List Token) :
    commaListOver close expr (t :: m) c = (expr >>= fun x => accept .comma >>= fun more =>
      if more then commaListOver close expr m >>= fun xs => pure (x :: xs) else pure [x]) c := by
  rw [commaListOver, current_bind, if_neg (by simpa using h)]

theorem commaListOver_congr (he : ReadsTier expr .or) {m m' : List Token} (hc : c.Ended)
    (hm : c.rest.length ≤ m.length) (hm' : c.rest.length ≤ m'.length) :
    commaListOver close expr m c = commaListOver close expr m' c := by
  induction m generalizing m' c with
  | nil =>
    have hend := Or.inr (a := c.current.kind = close) (hc.eof_of_rest hm)
    rw [commaListOver_end hend, commaListOver_end hend]
  | cons t m ih =>
    cases m' with
    | nil =>
      have hend := Or.inr (a := c.current.kind = close) (hc.eof_of_rest hm')
      rw [commaListOver_end hend, commaListOver_end hend]
    | cons t' m' =>
      rw [List.length_cons] at hm hm'
      by_cases hend : c.current.kind = close ∨ c.current.kind = .eof
      · rw [commaListOver_end hend, commaListOver_end hend]
      · rw [commaListOver_item hend, commaListOver_item hend]
        apply bind_congr (he c) hc
        intro x u c' _ hlength hc'
        apply bind_congr (yields_accept (by decide)) hc'
        rintro more w c'' (⟨rfl, -, rfl⟩ | ⟨rfl, rfl, -, -⟩) hlength' hc''
        · rw [List.length_singleton] at hlength'
          exact bind_congr_left (ih hc'' (by omega) (by omega)) _
        · rfl

theorem commaList_item (he : ReadsTier expr .or) (hc : c.Ended)
    (h : ¬(c.current.kind = close ∨ c.current.kind = .eof)) : commaList close expr c =
      (expr >>= fun x => accept .comma >>= fun more =>
        if more then commaList close expr >>= fun xs => pure (x :: xs) else pure [x]) c := by
  change commaListOver close expr c.rest c = _
  cases hr : c.rest with
  | nil => exact absurd hr (hc.rest_ne_nil fun hk => h (.inr hk))
  | cons t m =>
    rw [commaListOver_item h]
    apply bind_congr (he c) hc
    intro x u c' _ hlength hc'
    apply bind_congr (yields_accept (by decide)) hc'
    rintro more w c'' (⟨rfl, -, rfl⟩ | ⟨rfl, rfl, -, -⟩) hlength' hc''
    · rw [hr, List.length_cons] at hlength
      rw [List.length_singleton] at hlength'
      exact bind_congr_left (commaListOver_congr he hc'' (by omega) (Nat.le_refl _)) _
    · rfl

theorem timely_commaList (he : ReadsTier expr .or) (ht : InTime expr .or) (close : Token.Kind)
    (b : List Token) (c : Cursor) : Timely b (commaList close expr) c (Viable .list) := by
  induction hn : c.rest.length using Nat.strong_induction_on generalizing b c with
  | h n ih =>
    by_cases hend : c.current.kind = close ∨ c.current.kind = .eof
    · apply (timely_pure []).congr
      intro d _ hd
      exact commaListOver_end (by rw [hd]; exact hend) _
    · have hfirst (w : List Token) (hw : Viable (.tier .or) w) : Viable .list w :=
        hw.into (fun e => [e]) fun e s he => .last he
      have hstep : Timely b (expr >>= fun x => accept .comma >>= fun more =>
          if more then commaList close expr >>= fun xs => pure (x :: xs) else pure [x]) c
            (Viable .list) := by
        apply ((ht _ c).mono hfirst).bind (he c).located
        rintro x u c' ⟨hu, hback⟩
        apply (timely_accept (by decide)).bind (yields_accept (by decide)).located
        rintro more w c'' ⟨⟨rfl, hcomma, rfl⟩ | ⟨rfl, rfl, -, -⟩, hback'⟩
        · have hlength := length_rest_of_back hback
          have hlength' := length_rest_of_back hback'
          rw [List.length_singleton] at hlength'
          apply Timely.map _ (yields_items he close c'')
          apply (ih c''.rest.length (by omega) _ c'' rfl).mono
          intro v hv
          apply hv.into (fun es => x :: es)
          intro es s hes
          have hcons := Expression.cons hu hcomma hes
          simpa using hcons
        · exact timely_pure _
      apply hstep.congr
      intro d hd hcurrent
      exact commaList_item he hd (by rw [hcurrent]; exact hend)

end Lists

section Productions

theorem timely_power {base exponent : Parser Expr} (hb : ReadsTier base .primary)
    (hbt : InTime base .primary) (het : InTime exponent .power) (he : ReadsTier exponent .power) :
    InTime (power base exponent) .power := by
  intro b c
  have hbase (w : List Token) (hw : Viable (.tier .primary) w) : Viable (.tier .power) w :=
    hw.into id fun e s hs => .base hs
  apply ((hbt _ c).mono hbase).bind (hb c)
  intro left u c' hu
  apply (timely_acceptText (by decide) "^").bind (yields_acceptText (by decide) "^")
  rintro more w c'' (⟨rfl, ht, rfl⟩ | ⟨rfl, rfl, -, -⟩)
  · apply Timely.map _ (he c'')
    apply (het _ c'').mono
    intro v hv
    apply hv.into (fun right => .binary .pow left right)
    intro right s hs
    have hpower := Expression.power hu ht hs
    simpa using hpower
  · exact timely_pure left

variable {expr operand : Parser Expr} {b : List Token} {c : Cursor}

theorem updates_of_spelled {t : Token} (hk : t.kind = .increment ∨ t.kind = .decrement)
    (hs : t.kind.spells t.text = true) :
    ∃ op, UpdateOp.ofSymbol? t.text = some op ∧ Updates t op := by
  have htext : t.text = "++" ∨ t.text = "--" := by
    rcases hk with hk | hk <;> (rw [hk] at hs; simpa [Token.Kind.spells] using hs)
  rcases htext with ht | ht
  · exact ⟨.inc, by rw [ht]; rfl, hk, ht⟩
  · exact ⟨.dec, by rw [ht]; rfl, hk, ht⟩

theorem timely_updateOp {t : Token} {op : UpdateOp} (h : UpdateOp.ofSymbol? t.text = some op)
    {V : List Token → Prop} : Timely b (updateOp t) c V := by
  unfold updateOp
  rw [h]
  exact timely_pure op

theorem timely_updated (hk : c.current.kind = .increment ∨ c.current.kind = .decrement) :
    Timely b updated c (Viable (.tier .primary)) := by
  have hne : c.current.kind ≠ .eof := by rcases hk with h | h <;> rw [h] <;> decide
  apply timely_plain
  intro hc
  obtain ⟨op, hop, hupdates⟩ := updates_of_spelled hk (hc.spelled c.current List.mem_cons_self)
  apply timely_taken hne
  intro c'
  have hname : Viable (.tier .primary) (c.current :: []) :=
    ⟨_, [⟨.identifier, "x", 0⟩], rfl, .updateBefore hupdates rfl⟩
  apply (timely_expect (by decide) rfl hname).bind (yields_expect (by decide) _)
  intro x w c'' _
  exact (timely_updateOp hop).map (yields_updateOp _ c'') _

theorem timely_literal {make : String → Expr} (hk : c.current.kind ≠ .eof) {V : List Token → Prop} :
    Timely b (literal make) c V := timely_taken hk fun _ => timely_pure _

theorem timely_number (t : Token) {V : List Token → Prop} : Timely b (number t) c V := by
  unfold number
  cases number? t.text with
  | none => exact timely_limit rfl
  | some n => exact timely_pure n

theorem timely_signed (hot : InTime operand .primary) (ho : ReadsTier operand .primary)
    {make : Expr → Expr} (hk : c.current.kind ≠ .eof) (hs : sign? c.current = some make) :
    Timely b (signed make operand) c (Viable (.tier .primary)) := by
  apply timely_taken hk
  intro c'
  apply Timely.map _ (ho c')
  apply (hot _ c').mono
  intro w hw
  exact hw.into make fun e s he => .signed hs he

theorem timely_operatorExpr (hot : InTime operand .primary) (ho : ReadsTier operand .primary)
    (hk : c.current.kind = .operator) :
    Timely b (operatorExpr c.current.text operand) c (Viable (.tier .primary)) := by
  have hne : c.current.kind ≠ .eof := by rw [hk]; decide
  have hsign (text : String) (ht : c.current.text = text) :
      sign? c.current = if text = "*" then some .deref else if text = "-" then some (.unary .neg)
        else if text = "+" then some (.unary .pos) else none := by
    simp [sign?, Token.is, hk, ht]
  unfold operatorExpr
  split
  · rename_i ht
    exact timely_signed hot ho hne (by rw [hsign _ ht, if_pos rfl])
  · split
    · rename_i ht
      exact timely_signed hot ho hne (by rw [hsign _ ht]; rfl)
    · split
      · rename_i ht
        exact timely_signed hot ho hne (by rw [hsign _ ht]; rfl)
      · exact timely_fail rfl (viable_nil .primary)

variable (he : ReadsTier expr .or) (het : InTime expr .or)
include he het

theorem timely_parenthesised (hl : c.current.kind = .lparen) :
    Timely b (parenthesised expr) c (Viable (.tier .primary)) := by
  apply timely_taken (by rw [hl]; decide)
  intro c'
  have hinside (w : List Token) (hw : Viable (.tier .or) w) : Viable (.tier .primary)
      (c.current :: w) := by
    apply hw.close id (r := ⟨.rparen, ")", 0⟩) rfl
    intro e s hs
    have hclosed := Expression.parentheses (r := ⟨.rparen, ")", 0⟩) hl hs rfl
    simpa using hclosed
  apply ((het _ c').mono hinside).bind (he c')
  intro e u c'' hu
  apply timely_current
  split
  · rename_i hr
    exact timely_taken (by rw [hr]; decide) fun _ => timely_pure e
  · have hopened : c.current ∈ b ++ [c.current] ++ u := by simp
    apply timely_throw ⟨rfl, fun _ _ => ⟨c.current, hopened, hl, rfl⟩⟩
    rw [List.append_nil]
    exact hinside u (viable_of_expression hu)

theorem timely_named (hx : c.current.kind = .identifier) :
    Timely b (named expr) c (Viable (.tier .primary)) := by
  apply timely_taken (by rw [hx]; decide)
  intro c'
  apply (timely_accept (by decide)).bind (yields_accept (by decide))
  rintro more w c₁ (⟨rfl, hl, rfl⟩ | ⟨rfl, rfl, rfl, -⟩)
  · have hinside (w : List Token) (hw : Viable (.tier .or) w) :
        Viable (.tier .primary) (c.current :: c'.current :: w) := by
      apply hw.close (fun i => .element c.current.text i) (r := ⟨.rbracket, "]", 0⟩) rfl
      intro i s hs
      have hclosed := Expression.element (r := ⟨.rbracket, "]", 0⟩) hx hl hs rfl
      simpa using hclosed
    apply Timely.map _ (yields_index he c₁)
    apply ((het _ c₁).mono hinside).bind (he c₁)
    intro i u c₂ hu
    apply Timely.map _ (yields_expect (by decide) _)
    apply timely_expect (by decide) rfl
    rw [List.append_nil]
    exact hinside u (viable_of_expression hu)
  · apply (timely_accept (by decide)).bind (yields_accept (by decide))
    rintro more w c₂ (⟨rfl, hl, rfl⟩ | ⟨rfl, rfl, rfl, -⟩)
    · have hinside (w : List Token) (hw : Viable .list w) :
          Viable (.tier .primary) (c.current :: c₁.current :: w) := by
        apply hw.close (fun es => .call c.current.text es) (r := ⟨.rparen, ")", 0⟩) rfl
        intro es s hs
        have hclosed := Expression.call (r := ⟨.rparen, ")", 0⟩) hx hl hs rfl
        simpa using hclosed
      apply ((timely_commaList he het .rparen _ c₂).mono hinside).bind (yields_items he .rparen c₂)
      intro es u c₃ hu
      apply Timely.map _ (yields_expect (by decide) _)
      apply timely_expect (by decide) rfl
      rw [List.append_nil]
      exact hinside u (viable_of_expression hu)
    · apply timely_current
      split
      · rename_i hu
        have hk : c₂.current.kind = .increment ∨ c₂.current.kind = .decrement := by simpa using hu
        apply timely_plain
        intro hc
        obtain ⟨op, hop, -⟩ := updates_of_spelled hk (hc.spelled c₂.current List.mem_cons_self)
        apply timely_taken (by rcases hk with h | h <;> rw [h] <;> decide)
        intro c₃
        exact (timely_updateOp hop).map (yields_updateOp _ c₃) _
      · exact timely_pure _

theorem timely_primary (hot : InTime operand .primary) (ho : ReadsTier operand .primary) :
    InTime (primary expr operand) .primary := by
  intro b c
  apply timely_current
  split
  all_goals rename_i hk
  · apply timely_taken (by rw [hk]; decide)
    intro c'
    exact (timely_number _).map (yields_number _ c') _
  · exact timely_literal (by rw [hk]; decide)
  · exact timely_literal (by rw [hk]; decide)
  · exact timely_updated (.inl hk)
  · exact timely_updated (.inr hk)
  · split
    · rename_i ht
      exact timely_signed hot ho (by rw [hk]; decide) (by simp [sign?, Token.is, hk, ht])
    · exact timely_fail rfl (viable_nil .primary)
  · exact timely_signed hot ho (by rw [hk]; decide) (by simp [sign?, Token.is, hk])
  · exact timely_named he het hk
  · exact timely_parenthesised he het hk
  · exact timely_fail rfl (viable_nil .primary)
  -- A brace would make the tokens a program.
  · apply timely_plain
    intro hc
    have hmark := hc.unmarked c.current List.mem_cons_self
    simp [isProgramMarker, hk] at hmark
  · exact timely_operatorExpr hot ho hk
  · exact timely_fail rfl (viable_nil .primary)
  · exact timely_fail rfl (viable_nil .primary)

end Productions

theorem timely_expression (n : Nat) (tier : Tier) : InTime (expression n tier) tier := by
  induction n generalizing tier with
  | zero =>
    intro b c
    exact timely_current (timely_limit rfl)
  | succ n ih =>
    cases tier with
    | primary =>
      exact timely_primary (yields_expression n .or) (ih .or) (ih .primary)
        (yields_expression n .primary)
    | power =>
      exact timely_power (yields_expression n .primary) (ih .primary) (ih .power)
        (yields_expression n .power)
    | _ => exact timely_chain rfl (yields_expression n _) (ih _)

theorem timely_wholeTree (n : Nat) (b : List Token) (c : Cursor) :
    Timely b (wholeTree n false) c (Viable (.tier .or)) := by
  have htree : Timely b (tree n false) c (Viable (.tier .or)) :=
    (timely_expression n .or b c).map (yields_expression n .or c) Tree.expr
  have hyields : Yields (tree n false) c fun _ w _ => ∃ e, Expression (.tier .or e) w :=
    (yields_expression n .or c).map fun e w c' hw => ⟨e, hw⟩
  apply htree.bind hyields
  rintro tree w c' ⟨e, hw⟩
  apply timely_current
  split
  · exact timely_pure tree
  · apply timely_fail rfl
    rw [List.append_nil]
    exact viable_of_expression hw

end Parser

open Grammar Parse.Parser

section Ended

variable {w : List Token} {e : Token} (he : e.kind = .eof) (hv : ∀ t ∈ w ++ [e], t.kind ≠ .invalid)
  (hp : isProgram (w ++ [e]) = false)
include he

/-- If reading stops in the same way whatever stands behind a token, then no expression begins with
what was read and that token. -/
theorem not_viable_of_stop {u : List Token} {t : Token} {s : Stop} (hs : s.isLimit = false)
    (h : ∀ d : Cursor, d.Ended → d.current = t → wholeTree budget false (d.back u) = .error s) :
    ¬Viable (.tier .or) (u ++ [t]) := by
  rintro ⟨x, v, -, hx⟩
  have hstop := h ((⟨e, []⟩ : Cursor).back (t :: v)) (Cursor.ended_end he _) rfl
  obtain ⟨need, hneed⟩ := exists_complete hx
  have hread := admits_wholeExpression hneed budget (c := ⟨e, []⟩) he
  rw [List.append_assoc, List.singleton_append, Cursor.back_append] at hread
  rcases hread with hok | ⟨s', herror, hlimit, -⟩
  · rw [hstop] at hok
    cases hok
  · rw [hstop] at herror
    cases herror
    rw [hs] at hlimit
    cases hlimit

include hv hp

theorem ofTokens_earliest (hspells : ∀ t ∈ w ++ [e], t.kind.spells t.text = true) {s : Stop}
    (h : ofTokens (w ++ [e]) = .error s) (hs : s.isLimit = false) :
    ∃ d u t v, s = .diagnostic d ∧ w ++ [e] = u ++ t :: v ∧ d.Marks u t ∧ Viable (.tier .or) u ∧
      ¬Viable (.tier .or) (u ++ [t]) := by
  have htokens : ((⟨e, []⟩ : Cursor).back w).tokens = w ++ [e] := Cursor.tokens_back _ _
  have hplain : ((⟨e, []⟩ : Cursor).back w).Plain := by
    refine ⟨Cursor.ended_end he w, ?_, ?_⟩
    · rw [htokens]
      exact fun t ht => Bool.eq_false_iff.2 (List.any_eq_false.1 hp t ht)
    · rw [htokens]
      exact hspells
  rw [ofTokens_end he hv hp] at h
  cases hread : wholeTree budget false ((⟨e, []⟩ : Cursor).back w) with
  | ok r =>
    rw [hread] at h
    cases h
  | error s' =>
    rw [hread] at h
    cases h
    rcases (timely_wholeTree budget [] _ hplain).2 s hread with
      hlimit | ⟨d, u, c, rfl, hback, hd, hu, hagain⟩
    · rw [hs] at hlimit
      cases hlimit
    · refine ⟨d, u, c.current, c.rest, rfl, ?_, hd, hu, not_viable_of_stop he hs hagain⟩
      rw [← htokens, hback, Cursor.tokens_back]
      rfl

end Ended

/-- Tokens without an invalid one, that are no program and that cannot be read, have a first token
that is one too many, and it is the one found: what is before it can be completed to an expression,
and with it that is not possible. A parenthesis that is not closed stands before it. -/
theorem ofTokens_scan_earliest (source : String) (hv : ∀ t ∈ Token.scan source, t.kind ≠ .invalid)
    (hp : isProgram (Token.scan source) = false) {s : Stop}
    (h : ofTokens (Token.scan source) = .error s)
    (hs : ∀ d, s = .diagnostic d → d.cause.message ≠ "Input nested too deeply" ∧
    d.cause.message ≠ "Number literal too long") :
    ∃ d k, s = .diagnostic d ∧ k < (Token.scan source).length ∧
      (∀ i t, (Token.scan source)[i]? = some t → (t.pos = d.foundAt ↔ i = k)) ∧
      (∀ pos, d.cause = .parenthesisEnd pos →
        ∃ i o, i < k ∧ (Token.scan source)[i]? = some o ∧ o.kind = .lparen ∧ o.pos = d.pos) ∧
      Viable (.tier .or) ((Token.scan source).take k) ∧
      ¬Viable (.tier .or) ((Token.scan source).take (k + 1)) := by
  have hlimit : s.isLimit = false := by
    rw [Bool.eq_false_iff]
    intro hlimit
    obtain ⟨d, rfl, hd⟩ := Stop.message_of_isLimit hlimit
    exact hd.elim (hs d rfl).1 (hs d rfl).2
  have hspells : ∀ t ∈ Token.scan source, t.kind.spells t.text = true := fun t ht =>
    Token.scanFrom_spells ht
  have hindex := @Token.pos_inj_scan source
  obtain ⟨w, eof, hscan, heof, -⟩ := Token.scanFrom_eq 0 (Text.trim source.toList)
  have hscan : Token.scan source = w ++ [eof] := hscan
  rw [hscan] at hv hp h hspells hindex ⊢
  obtain ⟨d, u, t, v, rfl, hw, hd, hviable, hnot⟩ := ofTokens_earliest heof hv hp hspells h hlimit
  rw [hw] at hindex ⊢
  have ht : (u ++ t :: v)[u.length]? = some t := by simp
  refine ⟨d, u.length, rfl, by simp, ?_, ?_, ?_, ?_⟩
  · intro i t' ht'
    rw [← hd.found]
    exact hindex ht' ht
  · intro pos hpos
    obtain ⟨o, ho, hparen⟩ := hd.opened pos hpos
    obtain ⟨i, hi, rfl⟩ := List.getElem_of_mem ho
    refine ⟨i, u[i], hi, ?_, hparen⟩
    rw [List.getElem?_append_left hi, List.getElem?_eq_getElem hi]
  · rwa [List.take_left]
  · rwa [List.take_length_add_append, List.take_succ_cons, List.take_zero]

def crowdedCall : String := "f(1, (a + b c"

def crowdedCallTokens : List Token :=
  [⟨.identifier, "f", 0⟩, ⟨.lparen, "(", 1⟩, ⟨.number, "1", 2⟩, ⟨.comma, ",", 3⟩, ⟨.lparen, "(", 5⟩,
    ⟨.identifier, "a", 6⟩, ⟨.operator, "+", 8⟩, ⟨.identifier, "b", 10⟩, ⟨.identifier, "c", 12⟩,
    ⟨.eof, "", 13⟩]

theorem scan_crowdedCall : Token.scan crowdedCall = crowdedCallTokens := by decide +kernel

theorem ofTokens_crowdedCall_earliest :
    (∀ t ∈ Token.scan crowdedCall, t.kind ≠ .invalid) ∧ isProgram (Token.scan crowdedCall) = false ∧
      ofTokens (Token.scan crowdedCall) = .error (.diagnostic ⟨.parenthesisEnd 12, 5⟩) ∧
      Viable (.tier .or) (crowdedCallTokens.take 8) ∧
      ¬Viable (.tier .or) (crowdedCallTokens.take 9) := by
  have hv : ∀ t ∈ Token.scan crowdedCall, t.kind ≠ .invalid := by
    rw [scan_crowdedCall]
    decide
  have hp : isProgram (Token.scan crowdedCall) = false := by
    rw [scan_crowdedCall]
    rfl
  have hstop : ofTokens (Token.scan crowdedCall) =
      .error (.diagnostic ⟨.parenthesisEnd 12, 5⟩) := by
    rw [scan_crowdedCall]
    rfl
  obtain ⟨d, k, hd, -, hk, -, hviable, hnot⟩ :=
    ofTokens_scan_earliest crowdedCall hv hp hstop (by rintro _ ⟨⟩; decide)
  cases hd
  rw [scan_crowdedCall] at hk hviable hnot
  obtain rfl : 8 = k := (hk 8 _ rfl).1 rfl
  exact ⟨hv, hp, hstop, hviable, hnot⟩

end MiniC.Parse

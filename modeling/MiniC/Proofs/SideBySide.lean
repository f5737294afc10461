import Mathlib.Data.List.Forall2
import MiniC.Proofs.Reading

/-! Reading two lists of tokens side by side. Tokens of the one are paired with tokens of the other,
of the same kind and the same text, and a pairing says which ways to stop go together. Every
production then does the same on both sides: it gives the same value and goes on with paired tokens,
or it stops in ways that go together. Main statement: `Pairing.ofTokens_ends`, for whatever is
paired and whatever is asked of the stops. -/

namespace MiniC.Parse

namespace Cursor

theorem endMark_kind (ts : List Token) : (endMark ts).kind = .eof := by
  fun_induction endMark ts with
  | case1 => rfl
  | case2 => rfl
  | case3 _ _ _ ih => exact ih

theorem getLast?_withEnd (ts : List Token) : (withEnd ts).getLast?.map (·.kind) = some .eof := by
  unfold withEnd
  split
  · assumption
  · rw [List.getLast?_concat, Option.map_some, endMark_kind]

theorem withEnd_withEnd (ts : List Token) : withEnd (withEnd ts) = withEnd ts := by
  rw [withEnd, if_pos (getLast?_withEnd ts)]

theorem tokens_ofTokens (ts : List Token) : (ofTokens ts).tokens = withEnd ts := by
  unfold ofTokens
  split
  · exact absurd (by assumption) (withEnd_ne_nil ts)
  · exact Eq.symm (by assumption)

end Cursor

/-- Causes that stand for themselves: they quote no second place, and are not about the number that
a token writes. -/
def Cause.isPlain : Cause → Bool
  | .longNumber | .parenthesisEnd _ => false
  | _ => true

structure Pairing where
  token : Token → Token → Prop
  stop : Stop → Stop → Prop
  kind : ∀ {t u : Token}, token t u → u.kind = t.kind
  text : ∀ {t u : Token}, token t u → u.text = t.text
  diagnostic : ∀ {t u : Token} {cause : Cause}, token t u → cause.isPlain = true →
    stop (.diagnostic ⟨cause, t.pos⟩) (.diagnostic ⟨cause, u.pos⟩)
  longNumber : ∀ {t u : Token}, token t u → t.kind = .number → Parser.number? t.text = none →
    stop (.diagnostic ⟨.longNumber, t.pos⟩) (.diagnostic ⟨.longNumber, u.pos⟩)
  parenthesisEnd : ∀ {t u t' u' : Token}, token t u → token t' u' →
    stop (.diagnostic ⟨.parenthesisEnd t'.pos, t.pos⟩) (.diagnostic ⟨.parenthesisEnd u'.pos, u.pos⟩)
  noAssignment : ∀ {t u : Token}, token t u → t.kind = .assign ∨ t.kind = .compoundAssign →
    AssignOp.ofSymbol? t.text = none → stop (.noOperator .assign t.text)
      (.noOperator .assign t.text)
  noUpdate : ∀ {t u : Token}, token t u → t.kind = .increment ∨ t.kind = .decrement →
    UpdateOp.ofSymbol? t.text = none → stop (.noOperator .update t.text)
      (.noOperator .update t.text)

namespace Pairing

variable {P : Pairing}

def Cursors (P : Pairing) (c d : Cursor) : Prop := List.Forall₂ P.token c.tokens d.tokens

theorem Cursors.current {c d : Cursor} (h : P.Cursors c d) : P.token c.current d.current :=
  (List.forall₂_cons.1 h).1

theorem Cursors.rest {c d : Cursor} (h : P.Cursors c d) : List.Forall₂ P.token c.rest d.rest :=
  (List.forall₂_cons.1 h).2

theorem Cursors.next {c d : Cursor} (h : P.Cursors c d) : P.Cursors c.next d.next := by
  obtain ⟨t, ts⟩ := c
  obtain ⟨u, us⟩ := d
  cases h.rest with
  | nil => exact h
  | cons htu hrest => exact .cons htu hrest

def Ends (P : Pairing) {α β : Type} (R : α → β → Prop) :
    Except Stop (α × Cursor) → Except Stop (β × Cursor) → Prop
  | .ok (x, c), .ok (y, d) => R x y ∧ P.Cursors c d
  | .error s, .error s' => P.stop s s'
  | _, _ => False

/-- From two cursors, if they are paired, two parsers end in ways that go together. -/
def Reads (P : Pairing) {α β : Type} (R : α → β → Prop) (p : Parser α) (q : Parser β)
    (c d : Cursor) : Prop :=
  P.Cursors c d → P.Ends R (p c) (q d)

def Alike (P : Pairing) {α : Type} (p : Parser α) : Prop := ∀ c d, P.Reads Eq p p c d

section Steps

open MiniC.Parse.Parser

variable {α β α' β' : Type} {R : α → β → Prop} {S : α' → β' → Prop} {c d : Cursor}

theorem Reads.bind {p : Parser α} {q : Parser β} {f : α → Parser α'} {g : β → Parser β'}
    (h : P.Reads R p q c d) (hf : ∀ x y, R x y → ∀ c d, P.Reads S (f x) (g y) c d) :
    P.Reads S (p >>= f) (q >>= g) c d := by
  intro hcd
  have hpq := h hcd
  cases hp : p c with
  | error s =>
    cases hq : q d with
    | error s' =>
      rw [hp, hq] at hpq
      rw [bind_of_error hp f, bind_of_error hq g]
      exact hpq
    | ok r' =>
      rw [hp, hq] at hpq
      exact hpq.elim
  | ok r =>
    cases hq : q d with
    | error s' =>
      rw [hp, hq] at hpq
      exact hpq.elim
    | ok r' =>
      rw [hp, hq] at hpq
      rw [bind_of_ok hp f, bind_of_ok hq g]
      exact hf r.1 r'.1 hpq.1 r.2 r'.2 hpq.2

theorem reads_get {f : Cursor → Parser α} {g : Cursor → Parser β}
    (h : P.Cursors c d → P.Reads R (f c) (g d) c d) : P.Reads R (get >>= f) (get >>= g) c d :=
  fun hcd => h hcd hcd

theorem reads_current {f : Token → Parser α} {g : Token → Parser β}
    (h : P.token c.current d.current → P.Reads R (f c.current) (g d.current) c d) :
    P.Reads R (current >>= f) (current >>= g) c d := fun hcd => h hcd.current hcd

theorem reads_taken {f : Token → Parser α} {g : Token → Parser β}
    (h : P.token c.current d.current → P.Reads R (f c.current) (g d.current) c.next d.next) :
    P.Reads R (advance >>= f) (advance >>= g) c d := fun hcd => h hcd.current hcd.next

theorem Alike.bind {p : Parser α} {f : α → Parser β} (h : P.Alike p) (hf : ∀ x, P.Alike (f x)) :
    P.Alike (p >>= f) := by
  intro c d
  refine (h c d).bind ?_
  rintro x y rfl
  exact hf x

theorem alike_pure (x : α) : P.Alike (pure x) := fun _ _ hcd => ⟨rfl, hcd⟩

theorem Alike.map {p : Parser α} (h : P.Alike p) (g : α → β) :
    P.Alike (p >>= fun x => pure (g x)) :=
  h.bind fun x => alike_pure (g x)

theorem alike_fail {cause : Cause} (hc : cause.isPlain = true) : P.Alike (fail cause : Parser α) :=
  fun _ _ hcd => P.diagnostic hcd.current hc

theorem alike_current {f : Token → Parser α} (heq : ∀ {t u : Token}, P.token t u → f u = f t)
    (h : ∀ c d, P.Reads Eq (f c.current) (f c.current) c d) : P.Alike (current >>= f) := by
  intro c d
  refine reads_current fun htu => ?_
  rw [heq htu]
  exact h c d

theorem alike_taken {f : Token → Parser α} (heq : ∀ {t u : Token}, P.token t u → f u = f t)
    (h : ∀ t, P.Alike (f t)) : P.Alike (advance >>= f) := by
  intro c d
  refine reads_taken fun htu => ?_
  rw [heq htu]
  exact h c.current c.next d.next

theorem Alike.skip {p : Parser α} (h : P.Alike p) : P.Alike (advance >>= fun _ => p) :=
  alike_taken (fun _ => rfl) fun _ => h

theorem alike_expect (k : Token.Kind) {cause : Cause} (hc : cause.isPlain = true)
    {f : Token → Parser α} (heq : ∀ {t u : Token}, P.token t u → f u = f t)
    (h : ∀ t, P.Alike (f t)) :
    P.Alike (expect k cause >>= f) := by
  intro c d hcd
  have hkind := P.kind hcd.current
  change P.Ends Eq
    ((if c.current.kind = k then advance else fail cause : Parser Token) >>= f |>.run c)
    ((if d.current.kind = k then advance else fail cause : Parser Token) >>= f |>.run d)
  rw [hkind]
  split
  · exact alike_taken heq h c d hcd
  · exact P.diagnostic hcd.current hc

theorem Alike.behind {p : Parser α} (h : P.Alike p) (k : Token.Kind) {cause : Cause}
    (hc : cause.isPlain = true) :
    P.Alike (expect k cause >>= fun _ => p) := alike_expect k hc (fun _ => rfl) fun _ => h

theorem alike_accept (k : Token.Kind) : P.Alike (accept k) := by
  refine alike_current (fun htu => by rw [P.kind htu]) fun c d => ?_
  split
  · exact (alike_pure true).skip c d
  · exact alike_pure false c d

theorem token_is (k : Token.Kind) (text : String) {t u : Token} (h : P.token t u) :
    u.is k text = t.is k text := by
  rw [Token.is, Token.is, P.kind h, P.text h]

theorem alike_acceptText (k : Token.Kind) (text : String) : P.Alike (acceptText k text) := by
  refine alike_current (fun htu => by rw [token_is k text htu]) fun c d => ?_
  split
  · exact (alike_pure true).skip c d
  · exact alike_pure false c d

theorem reads_many {more : Token → Bool} {item : Parser α} {item' : Parser β}
    (hmore : ∀ {t u : Token}, P.token t u → more u = more t) (h : ∀ c d, P.Reads R item item' c d)
    (c d : Cursor) :
    P.Reads (List.Forall₂ R) (many more item) (many more item') c d := by
  -- The tokens that are left bound the rounds; they are paired, so neither side runs out before the
  -- other.
  have hover : ∀ {m m' : List Token}, List.Forall₂ P.token m m' → ∀ c d,
      P.Reads (List.Forall₂ R) (manyOver more item m) (manyOver more item' m') c d := by
    intro m m' hm
    induction hm with
    | nil => exact fun c d hcd => ⟨.nil, hcd⟩
    | cons _ _ ih =>
      intro c d
      rw [manyOver, manyOver]
      refine reads_current fun htu => ?_
      rw [hmore htu]
      split
      · refine (h c d).bind fun x y hxy c d => (ih c d).bind fun xs ys hxs c d hcd => ?_
        exact ⟨.cons hxy hxs, hcd⟩
      · exact fun hcd => ⟨.nil, hcd⟩
  exact reads_get fun hcd => hover hcd.rest c d

theorem alike_many {more : Token → Bool} {item : Parser α}
    (hmore : ∀ {t u : Token}, P.token t u → more u = more t) (h : P.Alike item) :
    P.Alike (many more item) := by
  intro c d
  have hreads := reads_many hmore h c d
  rwa [List.forall₂_eq_eq_eq] at hreads

theorem alike_commaList {item : Parser α} (h : P.Alike item) (close : Token.Kind) :
    P.Alike (commaList close item) := by
  have hover : ∀ {m m' : List Token}, List.Forall₂ P.token m m' → ∀ c d,
      P.Reads Eq (commaListOver close item m) (commaListOver close item m') c d := by
    intro m m' hm
    induction hm with
    | nil => exact alike_pure []
    | cons _ _ ih =>
      intro c d
      rw [commaListOver, commaListOver]
      refine reads_current fun htu => ?_
      rw [P.kind htu]
      split
      · exact alike_pure [] c d
      · refine (h c d).bind ?_
        rintro x _ rfl c d
        refine (alike_accept .comma c d).bind ?_
        rintro b _ rfl c d
        cases b with
        | false => exact alike_pure [x] c d
        | true =>
          refine (ih c d).bind ?_
          rintro xs _ rfl
          exact alike_pure (x :: xs)
  exact fun c d => reads_get fun hcd => hover hcd.rest c d

end Steps

section Expressions

open MiniC.Parse.Parser

variable {c d : Cursor} {t u : Token} {expr operand : Parser Expr} (he : P.Alike expr)
  (ho : P.Alike operand)

theorem reads_number (h : P.token t u) (hk : t.kind = .number) :
    P.Reads Eq (number t) (number u) c d := by
  intro hcd
  unfold number
  rw [P.text h]
  cases hn : number? t.text with
  | some n => exact ⟨rfl, hcd⟩
  | none => exact P.longNumber h hk hn

theorem alike_updateOp (h : P.token t u) (hk : t.kind = .increment ∨ t.kind = .decrement) :
    P.Alike (updateOp t) := by
  intro c d hcd
  unfold updateOp
  cases hop : UpdateOp.ofSymbol? t.text with
  | some op => exact ⟨rfl, hcd⟩
  | none => exact P.noUpdate h hk hop

theorem updateOp_eq (h : P.token t u) : updateOp u = updateOp t :=
  by rw [updateOp, updateOp, P.text h]

theorem operator?_eq (tier : Tier) (h : P.token t u) : tier.operator? u = tier.operator? t := by
  rw [Tier.operator?, Tier.operator?, P.kind h, P.text h]

include ho in
theorem alike_chain (tier : Tier) : P.Alike (chain tier.operator? operand) := by
  have hover : ∀ {m m' : List Token}, List.Forall₂ P.token m m' → ∀ e c d,
      P.Reads Eq (chainOver tier.operator? operand m e)
        (chainOver tier.operator? operand m' e) c d := by
    intro m m' hm
    induction hm with
    | nil => exact fun e => alike_pure e
    | cons _ _ ih =>
      intro e c d
      rw [chainOver, chainOver]
      refine reads_current fun htu => ?_
      rw [operator?_eq tier htu]
      cases tier.operator? c.current with
      | none => exact alike_pure e c d
      | some op =>
        refine reads_taken fun _ => (ho _ _).bind ?_
        rintro right _ rfl
        exact ih (.binary op e right)
  refine ho.bind fun e c d => ?_
  exact reads_get fun hcd => hover hcd.rest e c d

theorem alike_power {base exponent : Parser Expr} (hb : P.Alike base) (hx : P.Alike exponent) :
    P.Alike (power base exponent) := by
  refine hb.bind fun left => (alike_acceptText .operator "^").bind fun b => ?_
  cases b with
  | true => exact hx.map _
  | false => exact alike_pure left

include he

theorem alike_index : P.Alike (index expr) :=
  he.bind fun i => (alike_pure i).behind .rbracket rfl

theorem alike_named : P.Alike (named expr) := by
  refine alike_taken (fun htu => by rw [P.text htu]) fun x =>
    (alike_accept .lbracket).bind fun b => ?_
  cases b with
  | true => exact (alike_index he).map _
  | false =>
    refine (alike_accept .lparen).bind fun b => ?_
    cases b with
    | true =>
      exact (alike_commaList he .rparen).bind fun args => (alike_pure _).behind .rparen rfl
    | false =>
      refine alike_current (fun htu => by rw [P.kind htu]) fun c d => ?_
      split
      · rename_i hk
        refine reads_taken fun htu => ?_
        rw [updateOp_eq htu]
        exact (alike_updateOp htu (by simpa using hk)).map _ _ _
      · exact alike_pure _ c d

theorem alike_parenthesised : P.Alike (parenthesised expr) := by
  intro c d
  refine reads_taken fun hopening => (he _ _).bind ?_
  rintro e _ rfl c' d'
  refine reads_current fun hclosing => ?_
  rw [P.kind hclosing]
  split
  · exact (alike_pure e).skip c' d'
  -- The diagnostic quotes where the parenthesis was opened.
  · exact fun _ => P.parenthesisEnd hopening hclosing

theorem alike_braces : P.Alike (braces expr) :=
  ((alike_commaList he .rbrace).bind fun _ => (alike_pure _).behind .rbrace rfl).skip

omit he

theorem reads_updated (hk : c.current.kind = .increment ∨ c.current.kind = .decrement) :
    P.Reads Eq updated updated c d := by
  refine reads_taken fun htu => ?_
  rw [P.text htu, updateOp_eq htu]
  refine alike_expect .identifier rfl (fun hxy => by rw [P.text hxy]) (fun x => ?_) c.next d.next
  exact (alike_updateOp htu hk).map _

include ho

theorem alike_signed (make : Expr → Expr) : P.Alike (signed make operand) :=
  (ho.map make).skip

omit ho

theorem alike_literal (make : String → Expr) : P.Alike (literal make) :=
  alike_taken (fun htu => by rw [P.text htu]) fun t => alike_pure (make t.text)

include ho

theorem alike_operatorExpr (text : String) : P.Alike (operatorExpr text operand) := by
  unfold operatorExpr
  split
  · exact alike_signed ho _
  split
  · exact alike_signed ho _
  split
  · exact alike_signed ho _
  · exact alike_fail rfl

include he

theorem alike_primary : P.Alike (primary expr operand) := by
  refine alike_current (fun htu => by rw [P.kind htu, P.text htu]) fun c d => ?_
  split
  · rename_i hk
    exact reads_taken fun htu => (reads_number htu hk).bind fun n _ hn =>
      hn ▸ alike_pure (Expr.number n 0)
  · exact alike_literal .string c d
  · exact alike_literal .char c d
  · exact reads_updated (.inl (by assumption))
  · exact reads_updated (.inr (by assumption))
  · split
    · exact alike_signed ho _ c d
    · exact alike_fail rfl c d
  · exact alike_signed ho _ c d
  · exact alike_named he c d
  · exact alike_parenthesised he c d
  · exact alike_fail rfl c d
  · exact alike_braces he c d
  · exact alike_operatorExpr ho _ c d
  · exact alike_fail rfl c d
  · exact alike_fail rfl c d

omit he ho

theorem alike_expression (n : Nat) (tier : Tier) : P.Alike (expression n tier) := by
  induction n generalizing tier with
  | zero => exact alike_fail rfl
  | succ n ih =>
    cases tier with
    | primary => exact alike_primary (ih .or) (ih .primary)
    | power => exact alike_power (ih .primary) (ih .power)
    -- The tiers between are chains of the tier below.
    | _ => exact alike_chain (ih _) _

end Expressions

section Statements

open MiniC.Parse.Parser

variable {c d : Cursor} {t u : Token} {expr : Parser Expr} {stmt : Parser Stmt} (he : P.Alike expr)
  (hs : P.Alike stmt)

theorem isTypeWord_eq (h : P.token t u) : isTypeWord u = isTypeWord t := by
  rw [isTypeWord, isTypeWord, P.kind h, P.text h]

theorem isBlockEnd_eq (h : P.token t u) : isBlockEnd u = isBlockEnd t :=
  by rw [isBlockEnd, isBlockEnd, P.kind h]

theorem isCaseEnd_eq (h : P.token t u) : isCaseEnd u = isCaseEnd t := by
  rw [isCaseEnd, isCaseEnd, isBlockEnd_eq h, token_is _ _ h, token_is _ _ h]

theorem startsExpression_eq (h : P.token t u) : startsExpression u = startsExpression t := by
  rw [startsExpression, startsExpression, P.kind h, P.text h]

theorem reads_words {more : Token → Bool} (hmore : ∀ {t u : Token}, P.token t u → more u = more t)
    (c d : Cursor) :
    P.Reads (List.Forall₂ P.token) (many more advance) (many more advance) c d := by
  apply reads_many hmore
  intro c d hcd
  exact ⟨hcd.current, hcd.next⟩

theorem alike_typeName : P.Alike typeName := by
  refine fun c d => (reads_words isTypeWord_eq c d).bind ?_
  intro ts us h
  have htexts : ts.map (·.text) = us.map (·.text) := by
    induction h with
    | nil => rfl
    | cons htu _ ih => rw [List.map_cons, List.map_cons, P.text htu, ih]
  rw [htexts]
  exact alike_pure _

theorem alike_stars : P.Alike stars := by
  refine fun c d => (reads_words (token_is .operator "*") c d).bind ?_
  intro ts us h
  rw [h.length_eq]
  exact alike_pure _

theorem alike_parameter : P.Alike parameter := by
  refine alike_current (fun htu => by rw [isTypeWord_eq htu]) fun c d => ?_
  split
  · exact alike_fail rfl c d
  · refine (alike_typeName.bind fun type => alike_stars.bind fun depth => ?_) c d
    exact alike_expect .identifier rfl (fun htu => by rw [P.text htu]) fun x => alike_pure _

theorem alike_parameters : P.Alike parameters := by
  have hover : ∀ {m m' : List Token}, List.Forall₂ P.token m m' → ∀ c d,
      P.Reads Eq (parametersOver m) (parametersOver m') c d := by
    intro m m' hm
    induction hm with
    | nil => exact alike_pure []
    | cons _ _ ih =>
      intro c d
      refine (alike_parameter c d).bind ?_
      rintro p _ rfl c d
      refine (alike_accept .comma c d).bind ?_
      rintro b _ rfl c d
      cases b with
      | false => exact alike_pure [p] c d
      | true =>
        refine (ih c d).bind ?_
        rintro ps _ rfl
        exact alike_pure (p :: ps)
  intro c d
  refine reads_get fun hcd => ?_
  -- `void` is a list of its own only if the parenthesis is closed right after it.
  rw [token_is _ _ hcd.current, P.kind hcd.current, P.kind hcd.next.current]
  split
  · exact (alike_pure []).skip c d
  split
  · exact alike_pure [] c d
  · exact hover hcd c d

include hs

theorem alike_block : P.Alike (block stmt) := by
  have hbody : P.Alike (many (!isBlockEnd ·) stmt) :=
    alike_many (fun htu => by rw [isBlockEnd_eq htu]) hs
  exact (hbody.bind fun body => (alike_pure body).behind .rbrace rfl).skip

theorem alike_function (type name : String) (depth : Nat) :
    P.Alike (function stmt type name depth) := by
  refine (alike_parameters.bind fun params => Alike.behind ?_ .rparen rfl).skip
  refine alike_current (fun htu => by rw [P.kind htu]) fun c d => ?_
  split
  · exact (alike_block hs).map _ c d
  · exact alike_fail rfl c d

omit hs

theorem alike_arrayLength : P.Alike arrayLength := by
  refine alike_current (fun htu => by rw [P.kind htu]) fun c d => ?_
  split
  · rename_i hk
    exact reads_taken fun htu => (reads_number htu hk).bind fun n _ hn => hn ▸ alike_pure (some n)
  · exact alike_pure none c d

theorem alike_arrayPart : P.Alike arrayPart := by
  refine (alike_accept .lbracket).bind fun b => ?_
  cases b with
  | true => exact alike_arrayLength.bind fun size => (alike_pure (some size)).behind .rbracket rfl
  | false => exact alike_pure none

include he

theorem alike_initialiser : P.Alike (initialiser expr) := by
  refine (alike_accept .assign).bind fun b => ?_
  cases b with
  | true => exact he.map some
  | false => exact alike_pure none

theorem alike_variableDeclaration (type name : String) (depth : Nat) :
    P.Alike (variableDeclaration expr type name depth) :=
  alike_arrayPart.bind fun _ => (alike_initialiser he).bind fun _ =>
    (alike_pure _).behind .semicolon rfl

include hs in
theorem alike_declaration : P.Alike (declaration expr stmt) := by
  refine alike_typeName.bind fun type => alike_stars.bind fun depth => ?_
  refine alike_expect .identifier rfl (fun htu => by rw [P.text htu]) fun x => ?_
  refine alike_current (fun htu => by rw [P.kind htu]) fun c d => ?_
  split
  · exact alike_function hs type x.text depth c d
  · exact alike_variableDeclaration he type x.text depth c d

omit he in
theorem alike_assignOp (h : P.token t u) (hk : t.kind = .assign ∨ t.kind = .compoundAssign) :
    P.Alike (assignOp t) := by
  intro c d hcd
  unfold assignOp
  cases hop : AssignOp.ofSymbol? t.text with
  | some op => exact ⟨rfl, hcd⟩
  | none => exact P.noAssignment h hk hop

omit he in
theorem assignOp_eq (h : P.token t u) : assignOp u = assignOp t :=
  by rw [assignOp, assignOp, P.text h]

theorem alike_target : P.Alike (target expr) := by
  refine alike_taken (fun htu => by rw [P.text htu]) fun x =>
    (alike_accept .lbracket).bind fun b => ?_
  cases b with
  | true => exact (alike_index he).map _
  | false => exact alike_pure _

/-- What turns out to be no assignment is read again from cursors that are paired too. -/
theorem reads_assignment {start start' : Cursor} (hstart : P.Cursors start start')
    (place : Target) (c d : Cursor) :
    P.Reads Eq (assignment expr start place) (assignment expr start' place) c d := by
  refine reads_current fun htu => ?_
  rw [P.kind htu]
  split
  · rename_i hk
    refine reads_taken fun htu => ?_
    rw [assignOp_eq htu]
    exact (alike_assignOp htu (by simpa using hk)).bind (fun op => he.map _) _ _
  · exact fun _ => he.map Stmt.expr start start' hstart

theorem alike_simple : P.Alike (simple expr) := by
  refine fun c d => reads_get fun hstart => ?_
  rw [P.kind hstart.current]
  split
  · refine (alike_target he c d).bind ?_
    rintro place _ rfl
    exact reads_assignment he hstart place
  · exact he.map Stmt.expr c d

theorem alike_simpleStatement : P.Alike (simpleStatement expr) :=
  (alike_simple he).bind fun s => (alike_pure s).behind .semicolon rfl

theorem alike_condition (word : String) : P.Alike (condition expr word) :=
  Alike.behind (he.bind fun e => (alike_pure e).behind .rparen rfl) .lparen rfl

omit he in
theorem alike_before {α : Type} {p : Parser α} (h : P.Alike p) (close : Token.Kind) :
    P.Alike (before close p) := by
  refine alike_current (fun htu => by rw [P.kind htu]) fun c d => ?_
  split
  · exact alike_pure none c d
  · exact h.map some c d

theorem alike_returnStatement : P.Alike (returnStatement expr) :=
  ((alike_before he .semicolon).bind fun _ => (alike_pure _).behind .semicolon rfl).skip

omit he in
theorem alike_jump (make : Stmt) : P.Alike (jump make) :=
  alike_taken (fun htu => by rw [P.text htu]) fun _ => (alike_pure make).behind .semicolon rfl

include hs

theorem alike_branch : P.Alike (branch expr stmt) := by
  refine ((alike_condition he "if").bind fun _ => hs.bind fun yes => ?_).skip
  refine (alike_acceptText .keyword "else").bind fun b => ?_
  cases b with
  | true => exact hs.map _
  | false => exact alike_pure _

theorem alike_whileLoop : P.Alike (whileLoop expr stmt) :=
  ((alike_condition he "while").bind fun _ => hs.map _).skip

theorem alike_doLoop : P.Alike (doLoop expr stmt) := by
  refine (hs.bind fun body => (alike_acceptText .keyword "while").bind fun b => ?_).skip
  cases b with
  | true => exact (alike_condition he "while").bind fun _ => (alike_pure _).behind .semicolon rfl
  | false => exact alike_fail rfl

theorem alike_forInit : P.Alike (forInit expr stmt) := by
  refine (alike_accept .semicolon).bind fun b => ?_
  cases b with
  | true => exact alike_pure none
  | false =>
    refine alike_current (fun htu => by rw [isTypeWord_eq htu]) fun c d => ?_
    split
    · exact (alike_declaration he hs).map some c d
    · exact (alike_simpleStatement he).map some c d

theorem alike_forLoop : P.Alike (forLoop expr stmt) := by
  refine Alike.skip (Alike.behind ((alike_forInit he hs).bind fun init => ?_) .lparen rfl)
  refine (alike_before he .semicolon).bind fun e => Alike.behind ?_ .semicolon rfl
  exact (alike_before (alike_simple he) .rparen).bind fun step => (hs.map _).behind .rparen rfl

omit he in
theorem alike_labelled {cause : Cause} (hc : cause.isPlain = true) :
    P.Alike (labelled stmt cause) := by
  have hend : P.Alike labelEnd := by
    refine (alike_accept .colon).bind fun b => ?_
    cases b with
    | true => exact alike_pure true
    | false => exact alike_accept .semicolon
  refine hend.bind fun b => ?_
  cases b with
  | true => exact alike_many (fun htu => by rw [isCaseEnd_eq htu]) hs
  | false => exact alike_fail hc

theorem reads_sectionsOver {m m' : List Token} (hm : List.Forall₂ P.token m m')
    (cases : List SwitchCase) (otherwise : Option (List Stmt)) (c d : Cursor) :
    P.Reads Eq (sectionsOver expr stmt m cases otherwise)
      (sectionsOver expr stmt m' cases otherwise) c d := by
  induction hm generalizing cases otherwise c d with
  | nil => exact alike_pure (cases, otherwise) c d
  | cons _ _ ih =>
    rw [sectionsOver, sectionsOver]
    refine reads_current fun htu => ?_
    rw [isBlockEnd_eq htu, token_is _ _ htu, token_is _ _ htu, P.text htu]
    split
    · exact alike_pure (cases, otherwise) c d
    split
    · refine reads_taken fun _ => (he _ _).bind ?_
      rintro value _ rfl c d
      refine (alike_labelled hs rfl c d).bind ?_
      rintro body _ rfl
      exact ih _ otherwise
    split
    · split
      · exact alike_fail rfl c d
      · refine reads_taken fun _ => (alike_labelled hs rfl _ _).bind ?_
        rintro body _ rfl
        exact ih cases (some body)
    · exact alike_fail rfl c d

theorem alike_switch : P.Alike (switch expr stmt) := by
  refine Alike.skip (Alike.behind ?_ .lparen rfl)
  refine alike_current (fun htu => by rw [P.kind htu]) fun c d => ?_
  split
  · exact alike_fail rfl c d
  · refine (he.bind fun test => Alike.behind (Alike.behind ?_ .lbrace rfl) .rparen rfl) c d
    refine fun c d => reads_get fun hcd => (reads_sectionsOver he hs hcd.rest [] none c d).bind ?_
    rintro sections _ rfl
    exact (alike_pure _).behind .rbrace rfl

theorem alike_plainStatement : P.Alike (plainStatement expr stmt) := by
  refine alike_current (fun htu => by rw [P.kind htu, P.text htu, startsExpression_eq htu])
    fun c d => ?_
  split
  · exact (alike_block hs).map _ c d
  split
  · exact (alike_pure _).skip c d
  split
  · exact alike_simpleStatement he c d
  · exact alike_fail rfl c d

theorem alike_worded : ∀ p ∈ worded expr stmt, P.Alike p.2 := by
  simp only [worded, List.forall_mem_cons, List.not_mem_nil, false_implies, implies_true, and_true]
  exact ⟨alike_branch he hs, alike_whileLoop he hs, alike_doLoop he hs, alike_forLoop he hs,
    alike_switch he hs, alike_returnStatement he, alike_jump _, alike_jump _⟩

theorem alike_statementOf : P.Alike (statementOf expr stmt) := by
  refine alike_current (fun htu => by rw [isTypeWord_eq htu, P.kind htu, P.text htu]) fun c d => ?_
  split
  · exact alike_declaration he hs c d
  split
  · cases hw : (worded expr stmt).lookup c.current.text with
    | none => exact alike_plainStatement he hs c d
    | some p =>
      obtain ⟨l₁, l₂, hl, -⟩ := List.lookup_eq_some_iff.1 hw
      exact alike_worded he hs (c.current.text, p) (by rw [hl]; simp) c d
  · exact alike_plainStatement he hs c d

omit he hs

theorem alike_statement (n : Nat) : P.Alike (statement n) := by
  induction n with
  | zero => exact alike_fail rfl
  | succ n ih => exact alike_statementOf (alike_expression n .or) ih

theorem alike_item (n : Nat) : P.Alike (item n) := by
  refine alike_current (fun htu => by rw [P.kind htu, P.text htu]) fun c d => ?_
  split
  · exact (alike_pure _).skip c d
  · exact alike_statement n c d

theorem alike_wholeTree (n : Nat) (isProgram : Bool) : P.Alike (wholeTree n isProgram) := by
  have htree : P.Alike (tree n isProgram) := by
    cases isProgram with
    | true => exact (alike_many (fun htu => by rw [P.kind htu]) (alike_item n)).map Tree.program
    | false => exact (alike_expression n .or).map Tree.expr
  refine htree.bind fun t => ?_
  refine alike_current (fun htu => by rw [P.kind htu, P.text htu]) fun c d => ?_
  split
  · exact alike_pure t c d
  · exact alike_fail rfl c d

end Statements

theorem find?_invalid {ts us : List Token} (h : List.Forall₂ P.token ts us) :
    (ts.find? (·.kind = .invalid) = none ∧ us.find? (·.kind = .invalid) = none) ∨
      ∃ t u, P.token t u ∧ ts.find? (·.kind = .invalid) = some t ∧
      us.find? (·.kind = .invalid) = some u := by
  induction h with
  | nil => exact .inl ⟨rfl, rfl⟩
  | @cons t u ts us htu _ ih =>
    have hkind := P.kind htu
    by_cases hk : t.kind = .invalid
    · exact .inr ⟨t, u, htu, by simp [hk], by simp [hkind, hk]⟩
    · simpa [List.find?_cons, hkind, hk] using ih

theorem isProgram_eq {ts us : List Token} (h : List.Forall₂ P.token ts us) :
    isProgram us = isProgram ts := by
  induction h with
  | nil => rfl
  | cons htu _ ih =>
    rw [isProgram, List.any_cons, isProgramMarker, P.kind htu]
    exact congrArg _ ih

/-- Paired tokens, with the marks at their ends, are read as the same tree, or reading them stops in
ways that go together. -/
theorem ofTokens_ends {ts us : List Token}
    (h : List.Forall₂ P.token (Cursor.withEnd ts) (Cursor.withEnd us)) :
    (∃ tree, ofTokens ts = .ok tree ∧ ofTokens us = .ok tree) ∨
      ∃ s s', ofTokens ts = .error s ∧ ofTokens us = .error s' ∧ P.stop s s' := by
  unfold ofTokens
  rcases find?_invalid h with ⟨hts, hus⟩ | ⟨t, u, htu, hts, hus⟩
  · have hcursors : P.Cursors (Cursor.ofTokens (Cursor.withEnd ts))
        (Cursor.ofTokens (Cursor.withEnd us)) := by
      rw [Cursors, Cursor.tokens_ofTokens, Cursor.tokens_ofTokens, Cursor.withEnd_withEnd,
        Cursor.withEnd_withEnd]
      exact h
    have hends := alike_wholeTree budget (isProgram (Cursor.withEnd ts)) _ _ hcursors
    simp only [hts, hus, isProgram_eq h]
    revert hends
    cases Parser.wholeTree budget _ (Cursor.ofTokens (Cursor.withEnd ts)) with
    | error s =>
      cases Parser.wholeTree budget _ (Cursor.ofTokens (Cursor.withEnd us)) with
      | error s' => exact fun hends => .inr ⟨s, s', rfl, rfl, hends⟩
      | ok r' => exact False.elim
    | ok r =>
      cases Parser.wholeTree budget _ (Cursor.ofTokens (Cursor.withEnd us)) with
      | error s' => exact False.elim
      | ok r' => exact fun hends => .inl ⟨r.1, rfl, congrArg Except.ok hends.1.symm⟩
  · simp only [hts, hus, P.text htu]
    exact .inr ⟨_, _, rfl, rfl, P.diagnostic htu rfl⟩

end Pairing

end MiniC.Parse

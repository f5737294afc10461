import MiniC.Proofs.Completeness

/-! Assignments, parameters and declarations of variables are read as the grammar derives them. A
text that begins like an assignment and is none is read again: what is behind the place is then
neither a bracket nor an operator of assignment. -/

namespace MiniC.Parse.Parser

open Grammar

section Simple

def carriers : List Token.Kind := [.lbracket, .assign, .compoundAssign]

def NotCarried (v : List Token) : Prop := v = [] ∨ ∃ t v', v = t :: v' ∧ t.kind ∉ carriers

theorem notCarried_cons {t : Token} (ht : t.kind ∉ carriers) (v : List Token) :
    NotCarried (t :: v) :=
  .inr ⟨t, v, rfl, ht⟩

theorem NotCarried.append {u v : List Token} (hu : NotCarried u) (hv : NotCarried v) :
    NotCarried (u ++ v) := by
  rcases hu with rfl | ⟨t, u, rfl, ht⟩
  · exact hv
  · exact notCarried_cons ht _

def Led : Phrase → List Token → Prop
  | .tier _ _, w => ∀ x w', w = x :: w' → x.kind = .identifier →
      ∃ place u v, w = u ++ v ∧ Place place u ∧ NotCarried v
  | .operands _ _ _, w => NotCarried w
  | .list _, _ => True

theorem notCarried_operator {tier : Tier} {t : Token} {op : BinaryOp}
    (h : tier.operator? t = some op) (v : List Token) : NotCarried (t :: v) := by
  refine notCarried_cons ?_ v
  rw [kind_of_operator? h]
  cases tier <;> decide

theorem Led.append {tier tier' : Tier} {e e' : Expr} {u v : List Token}
    (h : Expression (.tier tier e) u) (hu : Led (.tier tier e) u) (hv : NotCarried v) :
    Led (.tier tier' e') (u ++ v) := by
  intro x w hw hx
  obtain ⟨t, u', rfl, -⟩ := expression_head h
  obtain ⟨rfl, -⟩ := List.cons.inj hw
  obtain ⟨place, p, r, hr, hp, hc⟩ := hu t u' rfl hx
  exact ⟨place, p, r ++ v, by rw [hr, List.append_assoc], hp, hc.append hv⟩

theorem expression_led {phrase : Phrase} {w : List Token} (h : Expression phrase w) :
    Led phrase w := by
  have hother {t : Token} (ht : t.kind ≠ .identifier) {tier : Tier} {e : Expr} (v : List Token) :
      Led (.tier tier e) (t :: v) := by
    intro x w hw hx
    obtain ⟨rfl, -⟩ := List.cons.inj hw
    exact absurd hx ht
  have hname {x : Token} (hx : x.kind = .identifier) {tier : Tier} {e : Expr} {v : List Token}
    (hv : NotCarried v) :
      Led (.tier tier e) (x :: v) :=
    fun _ _ _ _ => ⟨.name x.text, [x], v, rfl, .name hx, hv⟩
  induction h with
  | chain _ hu _ ihu ihv => exact ihu.append hu ihv
  | done => exact .inl rfl
  | operand _ ho _ _ _ _ => exact notCarried_operator ho _
  | base _ ih => exact ih
  | power hu ht _ ihu _ =>
    refine ihu.append hu (notCarried_cons ?_ _)
    rw [(Token.is_iff.1 ht).1]
    decide
  | number hk => exact hother (by rw [hk]; decide) []
  | string hk => exact hother (by rw [hk]; decide) []
  | char hk => exact hother (by rw [hk]; decide) []
  | name hx => exact hname hx (.inl rfl)
  | element hx hl hw hr _ =>
    exact fun _ _ _ _ => ⟨_, _, [], (List.append_nil _).symm, .element hx hl hw hr, .inl rfl⟩
  | call hx hl _ _ _ => exact hname hx (notCarried_cons (by rw [hl]; decide) _)
  | updateAfter hx ht =>
    exact hname hx (notCarried_cons (by rcases ht.1 with h | h <;> rw [h] <;> decide) _)
  | updateBefore ht _ => exact hother (by rcases ht.1 with h | h <;> rw [h] <;> decide) _
  | parentheses hl _ _ _ => exact hother (by rw [hl]; decide) _
  | signed hs _ _ =>
    refine hother ?_ _
    rcases sign?_cases hs with ⟨hk, -⟩ | ⟨hk, -⟩ | ⟨hk, -⟩ <;> rw [hk] <;> decide
  | braces hl _ _ _ => exact hother (by rw [hl]; decide) _
  | nil => trivial
  | last _ _ => trivial
  | cons _ _ _ _ _ => trivial

theorem place_head {place : Target} {u : List Token} (h : Place place u) :
    ∃ x u', u = x :: u' ∧ x.kind = .identifier := by
  cases h with
  | name hx => exact ⟨_, _, rfl, hx⟩
  | element hx _ _ _ => exact ⟨_, _, rfl, hx⟩

theorem admits_target {place : Target} {u : List Token} (h : Place place u) (n : Nat) {c : Cursor}
    (hc : c.current.kind ≠ .lbracket) : Admits (target (expression n .or)) (c.back u) place c := by
  cases h with
  | name hx => exact (admits_advance c _ []).bind ((admits_reject hc).bind (admits_pure _ c))
  | element hx hl hi hr =>
    refine (admits_advance c _ _).bind ((admits_accept hl c _).bind ?_)
    obtain ⟨need, hneed⟩ := exists_complete hi
    exact ((admits_index hneed hr c []).mono fun _ => trivial).bind (admits_pure _ c)

def EndsSimple (t : Token) : Prop := t.kind = .semicolon ∨ t.kind = .rparen

theorem EndsSimple.closes {t : Token} (h : EndsSimple t) (tier : Tier) : Closes tier t := by
  rcases h with h | h
  · exact closes_of_closer h (by decide) tier
  · exact closes_of_closer h (by decide) tier

theorem EndsSimple.not_carrier {t : Token} (h : EndsSimple t) : t.kind ∉ carriers := by
  rcases h with h | h <;> rw [h] <;> decide

theorem NotCarried.current {v : List Token} (h : NotCarried v) {c : Cursor}
    (hc : c.current.kind ∉ carriers) :
    (c.back v).current.kind ∉ carriers := by
  rcases h with rfl | ⟨t, v, rfl, ht⟩
  · exact hc
  · exact ht

theorem ne_of_not_carrier {k k' : Token.Kind} (h : k ∉ carriers) (hk : k' ∈ carriers) : k ≠ k' := by
  rintro rfl
  exact h hk

/-- What is read again is an expression from the start on. -/
theorem admits_rewound {n : Nat} {start c c' : Cursor} {place : Target} {e : Expr}
    (ha : c.current.kind ∉ carriers) (h : Admits (expression n .or) start e c') :
    Admits (assignment (expression n .or) start place) c (.expr e) c' := by
  refine admits_current ?_
  rw [if_neg (by simpa using ⟨ne_of_not_carrier ha (by decide), ne_of_not_carrier ha (by decide)⟩)]
  exact AdmitsIf.bind (p := set start) (.inl rfl) (h.bind (admits_pure _ c'))

theorem admits_simple {s : Stmt} {w : List Token} (h : Simple s w) (n : Nat) {c : Cursor}
    (hc : EndsSimple c.current) : Admits (simple (expression n .or)) (c.back w) s c := by
  refine admits_get ?_
  cases h with
  | @assign t op place e u v hp ht hv =>
    obtain ⟨x, u', rfl, hx⟩ := place_head hp
    have hne : t.kind ≠ .lbracket := by rcases ht.1 with h | h <;> rw [h] <;> decide
    rw [if_pos (show (c.back (x :: u' ++ t :: v)).current.kind = .identifier from hx)]
    rw [Cursor.back_append]
    refine (admits_target hp n (c := c.back (t :: v)) hne).bind (admits_current ?_)
    have hk : (c.back (t :: v)).current.kind = .assign ∨
        (c.back (t :: v)).current.kind = .compoundAssign := ht.1
    rw [if_pos (by simpa using hk)]
    refine (admits_advance c t v).bind ?_
    have hop : Admits (assignOp t) (c.back v) op (c.back v) := by
      unfold assignOp
      rw [ht.2, AssignOp.ofSymbol?_symbol]
      exact admits_pure op _
    exact hop.bind ((expression_complete hv n c (hc.closes _)).bind (admits_pure _ c))
  | @expr e w hw =>
    have hexpr := expression_complete hw n c (hc.closes _)
    split
    -- The place at its start is read first; as nothing carries it on, the whole is read again.
    · rename_i hx
      obtain ⟨t, w', rfl, -⟩ := expression_head hw
      obtain ⟨place, u, v, huv, hp, hv⟩ := expression_led hw t w' rfl hx
      have hcar := hv.current (c := c) hc.not_carrier
      rw [huv, Cursor.back_append]
      rw [huv, Cursor.back_append] at hexpr
      exact (admits_target hp n (ne_of_not_carrier hcar (by decide))).bind
        (admits_rewound hcar hexpr)
    · exact hexpr.bind (admits_pure _ c)

end Simple

section Declarations

theorem admits_while {more : Token → Bool} {w : List Token} (hw : ∀ t ∈ w, more t = true)
    {c : Cursor} (hc : more c.current = false) : Admits (many more advance) (c.back w) w c := by
  have hover (fuel : List Token) (hfuel : w.length ≤ fuel.length) :
      Admits (manyOver more advance fuel) (c.back w) w c := by
    induction w generalizing fuel with
    | nil =>
      cases fuel with
      | nil => exact admits_pure [] c
      | cons t fuel =>
        refine admits_current ?_
        rw [if_neg (show ¬more (c.back []).current =
          true by rw [Cursor.back, hc]; exact Bool.false_ne_true)]
        exact admits_pure [] c
    | cons t w ih =>
      cases fuel with
      | nil => simp at hfuel
      | cons t' fuel =>
        refine admits_current ?_
        rw [if_pos (show more (c.back (t :: w)).current = true from hw t List.mem_cons_self)]
        refine (admits_advance c t w).bind ?_
        exact (ih (fun u hu => hw u (List.mem_cons_of_mem t hu)) fuel
          (Nat.le_of_succ_le_succ hfuel)).bind
          (admits_pure _ c)
  exact admits_get (hover _ (length_le_rest_back c w))

theorem admits_typeName {type : String} {w : List Token} (h : TypeName type w) {c : Cursor}
    (hc : isTypeWord c.current = false) : Admits typeName (c.back w) type c := by
  rw [h.2.2]
  exact (admits_while h.2.1 hc).bind (admits_pure _ c)

theorem admits_stars {depth : Nat} {w : List Token} (h : Stars depth w) {c : Cursor}
    (hc : c.current.is .operator "*" = false) : Admits stars (c.back w) depth c := by
  rw [h.2]
  exact (admits_while h.1 hc).bind (admits_pure _ c)

theorem not_typeWord {t : Token} (h : t.kind ≠ .keyword) : isTypeWord t = false := by
  simp [isTypeWord, h]

theorem not_is {t : Token} {k : Token.Kind} (h : t.kind ≠ k) (text : String) :
    t.is k text = false := by
  simp [Token.is, h]

theorem admits_typed {α : Type} {type : String} {depth : Nat} {x : Token} {u v w : List Token}
    (hu : TypeName type u) (hv : Stars depth v) (hx : x.kind = .identifier)
    {f : String → Nat → Parser α} {y : α} {c c' : Cursor}
    (h : Admits (f type depth) (c.back (x :: w)) y c') :
    Admits (do
      let type ← typeName
      let depth ← stars
      f type depth) (c.back (u ++ (v ++ x :: w))) y c' := by
  have hx' : (c.back (x :: w)).current.is .operator "*" = false :=
    not_is (show x.kind ≠ .operator by rw [hx]; decide) "*"
  have hstar : isTypeWord (c.back (v ++ x :: w)).current = false := by
    cases v with
    | nil => exact not_typeWord (show x.kind ≠ .keyword by rw [hx]; decide)
    | cons t v =>
      have ht := (Token.is_iff.1 (hv.1 t List.mem_cons_self)).1
      exact not_typeWord (show t.kind ≠ .keyword by rw [ht]; decide)
  rw [Cursor.back_append]
  refine (admits_typeName hu hstar).bind ?_
  rw [Cursor.back_append]
  exact (admits_stars hv hx').bind h

theorem typeName_head {type : String} {u : List Token} (h : TypeName type u) :
    ∃ t u', u = t :: u' ∧ isTypeWord t = true := by
  obtain ⟨hne, hw, -⟩ := h
  cases u with
  | nil => exact absurd rfl hne
  | cons t u => exact ⟨t, u, rfl, hw t List.mem_cons_self⟩

theorem admits_parameter {p : Parameter} {w : List Token} (h : ParameterOf p w) (c : Cursor) :
    Admits parameter (c.back w) p c := by
  cases h with
  | @mk type depth x u v hu hv hx =>
    obtain ⟨t, u', rfl, ht⟩ := typeName_head hu
    refine admits_current ?_
    rw [if_neg
      (by rw [show isTypeWord (c.back (t :: u' ++ (v ++ [x]))).current = true from ht]; decide)]
    exact admits_typed hu hv hx ((admits_expect hx _ c []).bind (admits_pure _ c))

theorem admits_parametersOver {ps : List Parameter} {w : List Token} (h : ParameterList ps w)
    {fuel : List Token} (hfuel : w.length ≤ fuel.length) {c : Cursor}
    (hc : c.current.kind ≠ .comma) :
    Admits (parametersOver fuel) (c.back w) ps c := by
  induction h generalizing fuel with
  | last hp =>
    cases fuel with
    | nil =>
      have hpos := parameter_length_pos hp
      rw [List.length_nil] at hfuel
      omega
    | cons t fuel => exact (admits_parameter hp c).bind ((admits_reject hc).bind (admits_pure _ c))
  | @cons t p ps u v hp ht _ ih =>
    rw [List.length_append, List.length_cons] at hfuel
    cases fuel with
    | nil => simp at hfuel
    | cons t' fuel =>
      rw [List.length_cons] at hfuel
      rw [Cursor.back_append]
      refine (admits_parameter hp _).bind ((admits_accept ht c v).bind ?_)
      exact (ih (by omega)).bind (admits_pure _ c)

theorem parameterList_head {ps : List Parameter} {w : List Token} (h : ParameterList ps w) :
    ∃ t t' w', w = t :: t' :: w' ∧ isTypeWord t = true ∧ t'.kind ≠ .rparen := by
  have hone {p : Parameter} {w : List Token} (hp : ParameterOf p w) :
      ∃ t t' w', w = t :: t' :: w' ∧ isTypeWord t = true ∧ t'.kind ≠ .rparen := by
    cases hp with
    | @mk type depth x u v hu hv hx =>
      obtain ⟨t, u, rfl, ht⟩ := typeName_head hu
      cases u with
      | cons t' u =>
        refine ⟨t, t', u ++ (v ++ [x]), rfl, ht, ?_⟩
        rw [kind_of_isTypeWord (hu.2.1 t' (by simp))]
        decide
      | nil =>
        cases v with
        | cons t' v =>
          refine ⟨t, t', v ++ [x], rfl, ht, ?_⟩
          rw [(Token.is_iff.1 (hv.1 t' List.mem_cons_self)).1]
          decide
        | nil => exact ⟨t, x, [], rfl, ht, by rw [hx]; decide⟩
  cases h with
  | last hp => exact hone hp
  | cons hp _ _ =>
    obtain ⟨t, t', w', rfl, ht, ht'⟩ := hone hp
    exact ⟨t, t', _, rfl, ht, ht'⟩

theorem admits_parameters {ps : List Parameter} {w : List Token} (h : Parameters ps w) {c : Cursor}
    (hc : c.current.kind = .rparen) : Admits parameters (c.back w) ps c := by
  refine admits_get ?_
  cases h with
  | none =>
    have hv : c.current.is .keyword "void" = false := not_is (by rw [hc]; decide) "void"
    rw [if_neg (by simp [Cursor.back, hv]),
      if_pos (show (c.back []).current.kind = .rparen from hc)]
    exact admits_pure [] c
  | @void t ht =>
    rw [if_pos (by rw [Cursor.next_back, Bool.and_eq_true]; exact ⟨ht, decide_eq_true hc⟩)]
    exact (admits_advance c t []).bind (admits_pure [] c)
  | list hl =>
    obtain ⟨t, t', w', rfl, ht, ht'⟩ := parameterList_head hl
    have hk := kind_of_isTypeWord ht
    rw [if_neg (by
      rw [Cursor.next_back, Bool.and_eq_true]
      rintro ⟨-, hr⟩
      exact ht' (of_decide_eq_true hr))]
    rw [if_neg (show ¬(c.back (t :: t' :: w')).current.kind = .rparen by
      change ¬t.kind = .rparen
      rw [hk]
      decide)]
    refine admits_parametersOver hl ?_ (by rw [hc]; decide)
    change (t :: t' :: w').length ≤ (c.back (t :: t' :: w')).tokens.length
    rw [Cursor.tokens_back, List.length_append]
    exact Nat.le_add_right _ _

theorem admits_arrayPart {size : Option (Option Number)} {w : List Token} (h : Brackets size w)
    {c : Cursor} (hc : c.current.kind ≠ .lbracket) : Admits arrayPart (c.back w) size c := by
  cases h with
  | none => exact (admits_reject hc).bind (admits_pure none c)
  | @empty l r hl hr =>
    have hnone : Admits arrayLength (c.back [r]) none (c.back [r]) := by
      refine admits_current ?_
      rw [if_neg (show ¬(c.back [r]).current.kind =
        .number by change ¬r.kind = .number; rw [hr]; decide)]
      exact admits_pure none _
    exact (admits_accept hl c [r]).bind
      (hnone.bind ((admits_expect hr _ c []).bind (admits_pure _ c)))
  | @sized l t r hl ht hr =>
    have hsome : Admits arrayLength (c.back [t, r]) (some (literalValue t.text)) (c.back [r]) := by
      refine admits_current ?_
      rw [if_pos (show (c.back [t, r]).current.kind = .number from ht)]
      exact (admits_advance c t [r]).bind ((admits_number t _).bind (admits_pure _ _))
    exact (admits_accept hl c [t, r]).bind
      (hsome.bind ((admits_expect hr _ c []).bind (admits_pure _ c)))

theorem admits_initialiser {init : Option Expr} {w : List Token} (h : Initialiser init w)
    (n : Nat) {c : Cursor} (hc : c.current.kind = .semicolon) :
    Admits (initialiser (expression n .or)) (c.back w) init c := by
  cases h with
  | none =>
    exact (admits_reject (show c.current.kind ≠ .assign by rw [hc]; decide)).bind
      (admits_pure none c)
  | some ht he =>
    refine (admits_accept ht c _).bind ?_
    exact (expression_complete he n c (closes_of_closer hc (by decide) _)).bind (admits_pure _ c)

theorem variable_head {size : Option (Option Number)} {init : Option Expr} {a i : List Token}
    {z : Token} (ha : Brackets size a) (hi : Initialiser init i) (hz : z.kind = .semicolon)
    (c : Cursor) :
    (c.back (a ++ (i ++ [z]))).current.kind ≠ .lparen ∧
    (c.back (i ++ [z])).current.kind ≠ .lbracket := by
  have hinit : (c.back (i ++ [z])).current.kind = .semicolon ∨
      (c.back (i ++ [z])).current.kind = .assign := by
    cases hi with
    | none => exact .inl hz
    | some ht _ => exact .inr ht
  refine ⟨?_, by rcases hinit with h | h <;> rw [h] <;> decide⟩
  cases ha with
  | none => rcases hinit with h | h <;> rw [List.nil_append, h] <;> decide
  | @empty l r hl _ =>
    change l.kind ≠ .lparen
    rw [hl]
    decide
  | @sized l t r hl _ _ =>
    change l.kind ≠ .lparen
    rw [hl]
    decide

theorem admits_declare {type : String} {depth : Nat} {x z : Token} {size : Option (Option Number)}
    {init : Option Expr} {u v a i : List Token} (hu : TypeName type u) (hv : Stars depth v)
    (hx : x.kind = .identifier) (ha : Brackets size a) (hi : Initialiser init i)
    (hz : z.kind = .semicolon) (n : Nat) (stmt : Parser Stmt) (c : Cursor) :
    Admits (declaration (expression n .or) stmt) (c.back (u ++ (v ++ x :: (a ++ (i ++ [z])))))
      (.declare ⟨type, x.text, depth, size.isSome, size.join, init⟩) c := by
  obtain ⟨hlparen, hlbracket⟩ := variable_head ha hi hz c
  refine admits_typed hu hv hx ((admits_expect hx _ c _).bind (admits_current ?_))
  rw [if_neg hlparen, Cursor.back_append]
  refine (admits_arrayPart ha hlbracket).bind ?_
  rw [Cursor.back_append]
  exact (admits_initialiser hi n (c := c.back [z]) hz).bind
    ((admits_expect hz _ c []).bind (admits_pure _ c))

end Declarations

end MiniC.Parse.Parser

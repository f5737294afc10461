import MiniC.Proofs.Declarations

/-! Statements are read as the grammar derives them. A statement ends with a token of its own,
except that one which ends with an open if must not be followed by an else. -/

namespace MiniC.Parse.Parser

open Grammar

section Heads

def leadingWords : List String :=
  ["if", "while", "do", "for", "switch", "return", "break", "continue"]

def StartsStatement (t : Token) : Prop :=
  isTypeWord t = true ∨ (∃ word ∈ leadingWords, t.is .keyword word = true) ∨ t.kind = .lbrace ∨
    t.kind = .semicolon ∨ startsExpression t = true

theorem StartsStatement.kind_ne {t : Token} (h : StartsStatement t) {k : Token.Kind}
    (hk : k ∉ .keyword :: .semicolon :: starters) : t.kind ≠ k := by
  rintro rfl
  refine hk ?_
  rcases h with h | ⟨word, -, h⟩ | h | h | h
  · rw [kind_of_isTypeWord h]
    exact List.mem_cons_self
  · rw [(Token.is_iff.1 h).1]
    exact List.mem_cons_self
  · rw [h]
    decide
  · rw [h]
    decide
  · exact List.mem_cons_of_mem _ (List.mem_cons_of_mem _ (Starts.mem (.inl h)))

theorem StartsStatement.not_word {t : Token} (h : StartsStatement t) {word : String}
    (hw : word ∉ typeWords ++ qualifierWords ++ leadingWords) : t.is .keyword word = false := by
  cases hi : t.is .keyword word with
  | false => rfl
  | true =>
    obtain ⟨hk, rfl⟩ := Token.is_iff.1 hi
    refine absurd ?_ hw
    rcases h with h | ⟨word, hmem, h⟩ | h | h | h
    · rw [isTypeWord, Bool.and_eq_true, List.contains_iff_mem] at h
      exact List.mem_append_left _ h.2
    · rw [(Token.is_iff.1 h).2]
      exact List.mem_append_right _ hmem
    · rw [h] at hk
      cases hk
    · rw [h] at hk
      cases hk
    · rw [startsExpression, hk] at h
      cases h

def HeadOfClause : Clause → List Token → Prop
  | .declaration _, w => ∃ t v, w = t :: v ∧ isTypeWord t = true
  | .statement _, w => ∃ t v, w = t :: v ∧ StartsStatement t
  | .sections _ _, w =>
    w = [] ∨ ∃ t v, w = t :: v ∧ (t.is .keyword "case" = true ∨ t.is .keyword "default" = true)
  | .statements _, w => w = [] ∨ ∃ t v, w = t :: v ∧ StartsStatement t
  | .init _, _ => True

theorem simple_head {s : Stmt} {w : List Token} (h : Simple s w) :
    ∃ t v, w = t :: v ∧ Starts t := by
  cases h with
  | assign hp _ _ =>
    obtain ⟨x, u, rfl, hx⟩ := place_head hp
    exact ⟨x, _, rfl, .inl (by simp [startsExpression, hx])⟩
  | expr he => exact expression_head he

theorem statement_head {clause : Clause} {w : List Token} (h : Statement clause w) :
    HeadOfClause clause w := by
  have hword {t : Token} {word : String} (ht : t.is .keyword word = true) (hw : word ∈ leadingWords)
      (v : List Token) : ∃ t' v', t :: v = t' :: v' ∧ StartsStatement t' :=
    ⟨t, v, rfl, .inr (.inl ⟨word, hw, ht⟩)⟩
  induction h with
  | declare hu _ _ _ _ _ =>
    obtain ⟨t, u, rfl, ht⟩ := typeName_head hu
    exact ⟨t, _, rfl, ht⟩
  | function hu _ _ _ _ _ _ _ _ _ =>
    obtain ⟨t, u, rfl, ht⟩ := typeName_head hu
    exact ⟨t, _, rfl, ht⟩
  | declaration _ ih =>
    obtain ⟨t, v, rfl, ht⟩ := ih
    exact ⟨t, v, rfl, .inl ht⟩
  | branch ht _ _ _ _ _ => exact hword ht (by decide) _
  | branchElse ht _ _ _ _ _ _ _ _ _ => exact hword ht (by decide) _
  | whileLoop ht _ _ _ _ _ => exact hword ht (by decide) _
  | doLoop ht _ _ _ _ _ _ _ => exact hword ht (by decide) _
  | forLoop ht _ _ _ _ _ _ _ _ _ => exact hword ht (by decide) _
  | switch ht _ _ _ _ _ _ _ => exact hword ht (by decide) _
  | breakOut ht _ => exact hword ht (by decide) _
  | continueOn ht _ => exact hword ht (by decide) _
  | ret ht _ _ => exact hword ht (by decide) _
  | block hl _ _ _ => exact ⟨_, _, rfl, .inr (.inr (.inl hl))⟩
  | empty hz => exact ⟨_, _, rfl, .inr (.inr (.inr (.inl hz)))⟩
  | simple hs hne _ =>
    obtain ⟨t, v, rfl, ht | ht⟩ := simple_head hs
    · exact ⟨t, _, rfl, .inr (.inr (.inr (.inr ht)))⟩
    · exact absurd (congrArg some ht) hne
  | noInit _ => trivial
  | declarationInit _ _ => trivial
  | simpleInit _ _ => trivial
  | nil => exact .inl rfl
  | cons _ _ ih _ =>
    obtain ⟨t, v, rfl, ht⟩ := ih
    exact .inr ⟨t, _, rfl, ht⟩
  | noSections => exact .inl rfl
  | caseSection ht _ _ _ _ _ _ => exact .inr ⟨_, _, rfl, .inl ht⟩
  | defaultSection ht _ _ _ _ _ => exact .inr ⟨_, _, rfl, .inr ht⟩

end Heads

section Statements

def CompleteClause : Clause → List Token → Prop
  | .declaration s, w => ∀ n c, Admits (declaration (expression n .or) (statement n)) (c.back w) s c
  | .statement s, w => ∀ n c, (endsOpen s = true → c.current.is .keyword "else" = false) →
      Admits (statement n) (c.back w) s c
  | .init o, w => ∀ n c, Admits (forInit (expression n .or) (statement n)) (c.back w) o c
  | .statements ss, w =>
    ∀ n (more : Token → Bool) (fuel : List Token) c, (∀ t, StartsStatement t → more t = true) →
      more c.current = false → c.current.is .keyword "else" = false → w.length ≤ fuel.length →
      Admits (manyOver more (statement n) fuel) (c.back w) ss c
  | .sections cs o, w => ∀ n (fuel : List Token) c cases otherwise, c.current.kind = .rbrace →
      otherwise = none ∨ o = none → w.length ≤ fuel.length →
      Admits (sectionsOver (expression n .or) (statement n) fuel cases otherwise) (c.back w)
        (cases ++ cs, o.or otherwise) c

theorem admits_statement {c c' : Cursor} {s : Stmt}
    (h : ∀ n, Admits (statementOf (expression n .or) (statement n)) c s c') (n : Nat) :
    Admits (statement n) c s c' := by
  cases n with
  | zero => exact admits_tooDeep trivial c s c'
  | succ n => exact h n

theorem Admits.of_eq {α : Type} {p q : Parser α} {c c' : Cursor} {x : α} (h : Admits q c x c')
    (he : p c = q c) :
    Admits p c x c' := by
  rw [Admits, AdmitsIf, he]
  exact h

section Words

variable {expr : Parser Expr} {stmt : Parser Stmt} {c : Cursor}

theorem statementOf_declaration (h : isTypeWord c.current = true) :
    statementOf expr stmt c = declaration expr stmt c := by
  unfold statementOf
  rw [current_bind, if_pos h]

theorem statementOf_plain (h : c.current.kind ≠ .keyword) :
    statementOf expr stmt c = plainStatement expr stmt c := by
  unfold statementOf
  rw [current_bind, not_typeWord h, if_neg h]
  rfl

theorem statementOf_worded {word : String} {p : Parser Stmt}
    (h : c.current.is .keyword word = true)
    (hw : (typeWords ++ qualifierWords).contains word = false)
    (hp : (worded expr stmt).lookup word = some p) :
    statementOf expr stmt c = p c := by
  obtain ⟨hk, ht⟩ := Token.is_iff.1 h
  have htype : isTypeWord c.current = false := by rw [isTypeWord, ht, hw, Bool.and_false]
  unfold statementOf
  rw [current_bind, htype, if_pos hk, ht, hp]
  rfl

end Words

/-- A statement with a word of its own is read by the parser that stands in the table for the
word. -/
theorem admits_worded {t : Token} {word : String} (ht : t.is .keyword word = true)
    (hw : (typeWords ++ qualifierWords).contains word = false)
    {p : Parser Expr → Parser Stmt → Parser Stmt}
    (hp : ∀ expr stmt, (worded expr stmt).lookup word = some (p expr stmt)) {w : List Token}
    {s : Stmt} {c c' : Cursor}
    (h : ∀ n, Admits (p (expression n .or) (statement n)) (c.back (t :: w)) s c') (n : Nat) :
    Admits (statement n) (c.back (t :: w)) s c' :=
  admits_statement (fun n => (h n).of_eq (statementOf_worded ht hw (hp _ _))) n

theorem admits_condition {e : Expr} {u v : List Token} {l r : Token} (hl : l.kind = .lparen)
    (hu : Expression (.tier .or e) u) (hr : r.kind = .rparen) (n : Nat) (word : String)
    (c : Cursor) :
    Admits (condition (expression n .or) word) (c.back (l :: (u ++ r :: v))) e (c.back v) := by
  refine (admits_expect hl _ c _).bind ?_
  rw [Cursor.back_append]
  have hclose : Closes .or (c.back (r :: v)).current := closes_of_closer hr (by decide) _
  exact (expression_complete hu n _ hclose).bind ((admits_expect hr _ c v).bind (admits_pure e _))

theorem admits_simpleStatement {s : Stmt} {w : List Token} (h : Simple s w) {z : Token}
    (hz : z.kind = .semicolon) (n : Nat) (c : Cursor) :
    Admits (simpleStatement (expression n .or)) (c.back (w ++ [z])) s c := by
  rw [Cursor.back_append]
  exact (admits_simple h n (c := c.back [z]) (.inl hz)).bind
    ((admits_expect hz _ c []).bind (admits_pure s c))

theorem admits_before_none {α : Type} {p : Parser α} {c : Cursor} {close : Token.Kind}
    (hc : c.current.kind = close) :
    Admits (before close p) c none c := by
  refine admits_current ?_
  rw [if_pos hc]
  exact admits_pure none c

theorem admits_before_some {α : Type} {p : Parser α} {c c' : Cursor} {x : α} {close : Token.Kind}
    (hc : c.current.kind ≠ close) (h : Admits p c x c') :
    Admits (before close p) c (some x) c' := by
  refine admits_current ?_
  rw [if_neg hc]
  exact h.bind (admits_pure (some x) c')

theorem admits_optional {o : Option Expr} {w : List Token} (h : Optional o w) (n : Nat)
    {c : Cursor} (hc : c.current.kind = .semicolon) :
    Admits (before .semicolon (expression n .or)) (c.back w) o c := by
  cases h with
  | none => exact admits_before_none hc
  | some he =>
    obtain ⟨t, w, rfl, ht⟩ := expression_head he
    refine admits_before_some (show t.kind ≠ .semicolon from ht.kind_ne (by decide)) ?_
    exact expression_complete he n c (closes_of_closer hc (by decide) _)

theorem admits_step {o : Option Stmt} {w : List Token} (h : Step o w) (n : Nat) {c : Cursor}
    (hc : c.current.kind = .rparen) :
    Admits (before .rparen (simple (expression n .or))) (c.back w) o c := by
  cases h with
  | none => exact admits_before_none hc
  | some hs =>
    obtain ⟨t, w, rfl, ht⟩ := simple_head hs
    exact admits_before_some (show t.kind ≠ .rparen from ht.kind_ne (by decide))
      (admits_simple hs n (.inr hc))

theorem admits_block {body : List Stmt} {w : List Token}
    (ih : CompleteClause (.statements body) w) {l r : Token} (hr : r.kind = .rbrace) (n : Nat)
    (c : Cursor) :
    Admits (block (statement n)) (c.back (l :: (w ++ [r]))) body c := by
  refine (admits_advance c l _).bind ?_
  rw [Cursor.back_append]
  have hmore (t : Token) (ht : StartsStatement t) : (!isBlockEnd t) = true := by
    simp [isBlockEnd, ht.kind_ne (show Token.Kind.rbrace ∉ _ by decide),
      ht.kind_ne (show Token.Kind.eof ∉ _ by decide)]
  have hend : (!isBlockEnd (c.back [r]).current) = false := by
    change (!isBlockEnd r) = false
    simp [isBlockEnd, hr]
  have helse : (c.back [r]).current.is .keyword "else" = false :=
    not_is (show r.kind ≠ .keyword by rw [hr]; decide) "else"
  refine AdmitsIf.bind
    (admits_get (ih n _ _ (c.back [r]) hmore hend helse (length_le_rest_back _ w))) ?_
  exact (admits_expect hr _ c []).bind (admits_pure body c)

theorem complete_function {type : String} {depth : Nat} {x l r l' r' : Token}
    {params : List Parameter} {body : List Stmt} {u v p b : List Token} (hu : TypeName type u)
    (hv : Stars depth v) (hx : x.kind = .identifier) (hl : l.kind = .lparen)
    (hp : Parameters params p) (hr : r.kind = .rparen) (hl' : l'.kind = .lbrace)
    (hr' : r'.kind = .rbrace) (ih : CompleteClause (.statements body) b) :
    CompleteClause (.declaration (.function (type ++ starText depth) x.text params body))
      (u ++ (v ++ x :: l :: (p ++ r :: l' :: (b ++ [r'])))) := by
  intro n c
  refine admits_typed hu hv hx ((admits_expect hx _ c _).bind (admits_current ?_))
  rw [if_pos (show (c.back (l :: (p ++ r :: l' :: (b ++ [r'])))).current.kind = .lparen from hl)]
  refine (admits_advance c l _).bind ?_
  rw [Cursor.back_append]
  refine (admits_parameters hp (c := c.back (r :: l' :: (b ++ [r']))) hr).bind
    ((admits_expect hr _ c _).bind ?_)
  refine admits_current ?_
  rw [if_pos (show (c.back (l' :: (b ++ [r']))).current.kind = .lbrace from hl')]
  exact (admits_block ih hr' n c).bind (admits_pure _ c)

theorem complete_declaration {s : Stmt} {w : List Token} (h : Statement (.declaration s) w)
    (ih : CompleteClause (.declaration s) w) : CompleteClause (.statement s) w := by
  intro n c _
  obtain ⟨t, w, rfl, ht⟩ := statement_head h
  exact admits_statement (fun n => (ih n c).of_eq (statementOf_declaration ht)) n

theorem complete_branch {t l r : Token} {e : Expr} {yes : Stmt} {u v : List Token}
    (ht : t.is .keyword "if" = true) (hl : l.kind = .lparen) (hu : Expression (.tier .or e) u)
    (hr : r.kind = .rparen) (ih : CompleteClause (.statement yes) v) :
    CompleteClause (.statement (.branch e yes none)) (t :: l :: (u ++ r :: v)) := by
  intro n c hc
  have helse : c.current.is .keyword "else" = false := hc rfl
  refine admits_worded ht (by decide) (fun _ _ => rfl) (fun n => ?_) n
  refine (admits_advance c t _).bind ((admits_condition hl hu hr n _ c).bind ?_)
  exact (ih n c fun _ => helse).bind ((admits_rejectText helse).bind (admits_pure _ c))

theorem complete_branchElse {t l r t' : Token} {e : Expr} {yes no : Stmt} {u v w : List Token}
    (ht : t.is .keyword "if" = true) (hl : l.kind = .lparen) (hu : Expression (.tier .or e) u)
    (hr : r.kind = .rparen) (ho : endsOpen yes = false) (ht' : t'.is .keyword "else" = true)
    (ihv : CompleteClause (.statement yes) v) (ihw : CompleteClause (.statement no) w) :
    CompleteClause (.statement (.branch e yes (some no)))
      (t :: l :: (u ++ r :: (v ++ t' :: w))) := by
  intro n c hc
  refine admits_worded ht (by decide) (fun _ _ => rfl) (fun n => ?_) n
  refine (admits_advance c t _).bind ((admits_condition hl hu hr n _ c).bind ?_)
  rw [Cursor.back_append]
  -- What stands in front of the else is closed, so it may be followed by one.
  have hyes := ihv n (c.back (t' :: w)) fun h => absurd h (by rw [ho]; exact Bool.false_ne_true)
  exact hyes.bind ((admits_acceptText ht' c w).bind ((ihw n c hc).bind (admits_pure _ c)))

theorem complete_whileLoop {t l r : Token} {e : Expr} {body : Stmt} {u v : List Token}
    (ht : t.is .keyword "while" = true) (hl : l.kind = .lparen) (hu : Expression (.tier .or e) u)
    (hr : r.kind = .rparen) (ih : CompleteClause (.statement body) v) :
    CompleteClause (.statement (.whileLoop e body)) (t :: l :: (u ++ r :: v)) := by
  intro n c hc
  refine admits_worded ht (by decide) (fun _ _ => rfl) (fun n => ?_) n
  refine (admits_advance c t _).bind ((admits_condition hl hu hr n _ c).bind ?_)
  exact (ih n c hc).bind (admits_pure _ c)

theorem complete_doLoop {t t' l r z : Token} {e : Expr} {body : Stmt} {u v : List Token}
    (ht : t.is .keyword "do" = true) (ht' : t'.is .keyword "while" = true) (hl : l.kind = .lparen)
    (hv : Expression (.tier .or e) v) (hr : r.kind = .rparen) (hz : z.kind = .semicolon)
    (ih : CompleteClause (.statement body) u) :
    CompleteClause (.statement (.doLoop body e)) (t :: (u ++ t' :: l :: (v ++ [r, z]))) := by
  intro n c _
  -- Behind the body stands the word while, so an open if at its end has no else to take.
  have helse : t'.is .keyword "else" = false := by simp [Token.is, (Token.is_iff.1 ht').2]
  refine admits_worded ht (by decide) (fun _ _ => rfl) (fun n => ?_) n
  refine (admits_advance c t _).bind ?_
  rw [Cursor.back_append]
  refine (ih n (c.back (t' :: l :: (v ++ [r, z]))) fun _ => helse).bind
    ((admits_acceptText ht' c _).bind ?_)
  exact (admits_condition hl hv hr n _ c).bind ((admits_expect hz _ c []).bind (admits_pure _ c))

theorem complete_declarationInit {s : Stmt} {w : List Token} (h : Statement (.declaration s) w)
    (ih : CompleteClause (.declaration s) w) : CompleteClause (.init (some s)) w := by
  intro n c
  obtain ⟨t, w, rfl, ht⟩ := statement_head h
  have hk := kind_of_isTypeWord ht
  refine (admits_reject (show t.kind ≠ .semicolon by rw [hk]; decide)).bind (admits_current ?_)
  rw [if_pos (show isTypeWord (c.back (t :: w)).current = true from ht)]
  exact (ih n c).bind (admits_pure _ c)

theorem complete_simpleInit {z : Token} {s : Stmt} {w : List Token} (h : Simple s w)
    (hz : z.kind = .semicolon) :
    CompleteClause (.init (some s)) (w ++ [z]) := by
  intro n c
  have hs := admits_simpleStatement h hz n c
  obtain ⟨t, w, rfl, ht⟩ := simple_head h
  have hword : isTypeWord (c.back (t :: w ++ [z])).current = false :=
    not_typeWord (show t.kind ≠ .keyword from ht.kind_ne (by decide))
  refine (admits_reject (show t.kind ≠ .semicolon from ht.kind_ne (by decide))).bind
    (admits_current ?_)
  rw [hword]
  exact hs.bind (admits_pure _ c)

theorem complete_forLoop {t l r z : Token} {init step : Option Stmt} {e : Option Expr}
    {body : Stmt} {i u v w : List Token} (ht : t.is .keyword "for" = true) (hl : l.kind = .lparen)
    (hu : Optional e u) (hz : z.kind = .semicolon) (hv : Step step v) (hr : r.kind = .rparen)
    (ihi : CompleteClause (.init init) i) (ihw : CompleteClause (.statement body) w) :
    CompleteClause (.statement (.forLoop init e step body))
      (t :: l :: (i ++ (u ++ z :: (v ++ r :: w)))) := by
  intro n c hc
  refine admits_worded ht (by decide) (fun _ _ => rfl) (fun n => ?_) n
  refine (admits_advance c t _).bind ((admits_expect hl _ c _).bind ?_)
  rw [Cursor.back_append]
  refine (ihi n _).bind ?_
  rw [Cursor.back_append]
  refine (admits_optional hu n (c := c.back (z :: (v ++ r :: w))) hz).bind
    ((admits_expect hz _ c _).bind ?_)
  rw [Cursor.back_append]
  refine (admits_step hv n (c := c.back (r :: w)) hr).bind ((admits_expect hr _ c w).bind ?_)
  exact (ihw n c hc).bind (admits_pure _ c)

theorem complete_jump {t z : Token} {word : String} {make : Stmt} (ht : t.is .keyword word = true)
    (hw : (typeWords ++ qualifierWords).contains word = false)
    (hp : ∀ expr stmt, (worded expr stmt).lookup word = some (jump make))
    (hz : z.kind = .semicolon) :
    CompleteClause (.statement make) [t, z] := by
  intro n c _
  refine admits_worded ht hw hp (fun n => ?_) n
  exact (admits_advance c t [z]).bind ((admits_expect hz _ c []).bind (admits_pure make c))

theorem complete_ret {t z : Token} {value : Option Expr} {w : List Token}
    (ht : t.is .keyword "return" = true) (hw : Optional value w) (hz : z.kind = .semicolon) :
    CompleteClause (.statement (.ret value)) (t :: (w ++ [z])) := by
  intro n c _
  refine admits_worded ht (by decide) (fun _ _ => rfl) (fun n => ?_) n
  refine (admits_advance c t _).bind ?_
  rw [Cursor.back_append]
  exact (admits_optional hw n (c := c.back [z]) hz).bind
    ((admits_expect hz _ c []).bind (admits_pure _ c))

theorem complete_block {l r : Token} {body : List Stmt} {w : List Token} (hl : l.kind = .lbrace)
    (hr : r.kind = .rbrace) (ih : CompleteClause (.statements body) w) :
    CompleteClause (.statement (.block body)) (l :: (w ++ [r])) := by
  intro n c _
  refine admits_statement (fun n => Admits.of_eq ?_ (statementOf_plain ?_)) n
  · refine admits_current ?_
    rw [if_pos (show (c.back (l :: (w ++ [r]))).current.kind = .lbrace from hl)]
    exact (admits_block ih hr n c).bind (admits_pure _ c)
  · change l.kind ≠ .keyword
    rw [hl]
    decide

theorem complete_empty {z : Token} (hz : z.kind = .semicolon) :
    CompleteClause (.statement (.block [])) [z] := by
  intro n c _
  refine admits_statement (fun n => Admits.of_eq ?_ (statementOf_plain ?_)) n
  · refine admits_current ?_
    rw [if_neg (show ¬(c.back [z]).current.kind =
      .lbrace by change ¬z.kind = .lbrace; rw [hz]; decide),
      if_pos (show (c.back [z]).current.kind = .semicolon from hz)]
    exact (admits_advance c z []).bind (admits_pure _ c)
  · change z.kind ≠ .keyword
    rw [hz]
    decide

theorem complete_simple {z : Token} {s : Stmt} {w : List Token} (h : Simple s w)
    (hne : w.head?.map (·.kind) ≠ some .lbrace) (hz : z.kind = .semicolon) :
    CompleteClause (.statement s) (w ++ [z]) := by
  intro n c _
  refine admits_statement (fun n => ?_) n
  have hs := admits_simpleStatement h hz n c
  obtain ⟨t, w, rfl, ht⟩ := simple_head h
  have hbrace : t.kind ≠ .lbrace := fun hk => hne (congrArg some hk)
  have hstart : startsExpression t = true := ht.resolve_right hbrace
  refine Admits.of_eq ?_ (statementOf_plain (show t.kind ≠ .keyword from ht.kind_ne (by decide)))
  refine admits_current ?_
  rw [if_neg (show ¬(c.back (t :: w ++ [z])).current.kind = .lbrace from hbrace),
    if_neg (show ¬(c.back (t :: w ++ [z])).current.kind = .semicolon from ht.kind_ne (by decide)),
    if_pos (show startsExpression (c.back (t :: w ++ [z])).current = true from hstart)]
  exact hs

theorem complete_noStatements : CompleteClause (.statements []) [] := by
  intro n more fuel c _ hc _ _
  cases fuel with
  | nil => exact admits_pure [] c
  | cons t fuel =>
    refine admits_current ?_
    rw [show more (c.back []).current = false from hc]
    exact admits_pure [] c

theorem complete_moreStatements {s : Stmt} {ss : List Stmt} {u v : List Token}
    (hu : Statement (.statement s) u) (hv : Statement (.statements ss) v)
    (ihu : CompleteClause (.statement s) u) (ihv : CompleteClause (.statements ss) v) :
    CompleteClause (.statements (s :: ss)) (u ++ v) := by
  intro n more fuel c hmore hc helse hfuel
  have hnext : (c.back v).current.is .keyword "else" = false := by
    rcases statement_head hv with rfl | ⟨t, v, rfl, ht⟩
    · exact helse
    · exact ht.not_word (by decide)
  rw [List.length_append] at hfuel
  obtain ⟨t, u, rfl, ht⟩ := statement_head hu
  cases fuel with
  | nil => simp at hfuel
  | cons t' fuel =>
    rw [List.length_cons, List.length_cons] at hfuel
    rw [Cursor.back_append]
    refine admits_current ?_
    rw [if_pos (show more ((c.back v).back (t :: u)).current = true from hmore t ht)]
    refine (ihu n (c.back v) fun _ => hnext).bind ?_
    exact (ihv n more fuel c hmore hc helse (by omega)).bind (admits_pure _ c)

/-- The statements of a section end where the next one begins or the switch ends. -/
theorem admits_labelled {z : Token} (hz : EndsLabel z) {body : List Stmt} {v w : List Token}
    (ih : CompleteClause (.statements body) v) {cases : List SwitchCase}
    {otherwise : Option (List Stmt)} (hw : Statement (.sections cases otherwise) w)
    (cause : Cause) (n : Nat) {c : Cursor} (hc : c.current.kind = .rbrace) :
    Admits (labelled (statement n) cause) (c.back (z :: (v ++ w))) body (c.back w) := by
  have hend : Admits labelEnd (c.back (z :: (v ++ w))) true (c.back (v ++ w)) := by
    rcases hz with hz | hz
    · exact (admits_accept hz c _).bind (admits_pure true _)
    · exact (admits_reject (show z.kind ≠ .colon by rw [hz]; decide)).bind (admits_accept hz c _)
  have hmore (t : Token) (ht : StartsStatement t) : (!isCaseEnd t) = true := by
    simp [isCaseEnd, isBlockEnd, ht.kind_ne (show Token.Kind.rbrace ∉ _ by decide),
      ht.kind_ne (show Token.Kind.eof ∉ _ by decide), ht.not_word (show "case" ∉ _ by decide),
      ht.not_word (show "default" ∉ _ by decide)]
  have hstop : (!isCaseEnd (c.back w).current) = false ∧
      (c.back w).current.is .keyword "else" = false := by
    rcases statement_head hw with rfl | ⟨t, w, rfl, ht | ht⟩
    · exact ⟨by simp [Cursor.back, isCaseEnd, isBlockEnd, hc],
        not_is (by simp [Cursor.back, hc]) "else"⟩
    · exact ⟨by simp [Cursor.back, isCaseEnd, ht],
        by simp [Cursor.back, Token.is, (Token.is_iff.1 ht).2]⟩
    · exact ⟨by simp [Cursor.back, isCaseEnd, ht],
        by simp [Cursor.back, Token.is, (Token.is_iff.1 ht).2]⟩
  refine hend.bind ?_
  rw [if_pos rfl, Cursor.back_append]
  exact admits_get (ih n _ _ (c.back w) hmore hstop.1 hstop.2 (length_le_rest_back _ v))

theorem complete_noSections : CompleteClause (.sections [] none) [] := by
  intro n fuel c cases otherwise hc _ _
  rw [List.append_nil, Option.none_or]
  cases fuel with
  | nil => exact admits_pure _ c
  | cons t fuel =>
    refine admits_current ?_
    rw [if_pos (show isBlockEnd (c.back []).current = true by simp [Cursor.back, isBlockEnd, hc])]
    exact admits_pure _ c

theorem complete_caseSection {t z : Token} {value : Expr} {body : List Stmt}
    {cases : List SwitchCase} {otherwise : Option (List Stmt)} {u v w : List Token}
    (ht : t.is .keyword "case" = true) (hu : Expression (.tier .or value) u) (hz : EndsLabel z)
    (hw : Statement (.sections cases otherwise) w) (ihv : CompleteClause (.statements body) v)
    (ihw : CompleteClause (.sections cases otherwise) w) :
    CompleteClause (.sections (.mk value body :: cases) otherwise) (t :: (u ++ z :: (v ++ w))) := by
  intro n fuel c before given hc ho hfuel
  simp only [List.length_cons, List.length_append] at hfuel
  have hk := (Token.is_iff.1 ht).1
  have hclose : Closes .or (c.back (z :: (v ++ w))).current := by
    rcases hz with h | h
    · exact closes_of_closer h (by decide) _
    · exact closes_of_closer h (by decide) _
  cases fuel with
  | nil => simp at hfuel
  | cons t' fuel =>
    rw [List.length_cons] at hfuel
    refine admits_current ?_
    rw [if_neg (show ¬isBlockEnd (c.back (t :: (u ++ z :: (v ++ w)))).current = true by
        simp [Cursor.back, isBlockEnd, hk]),
      if_pos (show (c.back (t :: (u ++ z :: (v ++ w)))).current.is _ _ = true from ht)]
    refine (admits_advance c t _).bind ?_
    rw [Cursor.back_append]
    refine (expression_complete hu n _ hclose).bind ((admits_labelled hz ihv hw _ n hc).bind ?_)
    have hrest := ihw n fuel c (before ++ [.mk value body]) given hc ho (by omega)
    rw [List.append_assoc] at hrest
    exact hrest

theorem complete_defaultSection {t z : Token} {body : List Stmt} {cases : List SwitchCase}
    {v w : List Token} (ht : t.is .keyword "default" = true) (hz : EndsLabel z)
    (hw : Statement (.sections cases none) w) (ihv : CompleteClause (.statements body) v)
    (ihw : CompleteClause (.sections cases none) w) :
    CompleteClause (.sections cases (some body)) (t :: z :: (v ++ w)) := by
  intro n fuel c before given hc ho hfuel
  obtain rfl : given = none := ho.resolve_right (Option.some_ne_none body)
  simp only [List.length_cons, List.length_append] at hfuel
  obtain ⟨hk, htext⟩ := Token.is_iff.1 ht
  cases fuel with
  | nil => simp at hfuel
  | cons t' fuel =>
    rw [List.length_cons] at hfuel
    refine admits_current ?_
    rw [if_neg (show ¬isBlockEnd (c.back (t :: z :: (v ++ w))).current =
      true by simp [Cursor.back, isBlockEnd, hk]),
      if_neg (show ¬(c.back (t :: z :: (v ++ w))).current.is .keyword "case" = true by
        simp [Cursor.back, Token.is, htext]),
      if_pos (show (c.back (t :: z :: (v ++ w))).current.is _ _ = true from ht), if_neg (by simp)]
    refine (admits_advance c t _).bind ((admits_labelled hz ihv hw _ n hc).bind ?_)
    exact ihw n fuel c before (some body) hc (.inr rfl) (by omega)

theorem complete_switch {t l r l' r' : Token} {test : Expr} {cases : List SwitchCase}
    {otherwise : Option (List Stmt)} {u v : List Token} (ht : t.is .keyword "switch" = true)
    (hl : l.kind = .lparen) (hu : Expression (.tier .or test) u) (hr : r.kind = .rparen)
    (hl' : l'.kind = .lbrace) (hr' : r'.kind = .rbrace)
    (ih : CompleteClause (.sections cases otherwise) v) :
    CompleteClause (.statement (.switch test cases otherwise))
      (t :: l :: (u ++ r :: l' :: (v ++ [r']))) := by
  intro n c _
  refine admits_worded ht (by decide) (fun _ _ => rfl) (fun n => ?_) n
  refine (admits_advance c t _).bind ((admits_expect hl _ c _).bind (admits_current ?_))
  have hclose : Closes .or (c.back (r :: l' :: (v ++ [r']))).current :=
    closes_of_closer hr (by decide) _
  have htest := expression_complete hu n _ hclose
  obtain ⟨t', u, rfl, ht'⟩ := expression_head hu
  rw [if_neg (show ¬(c.back (t' :: u ++ r :: l' :: (v ++ [r']))).current.kind =
    .rparen from ht'.kind_ne (by decide)),
    Cursor.back_append]
  refine htest.bind ((admits_expect hr _ c _).bind ((admits_expect hl' _ c _).bind (admits_get ?_)))
  rw [Cursor.back_append]
  have hsections := ih n _ (c.back [r']) [] none hr' (.inl rfl)
    (length_le_rest_back (c.back [r']) v)
  rw [List.nil_append, Option.or_none] at hsections
  exact hsections.bind ((admits_expect hr' _ c []).bind (admits_pure _ c))

theorem statement_complete {clause : Clause} {w : List Token} (h : Statement clause w) :
    CompleteClause clause w := by
  induction h with
  | declare hu hv hx ha hi hz => exact fun n c => admits_declare hu hv hx ha hi hz n _ c
  | function hu hv hx hl hp hr hl' _ hr' ih => exact complete_function hu hv hx hl hp hr hl' hr' ih
  | declaration h ih => exact complete_declaration h ih
  | branch ht hl hu hr _ ih => exact complete_branch ht hl hu hr ih
  | branchElse ht hl hu hr _ ho ht' _ ihv ihw =>
    exact complete_branchElse ht hl hu hr ho ht' ihv ihw
  | whileLoop ht hl hu hr _ ih => exact complete_whileLoop ht hl hu hr ih
  | doLoop ht _ ht' hl hv hr hz ih => exact complete_doLoop ht ht' hl hv hr hz ih
  | forLoop ht hl _ hu hz hv hr _ ihi ihw => exact complete_forLoop ht hl hu hz hv hr ihi ihw
  | noInit hz => exact fun n c => (admits_accept hz c []).bind (admits_pure none c)
  | declarationInit h ih => exact complete_declarationInit h ih
  | simpleInit h hz => exact complete_simpleInit h hz
  | switch ht hl hu hr hl' _ hr' ih => exact complete_switch ht hl hu hr hl' hr' ih
  | breakOut ht hz => exact complete_jump ht (by decide) (fun _ _ => rfl) hz
  | continueOn ht hz => exact complete_jump ht (by decide) (fun _ _ => rfl) hz
  | ret ht hw hz => exact complete_ret ht hw hz
  | block hl _ hr ih => exact complete_block hl hr ih
  | empty hz => exact complete_empty hz
  | simple h hne hz => exact complete_simple h hne hz
  | nil => exact complete_noStatements
  | cons hu hv ihu ihv => exact complete_moreStatements hu hv ihu ihv
  | noSections => exact complete_noSections
  | caseSection ht hu hz _ hw ihv ihw => exact complete_caseSection ht hu hz hw ihv ihw
  | defaultSection ht hz _ hw ihv ihw => exact complete_defaultSection ht hz hw ihv ihw

end Statements

end MiniC.Parse.Parser

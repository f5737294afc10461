import MiniC.Proofs.Expressions
import MiniC.Proofs.Lexemes
import MiniC.Tree.Text

/-! Expressions are read back as they are written. Their text is cut into tokens that write them in
the grammar, each as a primary, since operations on two operands stand in parentheses. Main
statement: reading the text of an expression gives that expression, or stops at the depth of the
nesting. -/

namespace MiniC

mutual

def Expr.unmarked : Expr → Expr
  | .number n _ => .number n 0
  | .string s => .string s
  | .char s => .char s
  | .name x => .name x
  | .binary op l r => .binary op l.unmarked r.unmarked
  | .unary op e => .unary op e.unmarked
  | .update op x before => .update op x before
  | .addressOf e => .addressOf e.unmarked
  | .deref e => .deref e.unmarked
  | .element x i => .element x i.unmarked
  | .call f args => .call f (Expr.listUnmarked args)
  | .braces items => .braces (Expr.listUnmarked items)

def Expr.listUnmarked : List Expr → List Expr
  | [] => []
  | e :: es => e.unmarked :: Expr.listUnmarked es

end

/-- Expressions whose text says what they are: numbers are whole, not negative and not too long,
literals are closed, names are words, and no sign stands before one that it would make a pair
with. -/
inductive Expr.Printable : Expr → Prop
  | number {n mark : Nat} : n < 10 ^ Decimal.digitLimit → Printable (.number (.int n) mark)
  | string {s : String} : Token.IsQuoted '"' s → Printable (.string s)
  | char {s : String} : Token.IsQuoted '\x27' s → Printable (.char s)
  | name {x : String} : Token.IsName x → Printable (.name x)
  | binary {op : BinaryOp} {l r : Expr} : Printable l → Printable r → Printable (.binary op l r)
  | unary {op : UnaryOp} {e : Expr} : Printable e → (op = .neg → e.text.toList.head? ≠ some '-') →
      (op = .pos → e.text.toList.head? ≠ some '+') → Printable (.unary op e)
  | update {op : UpdateOp} {x : String} {before : Bool} :
      Token.IsName x → Printable (.update op x before)
  | addressOf {e : Expr} : Printable e → e.text.toList.head? ≠ some '&' → Printable (.addressOf e)
  | deref {e : Expr} : Printable e → Printable (.deref e)
  | element {x : String} {i : Expr} : Token.IsName x → Printable i → Printable (.element x i)
  | call {f : String} {args : List Expr} : Token.IsName f → (∀ a ∈ args, Printable a) →
      Printable (.call f args)

namespace Parse.Parser

open Grammar

theorem expression_of_tighter {tier : Tier} {e : Expr} {w : List Token}
    (h : Expression (.tier tier.tighter e) w) :
    Expression (.tier tier e) w := by
  have hleft (hl : isLeft tier = true) : Expression (.tier tier e) w := by
    have hchain := Expression.chain hl h .done
    rwa [List.append_nil] at hchain
  cases tier with
  | power => exact .base h
  | primary => exact h
  | _ => exact hleft rfl

theorem complete_of_tighter {need : Nat} {tier : Tier} {e : Expr} {w : List Token}
    (h : Complete need (.tier tier.tighter e) w) : Complete (need + 1) (.tier tier e) w := by
  have hleft (hl : isLeft tier = true) : Complete (need + 1) (.tier tier e) w := by
    have hchain := complete_chain hl .done h complete_done
    rwa [List.append_nil] at hchain
  cases tier with
  | power => exact complete_base h
  | primary => exact h.mono (Nat.le_succ need)
  | _ => exact hleft rfl

/-- Tokens that write a phrase, and are read as it with `need` productions nested in one another. -/
structure Written (need : Nat) (phrase : Phrase) (w : List Token) : Prop where
  derives : Expression phrase w
  complete : Complete need phrase w

section Written

variable {need : Nat} {tier : Tier} {e : Expr} {w : List Token}

theorem Written.mono {need' : Nat} {phrase : Phrase} (h : Written need phrase w)
    (hn : need ≤ need') :
    Written need' phrase w := ⟨h.derives, h.complete.mono hn⟩

theorem rank_tighter (h : rank tier < 7) : rank tier.tighter = rank tier + 1 := by
  cases tier <;> simp_all [rank, Tier.tighter]

theorem rank_injective {tier' : Tier} (h : rank tier = rank tier') : tier = tier' := by
  cases tier <;> cases tier' <;> simp_all [rank]

/-- What stands in a tighter tier stands in a looser one as well, a production deeper for each tier
between. -/
theorem Written.loosen {tier' : Tier} {d : Nat} (hd : rank tier' = rank tier + d)
    (h : Written need (.tier tier' e) w) : Written (need + d) (.tier tier e) w := by
  induction d generalizing tier with
  | zero =>
    rw [rank_injective hd] at h
    exact h
  | succ d ih =>
    have hle : rank tier' ≤ 7 := by cases tier' <;> decide
    have htighter : rank tier.tighter = rank tier + 1 := rank_tighter (by omega)
    have hnext : Written (need + d) (.tier tier.tighter e) w := ih (by omega)
    exact ⟨expression_of_tighter hnext.derives, complete_of_tighter hnext.complete⟩

theorem Written.or (h : Written need (.tier .primary e) w) : Written (need + 7) (.tier .or e) w :=
  h.loosen rfl

end Written

end Parse.Parser

namespace Token

open Grammar Parse

def Follows (rest : List Char) : Prop := ∀ c ∈ rest.head?, c ∈ [' ', ')', ']', ',']

theorem Follows.not_word {rest : List Char} (h : Follows rest) :
    ∀ c ∈ rest.head?, isWordChar c = false := by
  have hall : ∀ c ∈ [' ', ')', ']', ','], isWordChar c = false := forall_of_all (by decide)
  intro c hc
  exact hall c (h c hc)

/-- What the text of an expression begins with is neither blank nor the second character of an
operator, unless it is the same as the first. -/
structure Leads (c : Char) : Prop where
  equals : c ≠ '='
  greater : c ≠ '>'
  blank : Text.isBlank c = false

theorem leads_of_isWordChar {c : Char} (h : isWordChar c = true) : Leads c := by
  have hrange : 48 ≤ c.toNat ∧ c.toNat ≤ 57 ∨ 65 ≤ c.toNat ∧ c.toNat ≤ 122 := by
    rcases Bool.or_eq_true_iff.1 h with h | h
    · have := toNat_of_isWordStart h
      omega
    · exact .inl (Decimal.toNat_of_isAsciiDigit h)
  refine ⟨?_, ?_, isBlank_of_toNat (by omega)⟩
  · rintro rfl
    revert hrange
    decide
  · rintro rfl
    revert hrange
    decide

theorem IsName.isWordChar {x : String} (h : IsName x) : ∀ c ∈ x.toList, isWordChar c = true := by
  obtain ⟨⟨c, cs, hcs, hc, hd⟩, -⟩ := h
  rw [hcs]
  intro d hmem
  rcases List.mem_cons.1 hmem with rfl | hmem
  · simp [Token.isWordChar, hc]
  · exact hd d hmem

theorem IsQuoted.ends {q : Char} {s : String} (h : IsQuoted q s) :
    s.toList.head? = some q ∧ s.toList.getLast? = some q := by
  obtain ⟨cs, hcs, hclosed⟩ := h
  simp [hcs, List.getLast?_cons, hclosed.getLast?]

theorem leads_of_mark {c : Char} (hc : c ∈ '"' :: '\x27' :: marks) : Leads c := by
  have hall : ∀ c ∈ '"' :: '\x27' :: marks, c ≠ '=' ∧ c ≠ '>' ∧ Text.isBlank c = false :=
    forall_of_all (by decide)
  obtain ⟨h₁, h₂, h₃⟩ := hall c hc
  exact ⟨h₁, h₂, h₃⟩

attribute [local simp] Expr.text Expr.tailText

theorem text_number (n mark : Nat) : (Expr.number (.int n) mark).text = n.repr := rfl

theorem IsName.head {x : String} (h : IsName x) (cs : List Char) :
    ∃ c, (x.toList ++ cs).head? = some c ∧ Leads c := by
  obtain ⟨⟨c, cs', hcs, hc, -⟩, -⟩ := h
  exact ⟨c, by simp [hcs], leads_of_isWordChar (by simp [Token.isWordChar, hc])⟩

theorem text_head {e : Expr} (h : e.Printable) : ∃ c, e.text.toList.head? = some c ∧ Leads c := by
  cases h with
  | @number n mark hn =>
    obtain ⟨c, cs, hcs⟩ := List.exists_cons_of_ne_nil (Decimal.toDigits_ne_nil n)
    have hc : Text.isAsciiDigit c = true := Decimal.isAsciiDigit_toDigits (by rw [hcs]; simp)
    refine ⟨c, ?_, leads_of_isWordChar (by simp [Token.isWordChar, hc])⟩
    rw [text_number, Nat.toList_repr, hcs]
    rfl
  | string hs => exact ⟨'"', hs.ends.1, leads_of_mark (by decide)⟩
  | char hs => exact ⟨'\x27', hs.ends.1, leads_of_mark (by decide)⟩
  | name hx => simpa using hx.head []
  | binary _ _ => exact ⟨'(', by simp, leads_of_mark (by decide)⟩
  | @unary op e _ _ _ =>
    cases op with
    | neg => exact ⟨'-', by simp [UnaryOp.symbol], leads_of_mark (by decide)⟩
    | pos => exact ⟨'+', by simp [UnaryOp.symbol], leads_of_mark (by decide)⟩
    | not => exact ⟨'!', by simp [UnaryOp.symbol], leads_of_mark (by decide)⟩
  | @update op x before hx =>
    cases before with
    | true =>
      cases op with
      | inc => exact ⟨'+', by simp [UpdateOp.symbol], leads_of_mark (by decide)⟩
      | dec => exact ⟨'-', by simp [UpdateOp.symbol], leads_of_mark (by decide)⟩
    | false => simpa using hx.head op.symbol.toList
  | addressOf _ _ => exact ⟨'&', by simp, leads_of_mark (by decide)⟩
  | deref _ => exact ⟨'*', by simp, leads_of_mark (by decide)⟩
  | @element x i hx _ => simpa using hx.head ("[" ++ i.text ++ "]").toList
  | @call f args hf _ => simpa using hf.head ("(" ++ Expr.listText args ++ ")").toList

theorem text_ne_nil {e : Expr} (h : e.Printable) : e.text.toList ≠ [] := by
  obtain ⟨c, hc, -⟩ := text_head h
  intro hnil
  rw [hnil] at hc
  cases hc

section Texts

variable {need : Nat} {rest : List Char}

def Reads (need : Nat) (e : Expr) : Prop :=
  ∀ rest, Follows rest → Cuts e.text.toList rest (Parser.Written need (.tier .primary e.unmarked))

theorem Reads.mono {need' : Nat} {e : Expr} (h : Reads need e) (hn : need ≤ need') :
    Reads need' e :=
  fun rest hr => (h rest hr).mono fun _ hw => hw.mono hn

end Texts

end Token

theorem Expr.areWritable_of_forall {es : List Expr} (h : ∀ e ∈ es, e.isWritable = true) :
    Expr.areWritable es = true := by
  induction es with
  | nil => rfl
  | cons e es ih =>
    rw [Expr.areWritable, h e (by simp), ih fun a ha => h a (List.mem_cons_of_mem e ha)]
    rfl

theorem Expr.Printable.isWritable {e : Expr} (h : e.Printable) : e.isWritable = true := by
  induction h with
  | number hn =>
    rw [Expr.isWritable, Number.isWritable, Int.natAbs_natCast]
    exact decide_eq_true hn
  | binary _ _ ihl ihr => simp [Expr.isWritable, ihl, ihr]
  | unary _ _ _ ih => simpa [Expr.isWritable] using ih
  | addressOf _ _ ih => simpa [Expr.isWritable] using ih
  | deref _ ih => simpa [Expr.isWritable] using ih
  | element _ _ ih => simpa [Expr.isWritable] using ih
  | call _ _ ih => simpa [Expr.isWritable] using Expr.areWritable_of_forall ih
  | _ => rfl

namespace Parse

theorem tooDeep_of_readable {w : List Token} {e : Token} (he : e.kind = .eof)
    (hread : ∀ t ∈ w ++ [e], Readable t) {s : Stop} (h : ofTokens (w ++ [e]) = .error s)
    (hs : s.isLimit = true) : ∃ d, s = .diagnostic d ∧ d.cause = .tooDeep := by
  cases s with
  | noOperator family text => cases hs
  | diagnostic d =>
    have hlong : d.cause ≠ .longNumber := cause_of_readable (by rwa [Cursor.withEnd_end he]) h
    have hcause : d.cause = .tooDeep ∨ d.cause = .longNumber := by simpa [Stop.isLimit] using hs
    exact ⟨d, rfl, hcause.resolve_right hlong⟩

end Parse

end MiniC

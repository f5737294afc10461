import MiniC.Parse

/-! How parsers move a cursor. A parser that succeeds has read the tokens between two cursors, and
`Yields` says what holds of them then. A parser `Admits` a value if it gives it, unless it stops
because a number is too long or productions are nested too deep. Both are composed along the parts
of a parser. -/

namespace MiniC.Parse

namespace Cursor

def tokens (c : Cursor) : List Token := c.current :: c.rest

def back (c : Cursor) : List Token → Cursor
  | [] => c
  | t :: w => ⟨t, w ++ c.tokens⟩

theorem tokens_back (c : Cursor) (w : List Token) : (c.back w).tokens = w ++ c.tokens := by
  cases w <;> rfl

theorem back_append (c : Cursor) (u v : List Token) : c.back (u ++ v) = (c.back v).back u := by
  cases u with
  | nil => rfl
  | cons t u => rw [List.cons_append, back, back, tokens_back, List.append_assoc]

theorem next_back (c : Cursor) (t : Token) (w : List Token) :
    (c.back (t :: w)).next = c.back w := by
  cases w <;> rfl

def Ended (c : Cursor) : Prop := c.tokens.getLast?.map (·.kind) = some .eof

theorem Ended.of_back {c : Cursor} {w : List Token} (h : (c.back w).Ended) : c.Ended := by
  have hlast : (w ++ c.tokens).getLast? = c.tokens.getLast? := by
    rw [List.getLast?_append, tokens, List.getLast?_cons, Option.some_or]
  rw [Ended, tokens_back, hlast] at h
  exact h

theorem Ended.rest_ne_nil {c : Cursor} (h : c.Ended) (hk : c.current.kind ≠ .eof) :
    c.rest ≠ [] := by
  obtain ⟨t, ts⟩ := c
  rintro rfl
  have hkind : some t.kind = some Token.Kind.eof := h
  exact hk (Option.some.inj hkind)

theorem Ended.eq_back {c : Cursor} (h : c.Ended) (hk : c.current.kind ≠ .eof) :
    c = c.next.back [c.current] := by
  have hr := h.rest_ne_nil hk
  obtain ⟨t, ts⟩ := c
  cases ts with
  | nil => exact absurd rfl hr
  | cons u us => rfl

end Cursor

namespace Parser

variable {α β : Type} {p : Parser α} {f : α → Parser β} {c c' : Cursor} {x : α}

theorem bind_of_ok (h : p c = .ok (x, c')) (f : α → Parser β) : (p >>= f) c = f x c' := by
  change (p c >>= fun r => f r.1 r.2) = _
  rw [h]
  rfl

theorem bind_of_error {e : Stop} (h : p c = .error e) (f : α → Parser β) :
    (p >>= f) c = .error e := by
  change (p c >>= fun r => f r.1 r.2) = _
  rw [h]
  rfl

theorem bind_eq_ok {y : β} (h : (p >>= f) c = .ok (y, c')) :
    ∃ x c₁, p c = .ok (x, c₁) ∧ f x c₁ = .ok (y, c') := by
  cases hp : p c with
  | ok r => exact ⟨r.1, r.2, rfl, by rw [← bind_of_ok hp f]; exact h⟩
  | error e =>
    rw [bind_of_error hp f] at h
    cases h

theorem current_bind (f : Token → Parser α) (c : Cursor) : (current >>= f) c = f c.current c := rfl

/-- If a parser succeeds, the tokens it has read, its value and the cursor it ends with are in a
relation. -/
def Yields (p : Parser α) (c : Cursor) (Q : α → List Token → Cursor → Prop) : Prop :=
  c.Ended → ∀ x c', p c = .ok (x, c') → ∃ w, c = c'.back w ∧ Q x w c'

section Yields

variable {P : α → List Token → Cursor → Prop} {Q : β → List Token → Cursor → Prop}

theorem Yields.bind (h : Yields p c P)
    (hf : ∀ x u c', P x u c' → Yields (f x) c' fun y v c'' => Q y (u ++ v) c'') :
    Yields (p >>= f) c Q := by
  intro he y c'' hy
  obtain ⟨x, c', hx, hfx⟩ := bind_eq_ok hy
  obtain ⟨u, rfl, hP⟩ := h he x c' hx
  obtain ⟨v, rfl, hQ⟩ := hf x u c' hP he.of_back y c'' hfx
  exact ⟨u ++ v, (Cursor.back_append c'' u v).symm, hQ⟩

theorem Yields.mono {P' : α → List Token → Cursor → Prop} (h : Yields p c P)
    (hP : ∀ x w c', P x w c' → P' x w c') : Yields p c P' := by
  intro he x c' hx
  obtain ⟨w, hc, hp⟩ := h he x c' hx
  exact ⟨w, hc, hP x w c' hp⟩

theorem Yields.located (h : Yields p c P) : Yields p c fun x w c' => P x w c' ∧ c = c'.back w := by
  intro he x c' hx
  obtain ⟨w, hc, hp⟩ := h he x c' hx
  exact ⟨w, hc, hp, hc⟩

theorem yields_pure (h : P x [] c) : Yields (pure x) c P := by
  intro _ y c' hy
  cases hy
  exact ⟨[], rfl, h⟩

theorem yields_throw (e : Stop) : Yields (throw e : Parser α) c P := by
  intro _ x c' hx
  cases hx

theorem yields_fail (cause : Cause) : Yields (fail cause : Parser α) c P := by
  intro _ x c' hx
  cases hx

theorem Yields.map {g : α → β} (h : Yields p c P) (hg : ∀ x w c', P x w c' → Q (g x) w c') :
    Yields (p >>= fun x => pure (g x)) c Q := by
  refine h.bind fun x w c' hx => yields_pure ?_
  rw [List.append_nil]
  exact hg x w c' hx

theorem yields_current {f : Token → Parser α} (h : Yields (f c.current) c P) :
    Yields (current >>= f) c P := h

theorem yields_get {f : Cursor → Parser α} (h : Yields (f c) c P) : Yields (get >>= f) c P := h

theorem yields_advance (hk : c.current.kind ≠ .eof) :
    Yields advance c fun t w c' => t = c.current ∧ w = [t] ∧ c' = c.next := by
  intro he t c' ht
  cases ht
  exact ⟨[c.current], he.eq_back hk, rfl, rfl, rfl⟩

theorem yields_taken {k : Token.Kind} {f : Token → Parser β} (hc : c.current.kind = k)
    (hk : k ≠ .eof) (h : ∀ c', Yields (f c.current) c' fun y v c'' => Q y (c.current :: v) c'') :
    Yields (advance >>= f) c Q := by
  refine (yields_advance (by rw [hc]; exact hk)).bind ?_
  rintro t w c' ⟨rfl, rfl, -⟩
  exact h c'

theorem yields_expect {k : Token.Kind} (hk : k ≠ .eof) (cause : Cause) :
    Yields (expect k cause) c fun t w _ => t.kind = k ∧ w = [t] := by
  refine yields_current ?_
  split
  · rename_i hc
    refine (yields_advance (by rw [hc]; exact hk)).mono ?_
    rintro t w c' ⟨rfl, rfl, -⟩
    exact ⟨hc, rfl⟩
  · exact yields_fail cause

theorem yields_accept {k : Token.Kind} (hk : k ≠ .eof) :
    Yields (accept k) c fun b w c' =>
      (b = true ∧ c.current.kind = k ∧ w = [c.current]) ∨
      (b = false ∧ w = [] ∧ c' = c ∧ c.current.kind ≠ k) := by
  refine yields_current ?_
  split
  · rename_i hc
    exact yields_taken hc hk fun c' => yields_pure (.inl ⟨rfl, hc, rfl⟩)
  · rename_i hc
    exact yields_pure (.inr ⟨rfl, rfl, rfl, hc⟩)

theorem yields_acceptText {k : Token.Kind} (hk : k ≠ .eof) (text : String) :
    Yields (acceptText k text) c fun b w c' =>
      (b = true ∧ c.current.is k text = true ∧ w = [c.current]) ∨
        (b = false ∧ w = [] ∧ c' = c ∧ c.current.is k text = false) := by
  refine yields_current ?_
  split
  · rename_i hc
    exact yields_taken (Token.is_iff.1 hc).1 hk fun c' => yields_pure (.inl ⟨rfl, hc, rfl⟩)
  · rename_i hc
    exact yields_pure (.inr ⟨rfl, rfl, rfl, Bool.eq_false_iff.2 hc⟩)

end Yields

section Repeated

variable {more : Token → Bool} {item : Parser α}
variable {R : α → List Token → Prop} {L : List α → List Token → Prop}

/-- Repeated items give a list of them, whether the tokens counted off run out or not. -/
theorem yields_manyOver (nil : L [] [])
    (cons : ∀ {x xs u v}, R x u → L xs v → L (x :: xs) (u ++ v))
    (h : ∀ c : Cursor, more c.current = true → Yields item c fun x w _ => R x w)
    (left : List Token) (c : Cursor) :
    Yields (manyOver more item left) c fun xs w _ => L xs w := by
  induction left generalizing c with
  | nil => exact yields_pure nil
  | cons t left ih =>
    refine yields_current ?_
    split
    · rename_i hmore
      exact (h c hmore).bind fun x u c' hx => (ih c').map fun xs v c'' hxs => cons hx hxs
    · exact yields_pure nil

theorem yields_many (nil : L [] []) (cons : ∀ {x xs u v}, R x u → L xs v → L (x :: xs) (u ++ v))
    (h : ∀ c : Cursor, more c.current = true → Yields item c fun x w _ => R x w) (c : Cursor) :
    Yields (many more item) c fun xs w _ =>
      L xs w := yields_get (yields_manyOver nil cons h c.rest c)

end Repeated

theorem yields_commaList {close : Token.Kind} {item : Parser α} {R : α → List Token → Prop}
    {L : List α → List Token → Prop} (nil : L [] []) (last : ∀ {x w}, R x w → L [x] w)
    (cons : ∀ {x xs t u v}, R x u → t.kind = .comma → L xs v → L (x :: xs) (u ++ t :: v))
    (h : ∀ c : Cursor, Yields item c fun x w _ => R x w) (c : Cursor) :
    Yields (commaList close item) c fun xs w _ => L xs w := by
  have hover : ∀ (left : List Token) (c : Cursor),
      Yields (commaListOver close item left) c fun xs w _ => L xs w := by
    intro left
    induction left with
    | nil => exact fun c => yields_pure nil
    | cons t left ih =>
      intro c
      refine yields_current ?_
      split
      · exact yields_pure nil
      · refine (h c).bind fun x u c' hx => (yields_accept (by decide)).bind ?_
        rintro b w c'' (⟨rfl, ht, rfl⟩ | ⟨rfl, rfl, -, -⟩)
        · exact (ih c'').map fun xs v c₃ hxs => cons hx ht hxs
        · refine yields_pure ?_
          rw [List.append_nil, List.append_nil]
          exact last hx
  exact yields_get (hover c.rest c)

end Parser

def Stop.isLimit : Stop → Bool
  | .diagnostic d => d.cause = .tooDeep || d.cause = .longNumber
  | .noOperator .. => false

def Stop.isTooDeep : Stop → Bool
  | .diagnostic d => d.cause = .tooDeep
  | .noOperator .. => false

namespace Parser

variable {α β : Type} {deep : Prop} {p : Parser α} {f : α → Parser β} {c c' : Cursor} {x : α}

/-- A parser gives a value and ends with a cursor, or it stops at a limit; at the depth of the
nesting it only stops if `deep` holds. -/
def AdmitsIf (deep : Prop) (p : Parser α) (c : Cursor) (x : α) (c' : Cursor) : Prop :=
  p c = .ok (x, c') ∨ ∃ s, p c = .error s ∧ s.isLimit = true ∧ (s.isTooDeep = true → deep)

abbrev Admits (p : Parser α) (c : Cursor) (x : α) (c' : Cursor) : Prop := AdmitsIf True p c x c'

theorem AdmitsIf.mono {deep' : Prop} (h : AdmitsIf deep p c x c') (hd : deep → deep') :
    AdmitsIf deep' p c x c' := by
  rcases h with h | ⟨s, h, hs, hdeep⟩
  · exact .inl h
  · exact .inr ⟨s, h, hs, fun hs' => hd (hdeep hs')⟩

theorem AdmitsIf.bind {c₁ : Cursor} {y : β} (h : AdmitsIf deep p c x c₁)
    (hf : AdmitsIf deep (f x) c₁ y c') :
    AdmitsIf deep (p >>= f) c y c' := by
  rcases h with h | ⟨s, h, hs⟩
  · rw [AdmitsIf, bind_of_ok h f]
    exact hf
  · exact .inr ⟨s, bind_of_error h f, hs⟩

theorem admits_pure (x : α) (c : Cursor) : AdmitsIf deep (pure x) c x c := .inl rfl

theorem admits_tooDeep (hd : deep) (c : Cursor) (x : α) (c' : Cursor) :
    AdmitsIf deep tooDeep c x c' :=
  .inr ⟨_, rfl, rfl, fun _ => hd⟩

theorem admits_current {f : Token → Parser α} (h : AdmitsIf deep (f c.current) c x c') :
    AdmitsIf deep (current >>= f) c x c' := h

theorem admits_get {f : Cursor → Parser α} (h : AdmitsIf deep (f c) c x c') :
    AdmitsIf deep (get >>= f) c x c' := h

theorem admits_advance (c : Cursor) (t : Token) (w : List Token) :
    AdmitsIf deep advance (c.back (t :: w)) t (c.back w) := by
  refine .inl ?_
  change Except.ok (t, (c.back (t :: w)).next) = _
  rw [Cursor.next_back]

theorem admits_expect {k : Token.Kind} {t : Token} (ht : t.kind = k) (cause : Cause) (c : Cursor)
    (w : List Token) : AdmitsIf deep (expect k cause) (c.back (t :: w)) t (c.back w) := by
  refine admits_current ?_
  rw [if_pos (show (c.back (t :: w)).current.kind = k from ht)]
  exact admits_advance c t w

theorem admits_accept {k : Token.Kind} {t : Token} (ht : t.kind = k) (c : Cursor) (w : List Token) :
    AdmitsIf deep (accept k) (c.back (t :: w)) true (c.back w) := by
  refine admits_current ?_
  rw [if_pos (show (c.back (t :: w)).current.kind = k from ht)]
  exact (admits_advance c t w).bind (admits_pure true _)

theorem admits_reject {k : Token.Kind} (hc : c.current.kind ≠ k) :
    AdmitsIf deep (accept k) c false c := by
  refine admits_current ?_
  rw [if_neg hc]
  exact admits_pure false c

theorem admits_acceptText {k : Token.Kind} {text : String} {t : Token} (ht : t.is k text = true)
    (c : Cursor) (w : List Token) :
    AdmitsIf deep (acceptText k text) (c.back (t :: w)) true (c.back w) := by
  refine admits_current ?_
  rw [if_pos (show (c.back (t :: w)).current.is k text = true from ht)]
  exact (admits_advance c t w).bind (admits_pure true _)

theorem admits_rejectText {k : Token.Kind} {text : String} (hc : c.current.is k text = false) :
    AdmitsIf deep (acceptText k text) c false c := by
  refine admits_current ?_
  rw [hc]
  exact admits_pure false c

end Parser

end MiniC.Parse

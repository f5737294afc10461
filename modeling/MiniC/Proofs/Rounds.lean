import MiniC.Proofs.Progress

/-! The loops of reading, without the tokens they count off. A loop looks at the next token before
each round, and a round may be the last. No round ends where it began, so every loop comes to an
end, and with the result that counting gives: there are always tokens left to count. Main statement:
every production lands on a token behind the one it began at, and every loop ends. -/

namespace MiniC.Parse

structure Loop (σ : Type) where
  more : Token → Bool
  round : σ → Parser (σ × Bool)

namespace Loop

variable {σ : Type}

/-- How a loop runs from a state and a cursor. Each of its rounds takes a token. -/
inductive Runs (l : Loop σ) : σ → Cursor → Except Stop (σ × Cursor) → Prop
  | done {s : σ} {c : Cursor} : l.more c.current = false → Runs l s c (.ok (s, c))
  | stopped {s : σ} {c : Cursor} {e : Stop} : l.more c.current = true → l.round s c = .error e →
      Runs l s c (.error e)
  | last {s s' : σ} {c c' : Cursor} :
      l.more c.current = true → l.round s c = .ok ((s', false), c') →
      c.Before c' → Runs l s c (.ok (s', c'))
  | again {s s' : σ} {c c' : Cursor} {r : Except Stop (σ × Cursor)} : l.more c.current = true →
      l.round s c = .ok ((s', true), c') → c.Before c' → Runs l s' c' r → Runs l s c r

/-- A parser runs a loop, at most one round for each token counted off. Some tokens may be counted
beyond those that are left, and must be if the end mark does not end the loop. -/
structure Counts (l : Loop σ) (f : List Token → σ → Parser σ) (spare : Nat) : Prop where
  done : ∀ left s c, l.more c.current = false → f left s c = .ok (s, c)
  next : ∀ t left s c, l.more c.current = true →
    f (t :: left) s c = (l.round s >>= fun r => if r.2 then f left r.1 else pure r.1) c
  moves : ∀ s c, l.more c.current = true → Parser.Yields (l.round s) c fun _ w _ => w ≠ []
  ends : ∀ t : Token, t.kind = .eof → l.more t = false ∨ 0 < spare

theorem Counts.runs {l : Loop σ} {f : List Token → σ → Parser σ} {spare : Nat}
    (h : l.Counts f spare) {left : List Token} {s : σ} {c : Cursor} (hc : c.Ended)
    (hleft : c.rest.length + spare ≤ left.length) :
    l.Runs s c (f left s c) := by
  -- on the tokens counted off: a round takes one at least, so those before the cursor never
  -- outnumber them
  induction left generalizing s c with
  | nil =>
    rw [List.length_nil] at hleft
    have hend := h.ends c.current (hc.eof_of_rest (by omega))
    have hmore : l.more c.current = false := hend.resolve_right (by omega)
    rw [h.done _ _ _ hmore]
    exact .done hmore
  | cons t left ih =>
    cases hmore : l.more c.current with
    | false =>
      rw [h.done _ _ _ hmore]
      exact .done hmore
    | true =>
      rw [h.next _ _ _ _ hmore]
      cases hround : l.round s c with
      | error e =>
        rw [Parser.bind_of_error hround]
        exact .stopped hmore hround
      | ok r =>
        obtain ⟨⟨s', goOn⟩, c'⟩ := r
        obtain ⟨w, hw, hne⟩ := h.moves s c hmore hc _ _ hround
        have hbefore : c.Before c' := ⟨w, hne, hw⟩
        rw [Parser.bind_of_ok hround]
        cases goOn with
        | false => exact .last hmore hround hbefore
        | true =>
          have hlt := hbefore.length_lt
          rw [List.length_cons] at hleft
          exact .again hmore hround hbefore (ih (hbefore.ended hc) (by omega))

end Loop

namespace Parser

variable {α : Type}

def repeated (more : Token → Bool) (item : Parser α) : Loop (List α) where
  more := more
  round xs := do return (xs ++ [← item], true)

def separated (more : Token → Bool) (item : Parser α) : Loop (List α) where
  more := more
  round xs := do
    let x ← item
    return (xs ++ [x], ← accept .comma)

def operands (tier : Tier) (operand : Parser Expr) : Loop Expr where
  more t := (tier.operator? t).isSome
  round e := do
    match tier.operator? (← current) with
    | none => return (e, false)
    | some op =>
      let _ ← advance
      return (.binary op e (← operand), true)

def sections (expr : Parser Expr) (stmt : Parser Stmt) :
    Loop (List SwitchCase × Option (List Stmt)) where
  more t := !isBlockEnd t
  round s := do
    let t ← current
    if t.is .keyword "case" then
      let _ ← advance
      let value ← expr
      let body ← labelled stmt .caseColon
      return ((s.1 ++ [.mk value body], s.2), true)
    else if t.is .keyword "default" then
      if s.2.isSome then fail .secondDefault
      else
        let _ ← advance
        let body ← labelled stmt .defaultColon
        return ((s.1, some body), true)
    else fail (.noLabel t.text)

section Repeated

variable {more : Token → Bool} {item : Parser α}

theorem manyOver_done {c : Cursor} (h : more c.current = false) (left : List Token) :
    manyOver more item left c = .ok ([], c) := by
  cases left with
  | nil => rfl
  | cons t left =>
    rw [manyOver, current_bind, h]
    rfl

theorem manyOver_item {c : Cursor} (h : more c.current = true) (t : Token) (left : List Token) :
    manyOver more item (t :: left) c =
      (item >>= fun x => manyOver more item left >>= fun xs => pure (x :: xs)) c := by
  rw [manyOver, current_bind, if_pos h]

theorem counts_repeated (hend : ∀ t : Token, t.kind = .eof → more t = false)
    (h : ∀ c : Cursor, more c.current = true → Yields item c fun _ w _ => w ≠ []) :
    (repeated more item).Counts (fun left xs => manyOver more item left >>= fun ys =>
      pure (xs ++ ys)) 0 where
  done left xs c hmore := by
    have hmore : more c.current = false := hmore
    rw [bind_of_ok (manyOver_done hmore left), List.append_nil]
    rfl
  next t left xs c hmore := by
    have hmore : more c.current = true := hmore
    rw [bind_congr_left (manyOver_item hmore t left)]
    simp only [repeated, bind_assoc, pure_bind, if_true, List.append_assoc, List.singleton_append]
  moves xs c hmore := (h c hmore).map fun _ _ _ hw => hw
  ends t ht := .inl (hend t ht)

theorem repeated_runs (hend : ∀ t : Token, t.kind = .eof → more t = false)
    (h : ∀ c : Cursor, more c.current = true → Yields item c fun _ w _ => w ≠ []) {c : Cursor}
    (hc : c.Ended) :
    (repeated more item).Runs [] c (many more item c) := by
  have hruns := (counts_repeated hend h).runs (s := []) hc (Nat.le_refl c.rest.length)
  simp only [List.nil_append, bind_pure] at hruns
  exact hruns

end Repeated

section Separated

variable {more : Token → Bool} {item : Parser α} {f : List Token → Parser (List α)} {spare : Nat}

theorem counts_separated
    (hdone : ∀ left (c : Cursor), more c.current = false → f left c = .ok ([], c))
    (hitem : ∀ t left (c : Cursor), more c.current = true →
      f (t :: left) c =
      (item >>= fun x => accept .comma >>= fun comma => if comma then f left >>= fun xs =>
      pure (x :: xs) else pure [x]) c)
    (h : Moves item) (hend : ∀ t : Token, t.kind = .eof → more t = false ∨ 0 < spare) :
    (separated more item).Counts (fun left xs => f left >>= fun ys => pure (xs ++ ys)) spare where
  done left xs c hmore := by
    rw [bind_of_ok (hdone left c hmore), List.append_nil]
    rfl
  next t left xs c hmore := by
    rw [bind_congr_left (hitem t left c hmore)]
    simp only [separated, bind_assoc, pure_bind]
    -- both sides read an item and perhaps a comma; they differ in where the items so far are put in
    -- front
    refine congrFun
      (congrArg (item >>= ·) (funext fun x => congrArg (accept .comma >>= ·)
      (funext fun comma => ?_))) c
    cases comma <;> simp
  moves xs c _ := (h.bind fun _ => (stays_accept (by decide)).bind fun _ => stays_pure _) c
  ends := hend

theorem commaList_runs {expr : Parser Expr} (h : Moves expr) (close : Token.Kind) {c : Cursor}
    (hc : c.Ended) :
    (separated (fun t => !(t.kind = close || t.kind = .eof)) expr).Runs [] c
      (commaList close expr c) := by
  have hcounts : (separated (fun t => !(t.kind = close || t.kind = .eof)) expr).Counts
      (fun left xs => commaListOver close expr left >>= fun ys => pure (xs ++ ys)) 0 := by
    apply counts_separated
    · intro left c hmore
      apply commaListOver_end
      rw [Bool.not_eq_false'] at hmore
      simpa using hmore
    · intro t left c hmore
      apply commaListOver_item
      simpa using hmore
    · exact h
    · intro t ht
      simp [ht]
  have hruns := hcounts.runs (s := []) hc (Nat.le_refl c.rest.length)
  simp only [List.nil_append, bind_pure] at hruns
  exact hruns

/-- A parameter is asked for also where none begins, so one more token is counted than is left. -/
theorem parameters_run {c : Cursor} (hc : c.Ended) :
    (separated (fun _ => true) parameter).Runs [] c (parametersOver c.tokens c) := by
  have hcounts : (separated (fun _ => true) parameter).Counts
      (fun left xs => parametersOver left >>= fun ys => pure (xs ++ ys)) 1 := by
    apply counts_separated
    · intro left c hmore
      cases hmore
    · intro t left c _
      rfl
    · exact moves_parameter
    · intro t _
      exact .inr Nat.one_pos
  have hruns := hcounts.runs (s := []) hc (Nat.le_refl c.tokens.length)
  simp only [List.nil_append, bind_pure] at hruns
  exact hruns

end Separated

section Folded

theorem operands_run {tier : Tier} {operand : Parser Expr} (h : Moves operand) (e : Expr)
    {c : Cursor} (hc : c.Ended) :
    (operands tier operand).Runs e c (chainOver tier.operator? operand c.rest e c) := by
  have hcounts : (operands tier operand).Counts (chainOver tier.operator? operand) 0 := by
    refine ⟨?_, ?_, ?_, ?_⟩
    · intro left e c hmore
      exact chainOver_none (by simpa [operands] using hmore) left e
    · intro t left e c hmore
      obtain ⟨op, hop⟩ := Option.isSome_iff_exists.1 hmore
      rw [chainOver_some hop]
      simp [operands, bind_assoc, current_bind, hop]
    · intro e c hmore
      obtain ⟨op, hop⟩ := Option.isSome_iff_exists.1 hmore
      apply yields_current
      rw [hop]
      exact (stays_advance.bind_moves fun _ => h.bind fun _ => stays_pure _) c
    · intro t ht
      cases hop : tier.operator? t with
      | none => exact .inl (by simp [operands, hop])
      | some op => exact absurd ht (operator?_ne_eof hop)
  exact hcounts.runs hc (Nat.le_refl _)

variable {expr : Parser Expr} {stmt : Parser Stmt}

theorem sectionsOver_done {c : Cursor} (h : isBlockEnd c.current = true) (left : List Token)
    (s : List SwitchCase × Option (List Stmt)) :
    sectionsOver expr stmt left s.1 s.2 c = .ok (s, c) := by
  cases left with
  | nil => rfl
  | cons t left =>
    rw [sectionsOver, current_bind, if_pos h]
    rfl

theorem sectionsOver_next {c : Cursor} (h : isBlockEnd c.current = false) (t : Token)
    (left : List Token) (s : List SwitchCase × Option (List Stmt)) :
    sectionsOver expr stmt (t :: left) s.1 s.2 c =
      ((sections expr stmt).round s >>= fun r =>
        if r.2 then sectionsOver expr stmt left r.1.1 r.1.2 else pure r.1) c := by
  simp only [sectionsOver, sections, bind_assoc, current_bind, h, Bool.false_eq_true, if_false]
  by_cases hcase : c.current.is .keyword "case" = true
  · simp [hcase]
  · by_cases hdefault : c.current.is .keyword "default" = true
    · simp only [hcase, hdefault, if_true]
      cases s.2.isSome with
      | true => rfl
      | false => simp
    · simp only [hcase, hdefault]
      rfl

theorem moves_section (he : Stays expr) (hs : Stays stmt)
    (s : List SwitchCase × Option (List Stmt)) :
    Moves ((sections expr stmt).round s) := by
  intro c
  apply yields_current
  split
  · rename_i ht
    have hrest := he.bind fun value => (stays_labelled hs .caseColon).bind fun body =>
      stays_pure ((s.1 ++ [SwitchCase.mk value body], s.2), true)
    apply yields_taken (Token.is_iff.1 ht).1 (by decide)
    exact fun c' => (hrest c').mono fun _ _ _ _ => List.cons_ne_nil _ _
  · split
    · rename_i ht
      split
      · exact yields_fail _
      · have hrest := (stays_labelled hs .defaultColon).bind fun body =>
          stays_pure ((s.1, some body), true)
        apply yields_taken (Token.is_iff.1 ht).1 (by decide)
        exact fun c' => (hrest c').mono fun _ _ _ _ => List.cons_ne_nil _ _
    · exact yields_fail _

theorem sections_run (he : Stays expr) (hs : Stays stmt)
    (s : List SwitchCase × Option (List Stmt)) {c : Cursor} (hc : c.Ended) :
    (sections expr stmt).Runs s c (sectionsOver expr stmt c.rest s.1 s.2 c) := by
  have hcounts : (sections expr stmt).Counts (fun left s => sectionsOver expr stmt left s.1 s.2)
      0 := by
    refine ⟨?_, ?_, ?_, ?_⟩
    · intro left s c hmore
      exact sectionsOver_done (by simpa [sections] using hmore) left s
    · intro t left s c hmore
      exact sectionsOver_next (by simpa [sections] using hmore) t left s
    · intro s c _
      exact moves_section he hs s c
    · intro t ht
      simp [sections, isBlockEnd, ht]
  exact hcounts.runs (s := s) hc (Nat.le_refl _)

end Folded

end Parser

open MiniC.Parse.Parser

def Lands {α : Type} (ts : List Token) (i : Nat) (result : Except Stop (α × Cursor)) : Prop :=
  ∀ x c, result = .ok (x, c) → ∃ j, i < j ∧ j < ts.length ∧ c.At ts j

theorem Parser.Moves.lands {α : Type} {p : Parser α} (h : Moves p) {ts : List Token} {i : Nat}
    {c : Cursor} (hc : c.At (Cursor.withEnd ts) i) : Lands (Cursor.withEnd ts) i (p c) := by
  intro x c' hx
  obtain ⟨w, hw, hne⟩ := h c hc.ended x c' hx
  exact Cursor.Before.at ⟨w, hne, hw⟩ hc

/-- The productions, at the token of an index and whatever it is, with some depth left for
expressions and for statements. -/
structure ProductionsLand (ts : List Token) (i : Nat) (c : Cursor) (m n : Nat) : Prop where
  statement : Lands ts i (statement n c)
  block : Lands ts i (block (Parser.statement n) c)
  declaration : Lands ts i (declaration (expression m .or) (Parser.statement n) c)
  simple : Lands ts i (simple (expression m .or) c)
  simpleStatement : Lands ts i (simpleStatement (expression m .or) c)
  expression : ∀ tier, Lands ts i (expression m tier c)
  braces : Lands ts i (braces (Parser.expression m .or) c)

structure LoopsEnd (c : Cursor) (m n : Nat) : Prop where
  program : (repeated (·.kind ≠ .eof) (item n)).Runs [] c (program n c)
  block : (repeated (!isBlockEnd ·) (statement n)).Runs [] c (many (!isBlockEnd ·) (statement n) c)
  sections : ∀ s, (sections (expression m .or) (statement n)).Runs s c
    (sectionsOver (expression m .or) (statement n) c.rest s.1 s.2 c)
  caseBody : (repeated (!isCaseEnd ·) (statement n)).Runs [] c (many (!isCaseEnd ·) (statement n) c)
  typeWords : (repeated isTypeWord advance).Runs [] c (many isTypeWord advance c)
  stars : (repeated (·.is .operator "*") advance).Runs [] c (many (·.is .operator "*") advance c)
  parameters : (separated (fun _ => true) parameter).Runs [] c (parametersOver c.tokens c)
  commaList : ∀ close,
    (separated (fun t => !(t.kind = close || t.kind = .eof)) (expression m .or)).Runs [] c
    (commaList close (expression m .or) c)
  operands : ∀ tier e, (operands tier (expression m tier.tighter)).Runs e c
    (chainOver tier.operator? (expression m tier.tighter) c.rest e c)

theorem productions_land {ts : List Token} {i : Nat} {c : Cursor}
    (hc : c.At (Cursor.withEnd ts) i) (m n : Nat) :
    ProductionsLand (Cursor.withEnd ts) i c m n where
  statement := (moves_statement n).lands hc
  block := (moves_block (moves_statement n).stays).lands hc
  declaration := (moves_declaration (yields_expression m .or) (moves_statement n).stays).lands hc
  simple := (moves_simple (yields_expression m .or)).lands hc
  simpleStatement := (moves_simpleStatement (yields_expression m .or)).lands hc
  expression tier := (moves_expression m tier).lands hc
  braces := (moves_braces (moves_expression m .or).stays).lands hc

theorem yields_advance_of {more : Token → Bool}
    (hend : ∀ t : Token, t.kind = .eof → more t = false) {c : Cursor}
    (hmore : more c.current = true) : Yields advance c fun _ w _ => w ≠ [] := by
  have hk : c.current.kind ≠ .eof := by
    intro hk
    rw [hend _ hk] at hmore
    cases hmore
  apply (yields_advance hk).mono
  intro t w c' h
  rw [h.2.1]
  exact List.cons_ne_nil _ _

theorem loops_end {c : Cursor} (hc : c.Ended) (m n : Nat) : LoopsEnd c m n := by
  have hword : ∀ t : Token, t.kind = .eof → isTypeWord t = false := by
    intro t ht
    simp [isTypeWord, ht]
  have hstar : ∀ t : Token, t.kind = .eof → t.is .operator "*" = false := by
    intro t ht
    simp [Token.is, ht]
  exact {
    program := repeated_runs (by simp) (fun c _ => moves_item n c) hc
    block := repeated_runs (fun t ht => by simp [isBlockEnd, ht])
      (fun c _ => moves_statement n c) hc
    sections := fun s => sections_run (moves_expression m .or).stays (moves_statement n).stays s hc
    caseBody := repeated_runs (fun t ht => by simp [isCaseEnd, isBlockEnd, ht])
      (fun c _ => moves_statement n c) hc
    typeWords := repeated_runs hword (fun c hmore => yields_advance_of hword hmore) hc
    stars := repeated_runs hstar (fun c hmore => yields_advance_of hstar hmore) hc
    parameters := parameters_run hc
    commaList := fun close => commaList_runs (moves_expression m .or) close hc
    operands := fun tier e => operands_run (moves_expression m tier.tighter) e hc }

/-- Reading ends with a tree, with a diagnostic at one of the tokens, or at a token that writes no
operator. -/
theorem ofTokens_cases (ts : List Token) : (∃ tree, ofTokens ts = .ok tree) ∨
    (∃ family text, ofTokens ts = .error (.noOperator family text)) ∨
    ∃ (d : Diagnostic) (j : Nat) (t : Token), ofTokens ts = .error (.diagnostic d) ∧
      (Cursor.withEnd ts)[j]? = some t ∧ t.pos = d.pos := by
  have hpaired :=
    indexed_of_same (List.forall₂_same.2 fun t (_ : t ∈ Cursor.withEnd ts) => ⟨rfl, rfl⟩)
  rcases Pairing.ofTokens_ends hpaired with ⟨tree, htree, -⟩ | ⟨s, s', hs, -, hstop⟩
  · exact .inl ⟨tree, htree⟩
  · rcases hstop with ⟨family, text, rfl, -⟩ | ⟨d, d', rfl, -, halike⟩
    · exact .inr (.inl ⟨family, text, hs⟩)
    · obtain ⟨j, t, -, ht, -, hpos, -⟩ := halike.place
      exact .inr (.inr ⟨d, j, t, hs, ht, hpos⟩)

/-- Over any tokens and from any of them, a production that succeeds ends on a later token of the
list. Each round of a loop takes a token and every loop ends. A cursor is on a token, its next one
is on the following token or on the same one at the end, and reading from the first token ends with
a tree or at a token of the list. -/
theorem reading_moves_on (ts : List Token) (i : Nat) (c : Cursor)
    (hc : c.At (Cursor.withEnd ts) i) (m n : Nat) :
    ProductionsLand (Cursor.withEnd ts) i c m n ∧ LoopsEnd c m n ∧
    ((Cursor.withEnd ts)[i]? = some c.current ∧
      c.next.At (Cursor.withEnd ts) (min (i + 1) ((Cursor.withEnd ts).length - 1))) ∧
    (Cursor.ofTokens ts).At (Cursor.withEnd ts) 0 ∧
    ((∃ tree, ofTokens ts = .ok tree) ∨
      (∃ family text, ofTokens ts = .error (.noOperator family text)) ∨
      ∃ (d : Diagnostic) (j : Nat) (t : Token), ofTokens ts = .error (.diagnostic d) ∧
        (Cursor.withEnd ts)[j]? = some t ∧ t.pos = d.pos) :=
  ⟨productions_land hc m n, loops_end hc.ended m n, ⟨hc.current, hc.next⟩, Cursor.at_ofTokens ts,
    ofTokens_cases ts⟩

def frontMarked : List Token := [⟨.eof, "", 3⟩, ⟨.identifier, "x", 0⟩, ⟨.semicolon, ";", 1⟩]

theorem reading_moves_on_frontMarked :
    Cursor.At (Cursor.withEnd frontMarked) 1
      ⟨⟨.identifier, "x", 0⟩, [⟨.semicolon, ";", 1⟩, ⟨.eof, "", 2⟩]⟩ ∧
    statement 20 ⟨⟨.identifier, "x", 0⟩, [⟨.semicolon, ";", 1⟩, ⟨.eof, "", 2⟩]⟩ =
      .ok (.expr (.name "x"), ⟨⟨.eof, "", 2⟩, []⟩) ∧
    ∃ j, 1 < j ∧ j < 4 ∧ Cursor.At (Cursor.withEnd frontMarked) j ⟨⟨.eof, "", 2⟩, []⟩ := by
  have hat : Cursor.At (Cursor.withEnd frontMarked) 1
      ⟨⟨.identifier, "x", 0⟩, [⟨.semicolon, ";", 1⟩, ⟨.eof, "", 2⟩]⟩ := rfl
  have hread : statement 20 ⟨⟨.identifier, "x", 0⟩, [⟨.semicolon, ";", 1⟩, ⟨.eof, "", 2⟩]⟩ =
      .ok (.expr (.name "x"), ⟨⟨.eof, "", 2⟩, []⟩) := rfl
  exact ⟨hat, hread, (reading_moves_on frontMarked 1 _ hat 20 20).1.statement _ _ hread⟩

end MiniC.Parse

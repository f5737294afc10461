import MiniC.Proofs.Statements

/-! Programs are read as the grammar derives them. The tokens of a text end with an end mark, and
there is none before. Main statement: if they have no invalid token among them and are a program,
what is read is what the grammar derives, up to the two limits of reading. -/

namespace MiniC.Parse.Parser

open Grammar

theorem program_head {body : List Stmt} {w : List Token} (h : Program body w) :
    w = [] ∨ ∃ t v, w = t :: v ∧ (t.kind = .preprocessor ∨ StartsStatement t) := by
  cases h with
  | nil => exact .inl rfl
  | directive ht _ => exact .inr ⟨_, _, rfl, .inl ht⟩
  | statement hs _ =>
    obtain ⟨t, v, rfl, ht⟩ := statement_head hs
    exact .inr ⟨t, _, rfl, .inr ht⟩

theorem program_next {body : List Stmt} {w : List Token} (h : Program body w) {c : Cursor}
    (hc : c.current.kind = .eof) : (c.back w).current.is .keyword "else" = false := by
  rcases program_head h with rfl | ⟨t, v, rfl, ht | ht⟩
  · exact not_is (show c.current.kind ≠ .keyword by rw [hc]; decide) "else"
  · exact not_is (show t.kind ≠ .keyword by rw [ht]; decide) "else"
  · exact ht.not_word (by decide)

theorem admits_items {body : List Stmt} {w : List Token} (h : Program body w) (n : Nat) {c : Cursor}
    (hc : c.current.kind = .eof) {fuel : List Token} (hfuel : w.length ≤ fuel.length) :
    Admits (manyOver (·.kind ≠ .eof) (item n) fuel) (c.back w) body c := by
  induction h generalizing fuel with
  | nil =>
    cases fuel with
    | nil => exact admits_pure [] c
    | cons t fuel =>
      refine admits_current ?_
      rw [if_neg (show ¬decide ((c.back []).current.kind ≠ .eof) = true by simp [Cursor.back, hc])]
      exact admits_pure [] c
  | @directive t ss w ht _ ih =>
    cases fuel with
    | nil => simp at hfuel
    | cons t' fuel =>
      have hitem : Admits (item n) (c.back (t :: w)) (.preprocessor t.text) (c.back w) := by
        refine admits_current ?_
        rw [if_pos (show (c.back (t :: w)).current.kind = .preprocessor from ht)]
        exact (admits_advance c t w).bind (admits_pure _ _)
      refine admits_current ?_
      rw [if_pos (show decide ((c.back (t :: w)).current.kind ≠ .eof) =
        true by simp [Cursor.back, ht])]
      exact hitem.bind ((ih (Nat.le_of_succ_le_succ hfuel)).bind (admits_pure _ c))
  | @statement s ss u v hs hv ih =>
    have hstatement := statement_complete hs n (c.back v) fun _ => program_next hv hc
    obtain ⟨t, u, rfl, ht⟩ := statement_head hs
    rw [List.length_append, List.length_cons] at hfuel
    cases fuel with
    | nil => simp at hfuel
    | cons t' fuel =>
      rw [List.length_cons] at hfuel
      have hline : ¬((c.back v).back (t :: u)).current.kind = .preprocessor :=
        ht.kind_ne (by decide)
      have hmore : decide (((c.back v).back (t :: u)).current.kind ≠ .eof) = true :=
        decide_eq_true (ht.kind_ne (by decide))
      have hitem : Admits (item n) ((c.back v).back (t :: u)) s (c.back v) := by
        refine admits_current ?_
        rw [if_neg hline]
        exact hstatement
      rw [Cursor.back_append]
      refine admits_current ?_
      rw [if_pos hmore]
      exact hitem.bind ((ih (by omega)).bind (admits_pure _ c))

theorem admits_wholeTree {body : List Stmt} {w : List Token} (h : Program body w) (n : Nat)
    {c : Cursor} (hc : c.current.kind = .eof) :
    Admits (wholeTree n true) (c.back w) (.program body) c := by
  have hprogram : Admits (program n) (c.back w) body c :=
    admits_get (admits_items h n hc (length_le_rest_back c w))
  refine (hprogram.bind (admits_pure (Tree.program body) c)).bind (admits_current ?_)
  rw [if_pos hc]
  exact admits_pure _ c

theorem yields_wholeTree (n : Nat) (c : Cursor) : Yields (wholeTree n true) c fun tree w c' =>
    ∃ body, tree = .program body ∧ Program body w ∧ c'.current.kind = .eof := by
  have htree : Yields (tree n true) c fun tree w _ =>
      ∃ body, tree = .program body ∧ Program body w :=
    (yields_program n c).map fun body w c' hw => ⟨body, rfl, hw⟩
  refine htree.bind ?_
  rintro tree w c' ⟨body, rfl, hw⟩
  refine yields_current ?_
  split
  · rename_i hc
    refine yields_pure ⟨body, rfl, ?_, hc⟩
    rw [List.append_nil]
    exact hw
  · exact yields_fail _

end MiniC.Parse.Parser

namespace MiniC.Token

theorem pairKind?_ne_eof {c d : Char} {k : Kind} (h : pairKind? c d = some k) : k ≠ .eof := by
  unfold pairKind? at h
  split at h <;> cases h <;> decide

theorem singleKind_ne_eof (c : Char) : singleKind c ≠ .eof := by
  unfold singleKind
  split <;> decide

theorem wordKind_ne_eof (cs : List Char) : wordKind cs ≠ .eof := by
  unfold wordKind
  split <;> decide

theorem lexeme_kind?_ne_eof (c : Char) (cs : List Char) : (lexeme c cs).kind? ≠ some .eof := by
  intro h
  simp only [lexeme] at h
  repeat' split at h
  all_goals try (cases h; done)
  · exact wordKind_ne_eof _ (Option.some.inj h)
  · rename_i k hk
    obtain ⟨d, -, hd⟩ := Option.bind_eq_some_iff.1 hk
    exact pairKind?_ne_eof hd (Option.some.inj h)
  · exact singleKind_ne_eof c (Option.some.inj h)

theorem scanFrom_eq (pos : Nat) (cs : List Char) :
    ∃ w e, scanFrom pos cs = w ++ [e] ∧ e.kind = .eof ∧ ∀ t ∈ w, t.kind ≠ .eof := by
  fun_induction scanFrom pos cs with
  | case1 pos => exact ⟨[], _, rfl, rfl, by simp⟩
  | case2 pos c cs x rest k hk ih =>
    obtain ⟨w, e, hw, he, hne⟩ := ih
    refine ⟨⟨k, String.ofList ((c :: cs).take x.size), pos⟩ :: w, e, congrArg _ hw, he, ?_⟩
    intro t ht
    rcases List.mem_cons.1 ht with rfl | ht
    · rintro rfl
      exact lexeme_kind?_ne_eof c cs hk
    · exact hne t ht
  | case3 pos c cs x rest hk ih => exact ih

def beforeEnd (ts : List Token) : List Token := ts.takeWhile (·.kind ≠ .eof)

theorem beforeEnd_append {w : List Token} (hw : ∀ t ∈ w, t.kind ≠ .eof) {e : Token}
    (he : e.kind = .eof) (v : List Token) : beforeEnd (w ++ e :: v) = w := by
  unfold beforeEnd
  rw [List.takeWhile_append_of_pos (by simpa using hw), List.takeWhile_cons_of_neg (by simp [he]),
    List.append_nil]

end MiniC.Token

namespace MiniC.Parse

namespace Cursor

variable {e : Token} (he : e.kind = .eof)
include he

theorem withEnd_end (w : List Token) : withEnd (w ++ [e]) = w ++ [e] := by
  have hlast : (w ++ [e]).getLast?.map (·.kind) = some .eof := by
    rw [List.getLast?_concat, Option.map_some, he]
  unfold withEnd
  rw [if_pos hlast]

theorem ofTokens_end (w : List Token) : ofTokens (w ++ [e]) = (⟨e, []⟩ : Cursor).back w := by
  unfold ofTokens
  rw [withEnd_end he]
  cases w <;> rfl

theorem ended_end (w : List Token) : ((⟨e, []⟩ : Cursor).back w).Ended := by
  rw [Ended, tokens_back, tokens, List.getLast?_concat, Option.map_some, he]

omit he in
theorem eq_of_back_end {c : Cursor} {u w : List Token} (hw : ∀ t ∈ w, t.kind ≠ .eof)
    (h : (⟨e, []⟩ : Cursor).back w = c.back u) (hc : c.current.kind = .eof) : u = w := by
  have htokens : w ++ [e] = u ++ c.current :: c.rest := by
    have := congrArg tokens h
    rwa [tokens_back, tokens_back] at this
  rcases List.append_eq_append_iff.1 htokens with ⟨v, rfl, hv⟩ | ⟨v, rfl, hv⟩
  · cases v with
    | nil => exact List.append_nil w
    | cons t v => simp at hv
  · cases v with
    | nil => exact (List.append_nil u).symm
    | cons t v =>
      -- The end mark would be among the tokens before it.
      have ht : c.current = t := (List.cons.inj hv).1
      exact absurd hc (hw c.current (by simp [ht]))

end Cursor

theorem ofTokens_end {w : List Token} {e : Token} (he : e.kind = .eof)
    (hv : ∀ t ∈ w ++ [e], t.kind ≠ .invalid) {b : Bool} (hb : isProgram (w ++ [e]) = b) :
    ofTokens (w ++ [e]) = (·.1) <$> Parser.wholeTree budget b ((⟨e, []⟩ : Cursor).back w) := by
  have hnone : (w ++ [e]).find? (·.kind = .invalid) = none :=
    List.find?_eq_none.2 fun t ht hk => hv t ht (of_decide_eq_true hk)
  unfold ofTokens
  simp only [Cursor.withEnd_end he, hnone, hb, Cursor.ofTokens_end he]

theorem Stop.message_of_isLimit {s : Stop} (h : s.isLimit = true) : ∃ d, s = .diagnostic d ∧
    (d.cause.message = "Input nested too deeply" ∨
      d.cause.message = "Number literal too long") := by
  cases s with
  | diagnostic d =>
    refine ⟨d, rfl, ?_⟩
    rcases Bool.or_eq_true_iff.1 h with h | h
    · exact .inl (by rw [of_decide_eq_true h]; rfl)
    · exact .inr (by rw [of_decide_eq_true h]; rfl)
  | noOperator => cases h

/-- Reading the tokens of a program gives the statements that the grammar derives from what is
before the end mark, and if the grammar derives some it gives them, unless it stops at a limit. -/
theorem ofTokens_scan_derives (source : String) (hv : ∀ t ∈ Token.scan source, t.kind ≠ .invalid)
    (hp : isProgram (Token.scan source) = true) :
    (∀ tree, ofTokens (Token.scan source) = .ok tree →
      ∃ body, tree = .program body ∧ Grammar.Program body (Token.beforeEnd (Token.scan source))) ∧
    ∀ body, Grammar.Program body (Token.beforeEnd (Token.scan source)) →
      ofTokens (Token.scan source) = .ok (.program body) ∨
      ∃ d, ofTokens (Token.scan source) = .error (.diagnostic d) ∧
        (d.cause.message = "Input nested too deeply" ∨
          d.cause.message = "Number literal too long") := by
  obtain ⟨w, e, hscan, he, hw⟩ := Token.scanFrom_eq 0 (Text.trim source.toList)
  have hscan : Token.scan source = w ++ [e] := hscan
  rw [hscan] at hv hp ⊢
  rw [ofTokens_end he hv hp, Token.beforeEnd_append hw he]
  constructor
  · intro tree htree
    cases hread : Parser.wholeTree budget true ((⟨e, []⟩ : Cursor).back w) with
    | error s =>
      rw [hread] at htree
      cases htree
    | ok r =>
      obtain ⟨tree', c⟩ := r
      rw [hread] at htree
      obtain rfl : tree' = tree := Except.ok.inj htree
      obtain ⟨u, hback, body, rfl, hbody, hc⟩ :=
        Parser.yields_wholeTree budget _ (Cursor.ended_end he w) tree' c hread
      obtain rfl := Cursor.eq_of_back_end hw hback hc
      exact ⟨body, rfl, hbody⟩
  · intro body hbody
    rcases Parser.admits_wholeTree hbody budget (c := ⟨e, []⟩) he with h | ⟨s, h, hs, -⟩
    · rw [h]
      exact .inl rfl
    · obtain ⟨d, rfl, hd⟩ := Stop.message_of_isLimit hs
      rw [h]
      exact .inr ⟨d, rfl, hd⟩

def danglingElse : String := "if (a) if (b) x = 1; else ;"

def danglingElseTokens : List Token :=
  [⟨.keyword, "if", 0⟩, ⟨.lparen, "(", 3⟩, ⟨.identifier, "a", 4⟩, ⟨.rparen, ")", 5⟩,
    ⟨.keyword, "if", 7⟩, ⟨.lparen, "(", 10⟩, ⟨.identifier, "b", 11⟩, ⟨.rparen, ")", 12⟩,
    ⟨.identifier, "x", 14⟩, ⟨.assign, "=", 16⟩, ⟨.number, "1", 18⟩, ⟨.semicolon, ";", 19⟩,
    ⟨.keyword, "else", 21⟩, ⟨.semicolon, ";", 26⟩, ⟨.eof, "", 27⟩]

theorem scan_danglingElse : Token.scan danglingElse = danglingElseTokens := by decide +kernel

def danglingElseBody : List Stmt :=
  [.branch (.name "a") (.branch (.name "b") (.assign (.name "x") .set (.number (.int 1) 0))
    (some (.block []))) none]

theorem ofTokens_danglingElse_derives :
    (∀ t ∈ Token.scan danglingElse, t.kind ≠ .invalid) ∧
    isProgram (Token.scan danglingElse) = true ∧
      ofTokens (Token.scan danglingElse) = .ok (.program danglingElseBody) ∧
      Grammar.Program danglingElseBody (Token.beforeEnd (Token.scan danglingElse)) := by
  have hv : ∀ t ∈ Token.scan danglingElse, t.kind ≠ .invalid := by
    rw [scan_danglingElse]
    decide
  have hp : isProgram (Token.scan danglingElse) = true := by
    rw [scan_danglingElse]
    rfl
  have hread : ofTokens (Token.scan danglingElse) = .ok (.program danglingElseBody) := by
    rw [scan_danglingElse]
    rfl
  obtain ⟨body, hbody, hw⟩ := (ofTokens_scan_derives danglingElse hv hp).1 _ hread
  cases hbody
  exact ⟨hv, hp, hread, hw⟩

end MiniC.Parse

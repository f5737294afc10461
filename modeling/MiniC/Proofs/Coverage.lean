import MiniC.Proofs.Programs

/-! Nothing of a text is lost by cutting it into tokens, and nothing is added. The tokens stand in
the text at their offsets, one behind the other, and what lies before, between and behind them is
blanks and comments. Main statement: `scan_covers`, about every text. -/

namespace MiniC.Token

def commentEnd : List Char := ['*', '/']

/-- One thing that is skipped, with everything that stands behind it: a blank, a comment up to the
end of its line, or a comment up to the first mark that closes it. -/
inductive Skipped : List Char → List Char → Prop
  | blank {c : Char} {behind : List Char} : Text.isBlank c = true → Skipped [c] behind
  | line {body behind : List Char} : '\n' ∉ body → (∀ c ∈ behind.head?, c = '\n') →
      Skipped ('/' :: '/' :: body) behind
  | closed {body behind : List Char} :
      ¬commentEnd <:+: body → Skipped ('/' :: '*' :: (body ++ commentEnd)) behind
  | unclosed {body : List Char} : ¬commentEnd <:+: body → Skipped ('/' :: '*' :: body) []

inductive Gap : List Char → List Char → Prop
  | nil {behind : List Char} : Gap [] behind
  | cons {p g behind : List Char} : Skipped p (g ++ behind) → Gap g behind → Gap (p ++ g) behind

section Skipped

theorem line_skipped (cs : List Char) :
    '\n' ∉ cs.take (lineLength cs) ∧ ∀ c ∈ (cs.drop (lineLength cs)).head?, c = '\n' := by
  induction cs with
  | nil => simp [lineLength]
  | cons d cs ih =>
    by_cases hd : d = '\n'
    · simp [lineLength, hd]
    · have hlen : lineLength (d :: cs) = lineLength cs + 1 := by simp [lineLength, hd]
      rw [hlen, List.take_succ_cons, List.drop_succ_cons]
      exact ⟨by simp [Ne.symm hd, ih.1], ih.2⟩

theorem comment_skipped (cs : List Char) :
    (∃ body, cs.take (commentLength cs) = body ++ commentEnd ∧ ¬commentEnd <:+: body) ∨
      (commentLength cs = cs.length ∧ ¬commentEnd <:+: cs) := by
  have hnil : ¬commentEnd <:+: [] := by simp [commentEnd]
  fun_induction commentLength cs with
  | case1 => exact .inr ⟨rfl, hnil⟩
  | case2 c =>
    refine .inr ⟨rfl, fun h => ?_⟩
    have := h.length_le
    simp [commentEnd] at this
  | case3 c d cs h =>
    obtain ⟨rfl, rfl⟩ := h
    exact .inl ⟨[], rfl, hnil⟩
  | case4 c d cs h ih =>
    -- A mark in the longer text begins with its first character or lies in the shorter one.
    have hfirst {ds : List Char} (hds : ¬commentEnd <:+: ds) (hhead : ∀ e ∈ ds.head?, e = d) :
        ¬commentEnd <:+: c :: ds := by
      rw [List.infix_cons_iff]
      rintro (hp | hi)
      · obtain ⟨hc, es, rfl⟩ := List.cons_prefix_cons.1 hp
        exact h ⟨hc.symm, (hhead '/' rfl).symm⟩
      · exact hds hi
    rw [Nat.add_comm 1, List.take_succ_cons]
    rcases ih with ⟨body, hbody, hnone⟩ | ⟨hlen, hnone⟩
    · refine .inl ⟨c :: body, by rw [hbody, List.cons_append], hfirst hnone fun e he => ?_⟩
      have hd : ((d :: cs).take (commentLength (d :: cs))).head? = some e := by
        rw [hbody, List.head?_append, Option.mem_def.1 he, Option.some_or]
      rw [List.head?_take] at hd
      split at hd <;> simp_all
    · exact .inr ⟨by simp only [hlen, List.length_cons], hfirst hnone (by simp)⟩

theorem lexeme_skipped {c : Char} {cs : List Char} (h : (lexeme c cs).kind? = none) :
    Skipped ((c :: cs).take (lexeme c cs).size) ((c :: cs).drop (lexeme c cs).size) := by
  generalize hx : lexeme c cs = x at h ⊢
  unfold lexeme at hx
  repeat' split at hx
  all_goals subst hx
  all_goals try (cases h; done)
  · rename_i hc
    exact .blank hc
  · rename_i hc
    obtain ⟨rfl, hc⟩ := hc
    obtain ⟨ds, rfl⟩ := List.head?_eq_some_iff.1 hc
    obtain ⟨hbody, hbehind⟩ := line_skipped ds
    have hlen : lineLength ('/' :: ds) = lineLength ds + 1 := by simp [lineLength]
    simp only [hlen, Nat.add_comm 1, List.take_succ_cons, List.drop_succ_cons]
    exact .line hbody hbehind
  · rename_i hc
    obtain ⟨rfl, hc⟩ := hc
    obtain ⟨ds, rfl⟩ := List.head?_eq_some_iff.1 hc
    simp only [List.tail_cons, Nat.add_comm 2, List.take_succ_cons, List.drop_succ_cons]
    rcases comment_skipped ds with ⟨body, hbody, hnone⟩ | ⟨hlen, hnone⟩
    · rw [hbody]
      exact .closed hnone
    · rw [hlen, List.take_length, List.drop_length]
      exact .unclosed hnone

end Skipped

/-- The tokens of the rest of a text that begins at some offset: each stands behind a gap, and a gap
is behind the last. -/
inductive Spread : Nat → List Char → List Token → Prop
  | done {pos : Nat} {g : List Char} : Gap g [] → Spread pos g []
  | token {pos : Nat} {g rest : List Char} {t : Token} {ts : List Token} :
      Gap g (t.text.toList ++ rest) →
      t.kind ≠ .eof → t.text ≠ "" → t.pos = (pos + g.length : Nat) →
      Spread (pos + g.length + t.text.length) rest ts →
        Spread pos (g ++ (t.text.toList ++ rest)) (t :: ts)

theorem Spread.skip {pos : Nat} {p rest : List Char} {ts : List Token} (hp : Skipped p rest)
    (h : Spread (pos + p.length) rest ts) : Spread pos (p ++ rest) ts := by
  cases h with
  | done hg => exact .done (.cons (by rwa [List.append_nil]) hg)
  | @token _ g rest t ts hg hk ht hpos hts =>
    have hlen : pos + p.length + g.length = pos + (p ++ g).length := by
      rw [List.length_append, Nat.add_assoc]
    rw [hlen] at hpos hts
    rw [← List.append_assoc]
    exact .token (.cons hp hg) hk ht hpos hts

theorem Spread.here {pos : Nat} {rest : List Char} {t : Token} {ts : List Token}
    (hk : t.kind ≠ .eof) (ht : t.text ≠ "") (hpos : t.pos = pos)
    (h : Spread (pos + t.text.length) rest ts) :
    Spread pos (t.text.toList ++ rest) (t :: ts) :=
  .token (g := []) .nil hk ht hpos h

theorem scanFrom_spread (pos : Nat) (cs : List Char) :
    ∃ w, scanFrom pos cs = w ++ [⟨.eof, "", (pos + cs.length : Nat)⟩] ∧ Spread pos cs w := by
  have hend {pos n : Nat} {cs : List Char} (h : n ≤ cs.length) :
      pos + n + (cs.drop n).length = pos + cs.length := by
    rw [List.length_drop]
    omega
  fun_induction scanFrom pos cs with
  | case1 pos => exact ⟨[], rfl, .done .nil⟩
  | case2 pos c cs x rest k hk ih =>
    obtain ⟨w, hw, hspread⟩ := ih
    have hsize : 1 ≤ x.size ∧ x.size ≤ (c :: cs).length := lexeme_size c cs
    have hlen : ((c :: cs).take x.size).length = x.size := List.length_take_of_le hsize.2
    refine ⟨⟨k, String.ofList ((c :: cs).take x.size), pos⟩ :: w, ?_, ?_⟩
    · rw [List.cons_append, ← hend hsize.2, ← hw]
    · have hne : k ≠ .eof := by
        rintro rfl
        exact lexeme_kind?_ne_eof c cs hk
      have htext : String.ofList ((c :: cs).take x.size) ≠ "" := by
        intro he
        have := congrArg String.length he
        rw [String.length_ofList, hlen, String.length_empty] at this
        omega
      have hhere := Spread.here (t := ⟨k, String.ofList ((c :: cs).take x.size), pos⟩) hne htext rfl
        (by rw [String.length_ofList, hlen]; exact hspread)
      rwa [String.toList_ofList, List.take_append_drop] at hhere
  | case3 pos c cs x rest hk ih =>
    obtain ⟨w, hw, hspread⟩ := ih
    have hsize : 1 ≤ x.size ∧ x.size ≤ (c :: cs).length := lexeme_size c cs
    have hlen : ((c :: cs).take x.size).length = x.size := List.length_take_of_le hsize.2
    refine ⟨w, by rw [← hend hsize.2, ← hw], ?_⟩
    have hskip : Spread pos ((c :: cs).take x.size ++ (c :: cs).drop x.size) w :=
      Spread.skip (lexeme_skipped hk) (by rw [hlen]; exact hspread)
    rwa [List.take_append_drop] at hskip

def stop (t : Token) : Int := t.pos + t.text.length

section Order

variable {pos : Nat} {rest : List Char} {w : List Token}

theorem Spread.le_pos (h : Spread pos rest w) {u : Token} (hu : u ∈ w) : (pos : Int) ≤ u.pos := by
  induction h with
  | done => cases hu
  | token _ _ _ htp _ ih =>
    rcases List.mem_cons.1 hu with rfl | hu
    · omega
    · have := ih hu
      omega

theorem Spread.ordered (h : Spread pos rest w) : w.Pairwise fun t u => t.stop ≤ u.pos := by
  induction h with
  | done => exact .nil
  | token _ _ _ htp hts ih =>
    refine .cons (fun u hu => ?_) ih
    have := hts.le_pos hu
    rw [stop, htp]
    omega

end Order

section Text

theorem extract_middle (as bs cs : List Char) :
    (as ++ (bs ++ cs)).extract as.length (as.length + bs.length) = bs := by
  simp [List.extract_eq_take_drop]

theorem drop_middle (as bs cs : List Char) :
    (as ++ (bs ++ cs)).drop (as.length + bs.length) = cs := by
  rw [← List.append_assoc, ← List.length_append, List.drop_left]

variable {before rest : List Char} {w : List Token}

theorem Spread.slice (h : Spread before.length rest w) {t : Token} (ht : t ∈ w) :
    t.kind ≠ .eof ∧ t.text ≠ "" ∧
    ∃ i : Nat, t.pos = i ∧ i + t.text.length ≤ (before ++ rest).length ∧
      t.text.toList = (before ++ rest).extract i (i + t.text.length) := by
  generalize hpos : before.length = pos at h
  induction h generalizing before with
  | done => cases ht
  | @token pos g rest u ts hg hk hu hup hts ih =>
    subst hpos
    have hlen : (before ++ g).length = before.length + g.length := List.length_append
    have htext : before ++ (g ++ (u.text.toList ++ rest)) =
        (before ++ g) ++ (u.text.toList ++ rest) := by
      rw [List.append_assoc]
    rcases List.mem_cons.1 ht with rfl | ht
    · refine ⟨hk, hu, _, hup, ?_, ?_⟩
      · simp only [List.length_append, String.length_toList]
        omega
      · rw [htext, ← hlen, ← String.length_toList, extract_middle]
    · rw [htext, ← List.append_assoc]
      exact ih ht (by rw [List.length_append, hlen, String.length_toList])

theorem Spread.gap (h : Spread before.length rest w) :
    ∀ p ∈ ((before.length : Int) :: w.map stop).zip
    (w.map (·.pos) ++ [((before ++ rest).length : Int)]), ∃ i j :
    Nat, p = ((i : Int), (j : Int)) ∧ i ≤ j ∧
      Gap ((before ++ rest).extract i j) ((before ++ rest).drop j) := by
  generalize hpos : before.length = pos at h
  induction h generalizing before with
  | @done pos g hg =>
    subst hpos
    have hgap : Gap ((before ++ (g ++ [])).extract before.length (before.length + g.length))
        ((before ++ (g ++ [])).drop (before.length + g.length)) := by
      rw [extract_middle, drop_middle]
      exact hg
    rw [List.append_nil, ← List.length_append] at hgap
    intro p hp
    obtain rfl : p = ((before.length : Int), ((before ++ g).length : Int)) :=
      List.mem_singleton.1 hp
    exact ⟨_, _, rfl, by rw [List.length_append]; omega, hgap⟩
  | @token pos g rest t ts hg hk ht htp hts ih =>
    subst hpos
    intro p hp
    have hp : p = ((before.length : Int), t.pos) ∨
        p ∈ (stop t :: ts.map stop).zip
          (ts.map (·.pos) ++ [((before ++ (g ++ (t.text.toList ++ rest))).length : Int)]) :=
      List.mem_cons.1 hp
    rcases hp with rfl | hp
    · refine ⟨_, _, by rw [htp], by omega, ?_⟩
      rw [extract_middle, drop_middle]
      exact hg
    · have hlen : (before ++ g ++ t.text.toList).length =
          before.length + g.length + t.text.length := by
        simp only [List.length_append, String.length_toList]
      have hstop : stop t = (before.length + g.length + t.text.length : Nat) := by
        rw [stop, htp]
        omega
      have htext : before ++ (g ++ (t.text.toList ++ rest)) =
          before ++ g ++ t.text.toList ++ rest := by
        simp only [List.append_assoc]
      rw [hstop, htext] at hp
      rw [htext]
      exact ih hlen p hp

end Text

/-- Scanning loses nothing and adds nothing. The tokens of a text are followed by one end mark, none
of them is one, each stands in the text where its offset says, and they are in order and do not
overlap. Before the first, between each and the next, and behind the last there is a gap. -/
theorem scan_covers (source : String) : ∃ w : List Token,
    scan source = w ++ [⟨.eof, "", (Text.trim source.toList).length⟩] ∧
    (∀ t ∈ w, t.kind ≠ .eof ∧ t.text ≠ "" ∧ ∃ i : Nat, t.pos = i ∧
      t.text.toList = (Text.trim source.toList).extract i (i + t.text.length)) ∧
    (w.Pairwise fun t u => t.stop ≤ u.pos) ∧
    ∀ p ∈ (0 :: w.map stop).zip ((scan source).map (·.pos)), ∃ i j :
    Nat, p = ((i : Int), (j : Int)) ∧ i ≤ j ∧
      Gap ((Text.trim source.toList).extract i j) ((Text.trim source.toList).drop j) := by
  obtain ⟨w, hw, hspread⟩ := scanFrom_spread 0 (Text.trim source.toList)
  rw [Nat.zero_add] at hw
  have hspread : Spread ([] : List Char).length (Text.trim source.toList) w := hspread
  refine ⟨w, hw, ?_, hspread.ordered, ?_⟩
  · intro t ht
    obtain ⟨hk, hne, i, hi, -, htext⟩ := hspread.slice ht
    exact ⟨hk, hne, i, hi, htext⟩
  · have hgap := hspread.gap
    rw [scan, hw, List.map_append]
    exact hgap

end MiniC.Token

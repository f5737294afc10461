import MiniC.Proofs.Lexemes
import MiniC.Proofs.Programs

/-! Layout does not matter. The text of a token, cut out and set before a line feed or the end, is
cut into the same token again, whatever stood around it before. So the tokens of a text can be
written on lines of their own, without what was skipped between them, and scanning gives them back.
Main statement: `scan_joined`. -/

namespace MiniC.Token

def joined (sep : Nat → List Char) : Nat → List Token → List Char
  | _, [] => []
  | i, t :: ts => t.text.toList ++ if ts.isEmpty then [] else sep i ++ joined sep (i + 1) ts

def Separates (cs : List Char) : Prop := ∃ bs, cs = '\n' :: bs ∧ ∀ c ∈ bs, Text.isBlank c = true

section Again

variable {as bs rest : List Char}

theorem takeWhile_split (p : Char → Bool) (cs : List Char) :
    ∃ as bs, cs = as ++ bs ∧ cs.takeWhile p = as ∧
    (∀ c ∈ as, p c = true) ∧ ∀ c ∈ bs.head?, p c = false := by
  refine ⟨cs.takeWhile p, cs.dropWhile p, List.takeWhile_append_dropWhile.symm, rfl, ?_, ?_⟩
  · exact fun c hc => List.mem_takeWhile_imp hc
  · intro c hc
    have hnot := List.head?_dropWhile_not p cs
    rw [Option.mem_def.1 hc] at hnot
    exact hnot

theorem forall_of_length_takeWhile {p : Char → Bool}
    (h : ((as ++ bs).takeWhile p).length = as.length) :
    ∀ c ∈ as, p c = true := by
  obtain ⟨cs, ds, hsplit, htake, hcs, -⟩ := takeWhile_split p (as ++ bs)
  rw [htake] at h
  obtain ⟨rfl, -⟩ := List.append_inj hsplit h.symm
  exact hcs

theorem numeral_of_length (h : numberLength (as ++ bs) = as.length) : Numeral as := by
  obtain ⟨cs, ds, hsplit, htake, hcs, -⟩ := takeWhile_split Text.isAsciiDigit (as ++ bs)
  have hdigits : digitsLength (as ++ bs) = cs.length := congrArg List.length htake
  simp only [numberLength, hdigits] at h
  rw [hsplit, List.drop_left] at h
  split at h
  · rename_i es
    obtain ⟨fs, gs, rfl, hfs, hdigit, -⟩ := takeWhile_split Text.isAsciiDigit es
    have hlen : as.length = (cs ++ '.' :: fs).length := by
      rw [← h, digitsLength, hfs, List.length_append, List.length_cons]
      omega
    have happend : as ++ bs = (cs ++ '.' :: fs) ++ gs := by simp [hsplit]
    obtain ⟨rfl, -⟩ := List.append_inj happend hlen
    exact .pointed hcs hdigit
  · obtain ⟨rfl, -⟩ := List.append_inj hsplit h.symm
    exact .whole hcs

theorem quotedLength_cases {q : Char} (cs : List Char) :
    Closed q (cs.take (quotedLength q cs)) ∨ quotedLength q cs = cs.length := by
  fun_induction quotedLength q cs with
  | case1 => exact .inr rfl
  | case2 => exact .inr rfl
  | case3 d cs => exact .inl .quote
  | case4 d cs _ ih =>
    rw [Nat.add_comm, List.take_succ_cons, List.take_succ_cons]
    rcases ih with h | h
    · exact .inl (.escaped h)
    · exact .inr (by simp only [h, List.length_cons])
  | case5 c d cs hc hb ih =>
    rw [Nat.add_comm, List.take_succ_cons]
    rcases ih with h | h
    · exact .inl (.plain hc hb h)
    · exact .inr (by simp only [h, List.length_cons])

structure Sign (c : Char) : Prop where
  blank : Text.isBlank c = false
  hash : c ≠ '#'
  quote : c ≠ '"'
  tick : c ≠ '\x27'
  digit : Text.isAsciiDigit c = false
  word : isWordStart c = false

/-- What a token looks like: its first character, the others, what stands behind it, and its
kind. -/
inductive Shape : Char → List Char → List Char → Kind → Prop
  | directive {as bs : List Char} : (∀ d ∈ as, d ≠ '\n') → Shape '#' as bs .preprocessor
  | string {as bs : List Char} : Closed '"' as ∨ (bs = [] ∧ quotedLength '"' as = as.length) →
      Shape '"' as bs .string
  | char {as bs : List Char} : Closed '\x27' as ∨ (bs = [] ∧ quotedLength '\x27' as = as.length) →
      Shape '\x27' as bs .char
  | number {c : Char} {as bs : List Char} : Text.isAsciiDigit c = true → Numeral as →
      Shape c as bs .number
  | word {c : Char} {as bs : List Char} : isWordStart c = true → (∀ d ∈ as, isWordChar d = true) →
      Shape c as bs (wordKind (c :: as))
  | pair {c d : Char} {bs : List Char} {k : Kind} :
      Sign c → pairKind? c d = some k → Shape c [d] bs k
  | single {c : Char} {bs : List Char} : Sign c → Shape c [] bs (singleKind c)

theorem closed_of_quotedLength {q : Char} (h : quotedLength q (as ++ bs) = as.length) :
    Closed q as ∨ (bs = [] ∧ quotedLength q as = as.length) := by
  rcases quotedLength_cases (q := q) (as ++ bs) with hclosed | hlen
  · rw [h, List.take_left] at hclosed
    exact .inl hclosed
  · rw [h, List.length_append] at hlen
    obtain rfl := List.length_eq_zero_iff.1 (show bs.length = 0 by omega)
    rw [List.append_nil] at h
    exact .inr ⟨rfl, h⟩

theorem shape_of_lexeme {c : Char} {k : Kind} (h : lexeme c (as ++ bs) = ⟨some k, 1 + as.length⟩) :
    Shape c as bs k := by
  unfold lexeme at h
  repeat' split at h
  all_goals injection h with hk hsize
  all_goals try (cases hk; done)
  all_goals obtain rfl := Option.some.inj hk
  · rename_i hc
    subst hc
    have hline := forall_of_length_takeWhile (Nat.add_left_cancel hsize)
    exact .directive (by simpa using hline)
  · rename_i hc
    subst hc
    exact .string (closed_of_quotedLength (Nat.add_left_cancel hsize))
  · rename_i hc
    subst hc
    exact .char (closed_of_quotedLength (Nat.add_left_cancel hsize))
  · exact .number (by assumption) (numeral_of_length (Nat.add_left_cancel hsize))
  · have hlen := Nat.add_left_cancel hsize
    rw [hlen, List.take_left]
    exact .word (by assumption) (forall_of_length_takeWhile hlen)
  · rename_i hblank hhash hquote htick _ _ hdigit hword _ k hpair
    obtain ⟨d, rfl⟩ := List.length_eq_one_iff.1 (show as.length = 1 by omega)
    exact .pair
      ⟨by simpa using hblank, hhash, hquote, htick, by simpa using hdigit, by simpa using hword⟩
      hpair
  · rename_i hblank hhash hquote htick _ _ hdigit hword _ _
    obtain rfl := List.length_eq_zero_iff.1 (show as.length = 0 by omega)
    exact .single
      ⟨by simpa using hblank, hhash, hquote, htick, by simpa using hdigit, by simpa using hword⟩

theorem lexeme_of_sign {c : Char} (h : Sign c) {cs : List Char} (hslash : cs.head? ≠ some '/')
    (hstar : cs.head? ≠ some '*') : lexeme c cs = match cs.head?.bind (pairKind? c) with
      | some k => ⟨some k, 2⟩
      | none => ⟨some (singleKind c), 1⟩ := by
  calc lexeme c cs
    _ = _ := if_neg (Bool.eq_false_iff.mp h.blank)
    _ = _ := if_neg h.hash
    _ = _ := if_neg h.quote
    _ = _ := if_neg h.tick
    _ = _ := if_neg fun hc => hslash hc.2
    _ = _ := if_neg fun hc => hstar hc.2
    _ = _ := if_neg (Bool.eq_false_iff.mp h.digit)
    _ = _ := if_neg (Bool.eq_false_iff.mp h.word)

theorem pairKind?_second {c d : Char} {k : Kind} (h : pairKind? c d = some k) :
    d ≠ '/' ∧ d ≠ '*' ∧ Text.isBlank d = false := by
  unfold pairKind? at h
  split at h <;> first | decide | cases h

theorem pairKind?_lineFeed (c : Char) : pairKind? c '\n' = none := by
  cases h : pairKind? c '\n' with
  | none => rfl
  | some k => exact absurd (pairKind?_second h).2.2 (by decide)

theorem Shape.lexeme_again {c : Char} {k : Kind} (h : Shape c as bs k)
    (hr : ∀ d ∈ rest.head?, d = '\n') (hend : bs = [] → rest = []) :
    lexeme c (as ++ rest) = ⟨some k, 1 + as.length⟩ := by
  have hstop {p : Char → Bool} (hp : p '\n' = false) : ∀ d ∈ rest.head?, p d = false := by
    intro d hd
    rw [hr d hd, hp]
  have hquoted {q : Char} (hq : q ≠ '\\')
      (has : Closed q as ∨ (bs = [] ∧ quotedLength q as = as.length)) :
        quotedLength q (as ++ rest) = as.length := by
    rcases has with hclosed | ⟨hbs, hlen⟩
    · exact quotedLength_closed hq hclosed rest
    · rw [hend hbs, List.append_nil, hlen]
  cases h with
  | directive has =>
    have hline : lineLength (as ++ rest) = as.length := by
      rw [lineLength, takeWhile_of_head (by simpa using has) (hstop (by decide))]
    rw [← hline]
    rfl
  | string has =>
    rw [← hquoted (by decide) has]
    rfl
  | char has =>
    rw [← hquoted (by decide) has]
    rfl
  | number hc has =>
    have hrange := Decimal.toNat_of_isAsciiDigit hc
    have hnumber : numberLength (as ++ rest) = as.length := by
      apply numberLength_numeral has
      intro d hd
      rw [hr d hd]
      decide
    rw [lexeme_of_ordinary (ordinary_of_toNat (by omega)), if_pos hc, hnumber]
  | word hc has => exact lexeme_word hc has (hstop (by decide))
  | @pair _ d _ _ hc hpair =>
    obtain ⟨hslash, hstar, -⟩ := pairKind?_second hpair
    rw [List.singleton_append, lexeme_of_sign hc (by simpa using hslash) (by simpa using hstar),
      List.head?_cons, Option.bind_some, hpair]
    rfl
  | single hc =>
    have hhead (d : Char) (hd : d ≠ '\n') : rest.head? ≠ some d := fun h => hd (hr d h)
    rw [List.nil_append, lexeme_of_sign hc (hhead '/' (by decide)) (hhead '*' (by decide))]
    cases hrest : rest.head? with
    | none => rfl
    | some d =>
      rw [hr d hrest, Option.bind_some, pairKind?_lineFeed]
      rfl

/-- A token that does not reach to the end of the text ends with no blank, unless it is a line for
the preprocessor. -/
theorem Shape.last {c : Char} {k : Kind} (h : Shape c as bs k) (hk : k ≠ .preprocessor)
    (hbs : bs ≠ []) :
    ∀ d ∈ (c :: as).getLast?, Text.isBlank d = false := by
  have hsolid (hcs : ∀ d ∈ c :: as, Text.isBlank d = false) : ∀ d ∈ (c :: as).getLast?,
      Text.isBlank d = false :=
    fun d hd => hcs d (List.mem_of_getLast? hd)
  have hclosed {q : Char} (hq : Text.isBlank q = false)
      (has : Closed q as ∨ (bs = [] ∧ quotedLength q as = as.length)) :
      ∀ d ∈ (c :: as).getLast?, Text.isBlank d = false := by
    rcases has with has | ⟨hnil, -⟩
    · intro d hd
      rw [List.getLast?_cons, has.getLast?] at hd
      cases hd
      exact hq
    · exact absurd hnil hbs
  cases h with
  | directive => exact absurd rfl hk
  | string has => exact hclosed (by decide) has
  | char has => exact hclosed (by decide) has
  | number hc has =>
    have := Decimal.toNat_of_isAsciiDigit hc
    exact hsolid (List.forall_mem_cons.2 ⟨isBlank_of_toNat (by omega), has.solid⟩)
  | word hc has =>
    have hfirst : isWordChar c = true := by rw [isWordChar, hc, Bool.true_or]
    have hrest : ∀ d ∈ _, Text.isBlank d = false := fun d hd => isBlank_of_isWordChar (has d hd)
    exact hsolid (List.forall_mem_cons.2 ⟨isBlank_of_isWordChar hfirst, hrest⟩)
  | pair hc hpair => exact hsolid (by simpa using ⟨hc.blank, (pairKind?_second hpair).2.2⟩)
  | single hc => exact hsolid (by simpa using hc.blank)

end Again

section Joined

theorem scanFrom_blanks (pos : Nat) {bs : List Char} (hbs : ∀ c ∈ bs, Text.isBlank c = true)
    (cs : List Char) :
    scanFrom pos (bs ++ cs) = scanFrom (pos + bs.length) cs := by
  induction bs generalizing pos with
  | nil => rfl
  | cons c bs ih =>
    have hc : lexeme c (bs ++ cs) = ⟨none, 1⟩ := if_pos (hbs c List.mem_cons_self)
    have hstep : scanFrom pos (c :: (bs ++ cs)) = scanFrom (pos + 1) (bs ++ cs) := by
      rw [scanFrom.eq_def]
      simp only [hc, List.drop_succ_cons, List.drop_zero]
    rw [List.cons_append, hstep, ih (pos + 1) fun d hd => hbs d (List.mem_cons_of_mem c hd),
      List.length_cons]
    congr 1
    omega

inductive Pieces : List Char → List Token → Prop
  | nil : Pieces [] []
  | skip {p rest : List Char} {ts : List Token} : Pieces rest ts → Pieces (p ++ rest) ts
  | token {c : Char} {as bs : List Char} {t : Token} {ts : List Token} : Shape c as bs t.kind →
      t.text.toList = c :: as → Text.isBlank c = false → Pieces bs ts →
        Pieces (c :: (as ++ bs)) (t :: ts)

theorem isBlank_of_kind? {c : Char} {cs : List Char} {k : Kind} (h : (lexeme c cs).kind? = some k) :
    Text.isBlank c = false := by
  by_contra hc
  rw [Bool.not_eq_false] at hc
  rw [show lexeme c cs = ⟨none, 1⟩ from if_pos hc] at h
  cases h

theorem scanFrom_pieces (pos : Nat) (cs : List Char) :
    ∃ w e, scanFrom pos cs = w ++ [e] ∧ e.kind = .eof ∧ e.text = "" ∧ (∀ t ∈ w, t.kind ≠ .eof) ∧
    Pieces cs w := by
  fun_induction scanFrom pos cs with
  | case1 pos => exact ⟨[], _, rfl, rfl, rfl, by simp, .nil⟩
  | case2 pos c cs x rest k hk ih =>
    obtain ⟨w, e, hw, he, htext, hne, hpieces⟩ := ih
    obtain ⟨hpos, hle⟩ : 1 ≤ x.size ∧ x.size ≤ cs.length + 1 := lexeme_size c cs
    obtain ⟨n, hn⟩ : ∃ n, x.size = n + 1 := ⟨x.size - 1, by omega⟩
    rw [hn, List.drop_succ_cons] at hpieces
    rw [hn, List.take_succ_cons]
    have hshape : Shape c (cs.take n) (cs.drop n) k := by
      apply shape_of_lexeme
      rw [List.take_append_drop, List.length_take_of_le (by omega), Nat.add_comm, ← hn, ← hk]
    have hpiece := Pieces.token (t := ⟨k, String.ofList (c :: cs.take n), pos⟩) hshape
      String.toList_ofList
      (isBlank_of_kind? hk) hpieces
    rw [List.take_append_drop] at hpiece
    refine ⟨_ :: w, e, congrArg _ hw, he, htext, List.forall_mem_cons.2 ⟨?_, hne⟩, hpiece⟩
    rintro rfl
    exact lexeme_kind?_ne_eof c cs hk
  | case3 pos c cs x rest hk ih =>
    obtain ⟨w, e, hw, he, htext, hne, hpieces⟩ := ih
    have hskip := hpieces.skip (p := (c :: cs).take x.size)
    rw [List.take_append_drop] at hskip
    exact ⟨w, e, hw, he, htext, hne, hskip⟩

theorem Pieces.eq_nil {ts : List Token} {cs : List Char} (h : Pieces cs ts) (hcs : cs = []) :
    ts = [] := by
  induction h with
  | nil => rfl
  | skip _ ih => exact ih (List.append_eq_nil_iff.1 hcs).2
  | token => cases hcs

def unplaced (t : Token) : Kind × String := (t.kind, t.text)

theorem Separates.head {cs : List Char} (h : Separates cs) (rest : List Char) :
    ∀ d ∈ (cs ++ rest).head?, d = '\n' := by
  obtain ⟨bs, rfl, -⟩ := h
  rintro d ⟨⟩
  rfl

theorem Separates.blank {cs : List Char} (h : Separates cs) : ∀ c ∈ cs, Text.isBlank c = true := by
  obtain ⟨bs, rfl, hbs⟩ := h
  exact List.forall_mem_cons.2 ⟨rfl, hbs⟩

theorem Pieces.scanFrom_joined {sep : Nat → List Char} (hsep : ∀ i, Separates (sep i))
    {cs : List Char} {ts : List Token} (h : Pieces cs ts) (pos i : Nat) :
    (scanFrom pos (joined sep i ts)).map unplaced = ts.map unplaced ++ [(.eof, "")] := by
  induction h generalizing pos i with
  | nil =>
    rw [joined, scanFrom.eq_def]
    rfl
  | skip _ ih => exact ih pos i
  | @token c as bs t ts hshape htext _ hrest ih =>
    have hsame (rest : List Char) (hr : ∀ d ∈ rest.head?, d = '\n') (hend : bs = [] → rest = []) :
        scanFrom pos (c :: (as ++ rest)) =
          ⟨t.kind, t.text, pos⟩ :: scanFrom (pos + (1 + as.length)) rest := by
      rw [scanFrom_token pos (hshape.lexeme_again hr hend), ← htext, String.ofList_toList]
    rw [joined, htext, List.cons_append, List.map_cons, List.cons_append]
    cases ts with
    | nil =>
      rw [List.isEmpty_nil, if_pos rfl, hsame [] (by simp) fun _ => rfl, List.map_cons]
      exact congrArg _ (ih _ 0)
    | cons u ts =>
      have hne : bs ≠ [] := fun hbs => List.cons_ne_nil _ _ (hrest.eq_nil hbs)
      have hlead := hsame _ ((hsep i).head (joined sep (i + 1) (u :: ts))) (absurd · hne)
      rw [List.isEmpty_cons, if_neg Bool.false_ne_true, hlead, scanFrom_blanks _ (hsep i).blank,
        List.map_cons, ih]
      rfl

theorem Pieces.text_ne_nil {cs : List Char} {ts : List Token} (h : Pieces cs ts) :
    ∀ t ∈ ts, t.text.toList ≠ [] := by
  induction h with
  | nil => simp
  | skip _ ih => exact ih
  | token _ htext _ _ ih => exact List.forall_mem_cons.2 ⟨by simp [htext], ih⟩

theorem Pieces.head {cs : List Char} {ts : List Token} (h : Pieces cs ts) (sep : Nat → List Char)
    (i : Nat) :
    ∀ c ∈ (joined sep i ts).head?, Text.isBlank c = false := by
  induction h with
  | nil => simp [joined]
  | skip _ ih => exact ih
  | token _ htext hblank =>
    rw [joined, htext]
    rintro d ⟨⟩
    exact hblank

theorem Pieces.last {cs : List Char} {ts : List Token} (h : Pieces cs ts)
    (hcs : ∀ d ∈ cs.getLast?, Text.isBlank d = false) :
    ∀ t ∈ ts.getLast?, t.kind ≠ .preprocessor →
    ∀ d ∈ t.text.toList.getLast?, Text.isBlank d = false := by
  induction h with
  | nil => simp
  | @skip p rest ts hrest ih =>
    cases rest with
    | nil => simp [hrest.eq_nil rfl]
    | cons c rest =>
      rw [List.getLast?_append_of_ne_nil p (List.cons_ne_nil c rest)] at hcs
      exact ih hcs
  | @token c as bs t ts hshape htext _ hrest ih =>
    cases bs with
    | nil =>
      obtain rfl := hrest.eq_nil rfl
      rw [List.append_nil] at hcs
      rw [List.getLast?_singleton]
      rintro u ⟨⟩ -
      rw [htext]
      exact hcs
    | cons b bs =>
      rw [← List.cons_append, List.getLast?_append_of_ne_nil _ (List.cons_ne_nil b bs)] at hcs
      cases ts with
      | nil =>
        rw [List.getLast?_singleton]
        rintro u ⟨⟩ hk
        rw [htext]
        exact hshape.last hk (List.cons_ne_nil b bs)
      | cons u us =>
        rw [List.getLast?_cons_cons]
        exact ih hcs

theorem joined_getLast? (sep : Nat → List Char) {ts : List Token}
    (h : ∀ t ∈ ts, t.text.toList ≠ []) (i : Nat) :
    (joined sep i ts).getLast? = ts.getLast?.bind (·.text.toList.getLast?) := by
  induction ts generalizing i with
  | nil => rfl
  | cons t ts ih =>
    obtain ⟨ht, hts⟩ := List.forall_mem_cons.1 h
    cases ts with
    | nil => simp [joined]
    | cons u us =>
      have hne : joined sep (i + 1) (u :: us) ≠ [] := by
        rw [joined]
        exact List.append_ne_nil_of_left_ne_nil (hts u List.mem_cons_self) _
      rw [joined, List.isEmpty_cons, if_neg Bool.false_ne_true, List.getLast?_cons_cons,
        ← ih hts (i + 1), ← List.append_assoc, List.getLast?_append_of_ne_nil _ hne]

end Joined

def endsWithBlankLine (ts : List Token) : Bool :=
  ts.getLast?.any fun t => t.kind = .preprocessor && t.text.toList.getLast?.any Text.isBlank

theorem not_blank_of_last {cs : List Char} {ts : List Token} (h : Pieces cs ts)
    (hcs : ∀ d ∈ cs.getLast?, Text.isBlank d = false) (hts : endsWithBlankLine ts = false)
    (sep : Nat → List Char) :
    ∀ d ∈ (joined sep 0 ts).getLast?, Text.isBlank d = false := by
  rw [joined_getLast? sep h.text_ne_nil]
  intro d hd
  obtain ⟨t, ht, hdt⟩ := Option.bind_eq_some_iff.1 hd
  by_cases hk : t.kind = .preprocessor
  · simpa [endsWithBlankLine, ht, hk, hdt] using hts
  · exact h.last hcs t ht hk d hdt

/-- The texts of the tokens of a text, with a line feed and blanks between each and the next, are
cut into tokens of the same kinds and texts. A blank at the end would be trimmed, so the last of
them is not to be a line for the preprocessor with one. -/
theorem scan_joined (source : String) (sep : Nat → List Char) (hsep : ∀ i, Separates (sep i))
    (hlast : endsWithBlankLine (beforeEnd (scan source)) = false) :
    (scan (String.ofList (joined sep 0 (beforeEnd (scan source))))).map unplaced =
      (scan source).map unplaced := by
  obtain ⟨w, e, hscan, he, htext, hw, hpieces⟩ := scanFrom_pieces 0 (Text.trim source.toList)
  have hscan : scan source = w ++ [e] := hscan
  rw [hscan, beforeEnd_append hw he] at hlast ⊢
  have htrim : Text.trim (joined sep 0 w) = joined sep 0 w := by
    apply Text.trimBy_of_ends (hpieces.head sep 0)
    exact not_blank_of_last hpieces Text.trim_last hlast sep
  have hmark : unplaced e = (.eof, "") := by rw [unplaced, he, htext]
  rw [scan, String.toList_ofList, htrim, hpieces.scanFrom_joined hsep, List.map_append,
    List.map_singleton, hmark]

def crowded : String := "#p \n1..2/*c*/a-->b/ \"x\\"

def crowdedTokens : List Token :=
  [⟨.preprocessor, "#p ", 0⟩, ⟨.number, "1.", 4⟩, ⟨.dot, ".", 6⟩, ⟨.number, "2", 7⟩,
    ⟨.identifier, "a", 13⟩,
    ⟨.decrement, "--", 14⟩, ⟨.comparison, ">", 16⟩, ⟨.identifier, "b", 17⟩, ⟨.operator, "/", 18⟩,
    ⟨.string, "\"x\\", 20⟩, ⟨.eof, "", 23⟩]

theorem scan_crowded : scan crowded = crowdedTokens := by decide +kernel

theorem scan_joined_crowded :
    Separates ['\n', ' '] ∧ endsWithBlankLine (beforeEnd (scan crowded)) = false ∧
    (scan "#p \n 1.\n .\n 2\n a\n --\n >\n b\n /\n \"x\\").map unplaced =
      crowdedTokens.map unplaced := by
  have hsep : Separates ['\n', ' '] := ⟨[' '], rfl, List.forall_mem_singleton.2 rfl⟩
  have hlast : endsWithBlankLine (beforeEnd (scan crowded)) = false := by
    rw [scan_crowded]
    decide
  have hscan := scan_joined crowded (fun _ => ['\n', ' ']) (fun _ => hsep) hlast
  rw [scan_crowded] at hscan
  exact ⟨hsep, hlast, hscan⟩

end MiniC.Token

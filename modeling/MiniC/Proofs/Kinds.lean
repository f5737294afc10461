import MiniC.Proofs.Coverage
import MiniC.Proofs.Layout

/-! Every token is as long as its kind allows, and of the kind that its text asks for. What a kind
asks for is said by two tables, by classes of characters, and by what may stand behind: the
character that would make the token longer does not. Main statement: `scan_fits`. -/

namespace MiniC.Token

def pairs : List (List Char × Kind) :=
  [(['+', '+'], .increment), (['-', '-'], .decrement),
    (['+', '='], .compoundAssign), (['-', '='], .compoundAssign), (['*', '='], .compoundAssign),
    (['/', '='], .compoundAssign), (['%', '='], .compoundAssign), (['-', '>'], .arrow),
    (['=', '='], .comparison), (['!', '='], .comparison), (['<', '='], .comparison),
    (['>', '='], .comparison), (['&', '&'], .logical), (['|', '|'], .logical)]

def singles : List (List Char × Kind) :=
  [(['+'], .operator), (['-'], .operator), (['*'], .operator), (['/'], .operator),
    (['%'], .operator), (['^'], .operator), (['<'], .comparison), (['>'], .comparison),
    (['!'], .logical), (['='], .assign), (['&'], .ampersand), (['('], .lparen), ([')'], .rparen),
    (['\x7b'], .lbrace), (['\x7d'], .rbrace), (['['], .lbracket), ([']'], .rbracket),
    ([';'], .semicolon), ([','], .comma), ([':'], .colon), (['.'], .dot)]

/-- What begins a literal, up to the end of a text, if no quote closes it. A backslash takes the
next character with it, unless there is none. -/
inductive Unclosed (q : Char) : List Char → Prop
  | nil : Unclosed q []
  | backslash : Unclosed q ['\\']
  | escaped {c : Char} {cs : List Char} : Unclosed q cs → Unclosed q ('\\' :: c :: cs)
  | plain {c : Char} {cs : List Char} : c ≠ q → c ≠ '\\' → Unclosed q cs → Unclosed q (c :: cs)

inductive IsNumber : List Char → List Char → Prop
  | whole {cs rest : List Char} : cs ≠ [] → (∀ c ∈ cs, Text.isAsciiDigit c = true) →
      (∀ d ∈ rest.head?, Text.isAsciiDigit d = false ∧ d ≠ '.') → IsNumber cs rest
  | pointed {as bs rest : List Char} : as ≠ [] → (∀ c ∈ as, Text.isAsciiDigit c = true) →
      (∀ c ∈ bs, Text.isAsciiDigit c = true) → (∀ d ∈ rest.head?, Text.isAsciiDigit d = false) →
      IsNumber (as ++ '.' :: bs) rest

def IsWord (cs rest : List Char) : Prop :=
  ∃ c as, cs = c :: as ∧ isWordStart c = true ∧ (∀ d ∈ as, isWordChar d = true) ∧
    ∀ d ∈ rest.head?, isWordChar d = false

def IsDirective (cs rest : List Char) : Prop :=
  ∃ line, cs = '#' :: line ∧ '\n' ∉ line ∧ ∀ d ∈ rest.head?, d = '\n'

def IsLiteral (q : Char) (cs rest : List Char) : Prop :=
  ∃ body, cs = q :: body ∧ (Closed q body ∨ (rest = [] ∧ Unclosed q body))

structure IsSingle (k : Kind) (cs rest : List Char) : Prop where
  mem : (cs, k) ∈ singles
  unpaired : ∀ d ∈ rest.head?, ∀ k', (cs ++ [d], k') ∉ pairs
  noComment : cs = ['/'] → ∀ d ∈ rest.head?, d ≠ '/' ∧ d ≠ '*'

structure BeginsNothing (c : Char) (rest : List Char) : Prop extends Sign c where
  single : ∀ k, ([c], k) ∉ singles
  unpaired : ∀ d ∈ rest.head?, ∀ k, ([c, d], k) ∉ pairs

/-- What the text of a token of a kind is, with everything that stands behind it. -/
def Kind.Fits : Kind → List Char → List Char → Prop
  | .number, cs, rest => IsNumber cs rest
  | .identifier, cs, rest => IsWord cs rest ∧ String.ofList cs ∉ keywords
  | .keyword, cs, rest => IsWord cs rest ∧ String.ofList cs ∈ keywords
  | .preprocessor, cs, rest => IsDirective cs rest
  | .string, cs, rest => IsLiteral '"' cs rest
  | .char, cs, rest => IsLiteral '\x27' cs rest
  | .invalid, cs, rest => ∃ c, cs = [c] ∧ BeginsNothing c rest
  | .eof, cs, rest => cs = [] ∧ rest = []
  | k, cs, rest => (cs, k) ∈ pairs ∨ IsSingle k cs rest

section Tables

theorem mem_pairs {c d : Char} {k : Kind} (h : pairKind? c d = some k) : ([c, d], k) ∈ pairs := by
  unfold pairKind? at h
  split at h <;> cases h <;> decide

theorem pairKind?_of_mem {c d : Char} {k : Kind} (h : ([c, d], k) ∈ pairs) :
    pairKind? c d = some k := by
  have hall : ∀ p ∈ pairs,
      (p.1.head?.bind fun c => p.1.tail.head?.bind (pairKind? c)) = some p.2 := by decide
  exact hall _ h

theorem mem_singles {c : Char} (h : singleKind c ≠ .invalid) : ([c], singleKind c) ∈ singles := by
  revert h
  unfold singleKind
  split
  all_goals intro h
  all_goals first | decide | exact absurd rfl h

theorem singleKind_of_mem {c : Char} {k : Kind} (h : ([c], k) ∈ singles) :
    singleKind c = k ∧ k ≠ .invalid := by
  have hall : ∀ p ∈ singles, p.1.map singleKind = [p.2] ∧ p.2 ≠ .invalid := by decide
  obtain ⟨hkind, hne⟩ := hall _ h
  exact ⟨(List.cons.inj hkind).1, hne⟩

theorem fits_of_mem {k : Kind} (hk : k ∈ (pairs ++ singles).map Prod.snd) {cs rest : List Char}
    (h : (cs, k) ∈ pairs ∨ IsSingle k cs rest) : k.Fits cs rest := by
  cases k
  all_goals first | exact h | exact absurd hk (by decide)

theorem fits_pair {c d : Char} {k : Kind} (h : pairKind? c d = some k) (rest : List Char) :
    k.Fits [c, d] rest := by
  have hmem := mem_pairs h
  exact fits_of_mem (List.mem_map.2 ⟨_, List.mem_append_left _ hmem, rfl⟩) (.inl hmem)

theorem fits_single {c : Char} {rest : List Char} (hc : Sign c)
    (hpair : rest.head?.bind (pairKind? c) = none)
    (hslash : c = '/' → ∀ d ∈ rest.head?, d ≠ '/' ∧ d ≠ '*') : (singleKind c).Fits [c] rest := by
  have hunpaired : ∀ d ∈ rest.head?, ∀ k, ([c, d], k) ∉ pairs := by
    intro d hd k hmem
    rw [Option.mem_def.1 hd, Option.bind_some, pairKind?_of_mem hmem] at hpair
    cases hpair
  by_cases hk : singleKind c = .invalid
  · rw [hk]
    refine ⟨c, rfl, hc, fun k hmem => ?_, hunpaired⟩
    obtain ⟨hkind, hne⟩ := singleKind_of_mem hmem
    exact hne (hkind.symm.trans hk)
  · have hmem := mem_singles hk
    refine fits_of_mem (List.mem_map.2 ⟨_, List.mem_append_right _ hmem, rfl⟩)
      (.inr ⟨hmem, hunpaired, ?_⟩)
    simpa using hslash

end Tables

section Lexemes

variable {as bs : List Char}

theorem stop_of_length_takeWhile {p : Char → Bool}
    (h : ((as ++ bs).takeWhile p).length = as.length) :
    ∀ c ∈ bs.head?, p c = false := by
  obtain ⟨cs, ds, hsplit, htake, -, hstop⟩ := takeWhile_split p (as ++ bs)
  rw [htake] at h
  obtain ⟨-, rfl⟩ := List.append_inj hsplit h.symm
  exact hstop

theorem isNumber_of_length {c : Char} (hc : Text.isAsciiDigit c = true)
    (h : numberLength (as ++ bs) = as.length) :
    IsNumber (c :: as) bs := by
  obtain ⟨cs, ds, hsplit, htake, hcs, hstop⟩ := takeWhile_split Text.isAsciiDigit (as ++ bs)
  have hdigits : digitsLength (as ++ bs) = cs.length := congrArg List.length htake
  have hfirst : ∀ d ∈ c :: cs, Text.isAsciiDigit d = true := List.forall_mem_cons.2 ⟨hc, hcs⟩
  simp only [numberLength, hdigits] at h
  rw [hsplit, List.drop_left] at h
  split at h
  · rename_i es
    obtain ⟨fs, gs, rfl, hfs, hfraction, hbehind⟩ := takeWhile_split Text.isAsciiDigit es
    have hlen : as.length = (cs ++ '.' :: fs).length := by
      rw [← h, digitsLength, hfs, List.length_append, List.length_cons]
      omega
    have happend : as ++ bs = (cs ++ '.' :: fs) ++ gs := by simp [hsplit]
    obtain ⟨rfl, rfl⟩ := List.append_inj happend hlen
    exact .pointed (List.cons_ne_nil c cs) hfirst hfraction hbehind
  · rename_i hpoint
    obtain ⟨rfl, rfl⟩ := List.append_inj hsplit h.symm
    refine .whole (List.cons_ne_nil c as) hfirst fun d hd => ⟨hstop d hd, ?_⟩
    rintro rfl
    obtain ⟨es, rfl⟩ := List.head?_eq_some_iff.1 hd
    exact hpoint es rfl

theorem unclosed_of_quotedLength {q : Char} (cs : List Char) :
    Closed q (cs.take (quotedLength q cs)) ∨ (quotedLength q cs = cs.length ∧ Unclosed q cs) := by
  fun_induction quotedLength q cs with
  | case1 => exact .inr ⟨rfl, .nil⟩
  | case2 c =>
    by_cases hq : c = q
    · subst hq
      exact .inl .quote
    · by_cases hb : c = '\\'
      · subst hb
        exact .inr ⟨rfl, .backslash⟩
      · exact .inr ⟨rfl, .plain hq hb .nil⟩
  | case3 d cs => exact .inl .quote
  | case4 d cs _ ih =>
    rw [Nat.add_comm, List.take_succ_cons, List.take_succ_cons]
    rcases ih with h | ⟨hlen, h⟩
    · exact .inl (.escaped h)
    · exact .inr ⟨by simp only [hlen, List.length_cons], .escaped h⟩
  | case5 c d cs hc hb ih =>
    rw [Nat.add_comm, List.take_succ_cons]
    rcases ih with h | ⟨hlen, h⟩
    · exact .inl (.plain hc hb h)
    · exact .inr ⟨by simp only [hlen, List.length_cons], .plain hc hb h⟩

theorem isLiteral_of_length {q : Char} (h : quotedLength q (as ++ bs) = as.length) :
    IsLiteral q (q :: as) bs := by
  refine ⟨as, rfl, ?_⟩
  rcases unclosed_of_quotedLength (q := q) (as ++ bs) with hclosed | ⟨hlen, hopen⟩
  · rw [h, List.take_left] at hclosed
    exact .inl hclosed
  · rw [h, List.length_append] at hlen
    obtain rfl := List.length_eq_zero_iff.1 (show bs.length = 0 by omega)
    rw [List.append_nil] at hopen
    exact .inr ⟨rfl, hopen⟩

theorem fits_word {c : Char} (hc : isWordStart c = true) (h : wordLength (as ++ bs) = as.length) :
    (wordKind (c :: as)).Fits (c :: as) bs := by
  have hword : IsWord (c :: as) bs :=
    ⟨c, as, rfl, hc, forall_of_length_takeWhile h, stop_of_length_takeWhile h⟩
  unfold wordKind
  split
  · rename_i hmem
    exact ⟨hword, List.contains_iff_mem.1 hmem⟩
  · rename_i hmem
    exact ⟨hword, fun hkey => hmem (List.contains_iff_mem.2 hkey)⟩

theorem lexeme_fits {c : Char} {k : Kind} (h : lexeme c (as ++ bs) = ⟨some k, 1 + as.length⟩) :
    k.Fits (c :: as) bs := by
  unfold lexeme at h
  repeat' split at h
  all_goals injection h with hk hsize
  all_goals try (cases hk; done)
  all_goals obtain rfl := Option.some.inj hk
  · rename_i hc
    subst hc
    have hline := Nat.add_left_cancel hsize
    have hbody := forall_of_length_takeWhile hline
    exact ⟨as, rfl,
      fun hmem => by simpa using hbody _ hmem, by simpa using stop_of_length_takeWhile hline⟩
  · rename_i hc
    subst hc
    exact isLiteral_of_length (Nat.add_left_cancel hsize)
  · rename_i hc
    subst hc
    exact isLiteral_of_length (Nat.add_left_cancel hsize)
  · exact isNumber_of_length (by assumption) (Nat.add_left_cancel hsize)
  · have hlen := Nat.add_left_cancel hsize
    rw [hlen, List.take_left]
    exact fits_word (by assumption) hlen
  · rename_i hpair
    obtain ⟨d, rfl⟩ := List.length_eq_one_iff.1 (show as.length = 1 by omega)
    exact fits_pair hpair bs
  · rename_i hblank hhash hquote htick hline hcomment hdigit hword _ hpair
    obtain rfl := List.length_eq_zero_iff.1 (show as.length = 0 by omega)
    have hc : Sign c :=
      ⟨by simpa using hblank, hhash, hquote, htick, by simpa using hdigit, by simpa using hword⟩
    refine fits_single hc hpair fun hslash d hd => ⟨?_, ?_⟩
    · rintro rfl
      exact hline ⟨hslash, hd⟩
    · rintro rfl
      exact hcomment ⟨hslash, hd⟩

end Lexemes

def Stands (pos : Nat) (cs : List Char) (t : Token) : Prop :=
  ∃ before behind, cs = before ++ (t.text.toList ++ behind) ∧ t.pos = (pos + before.length : Nat) ∧
    t.kind.Fits t.text.toList behind

theorem Stands.of_drop {pos n : Nat} {cs : List Char} {t : Token} (hn : n ≤ cs.length)
    (h : Stands (pos + n) (cs.drop n) t) : Stands pos cs t := by
  obtain ⟨before, behind, hcs, hpos, hfits⟩ := h
  refine ⟨cs.take n ++ before, behind, ?_, ?_, hfits⟩
  · rw [List.append_assoc, ← hcs, List.take_append_drop]
  · rw [hpos, List.length_append, List.length_take_of_le hn, Nat.add_assoc]

theorem scanFrom_stands {pos : Nat} {cs : List Char} {t : Token} (ht : t ∈ scanFrom pos cs) :
    Stands pos cs t := by
  fun_induction scanFrom pos cs with
  | case1 pos =>
    rw [List.mem_singleton.1 ht]
    exact ⟨[], [], rfl, rfl, rfl, rfl⟩
  | case2 pos c cs x rest k hk ih =>
    obtain ⟨hpos, hle⟩ : 1 ≤ x.size ∧ x.size ≤ cs.length + 1 := lexeme_size c cs
    rcases List.mem_cons.1 ht with rfl | ht
    · obtain ⟨n, hn⟩ : ∃ n, x.size = n + 1 := ⟨x.size - 1, by omega⟩
      have hfits : k.Fits (c :: cs.take n) (cs.drop n) := by
        apply lexeme_fits
        rw [List.take_append_drop, List.length_take_of_le (by omega), Nat.add_comm, ← hn, ← hk]
      refine ⟨[], cs.drop n, ?_, rfl, ?_⟩
      · simp [hn]
      · simpa [hn] using hfits
    · exact (ih ht).of_drop hle
  | case3 pos c cs x rest hk ih => exact (ih ht).of_drop (lexeme_size c cs).2

/-- Every token of a text stands where its offset says, is as long as its kind allows there, and is
of the kind that its text asks for. -/
theorem scan_fits (source : String) (t : Token) (ht : t ∈ scan source) :
    ∃ before behind, Text.trim source.toList = before ++ (t.text.toList ++ behind) ∧
    t.pos = before.length ∧
      t.kind.Fits t.text.toList behind := by
  obtain ⟨before, behind, hcs, hpos, hfits⟩ := scanFrom_stands ht
  rw [Nat.zero_add] at hpos
  exact ⟨before, behind, hcs, hpos, hfits⟩

def crammed : String := "a-->1..5/|'\\'"

def crammedTokens : List Token :=
  [⟨.identifier, "a", 0⟩, ⟨.decrement, "--", 1⟩, ⟨.comparison, ">", 3⟩, ⟨.number, "1.", 4⟩,
    ⟨.dot, ".", 6⟩, ⟨.number, "5", 7⟩, ⟨.operator, "/", 8⟩, ⟨.invalid, "|", 9⟩,
    ⟨.char, "'\\'", 10⟩, ⟨.eof, "", 13⟩]

theorem scan_crammed : scan crammed = crammedTokens := by decide +kernel

theorem scan_fits_crammed :
    ⟨.number, "1.", 4⟩ ∈ scan crammed ∧
    Kind.Fits .number ['1', '.'] ['.', '5', '/', '|', '\x27', '\\', '\x27'] ∧
      ⟨.invalid, "|", 9⟩ ∈ scan crammed ∧ Kind.Fits .invalid ['|'] ['\x27', '\\', '\x27'] := by
  have hmem {t : Token} (ht : t ∈ crammedTokens) : t ∈ scan crammed := by rwa [scan_crammed]
  have hbehind {before text behind : List Char} {i : Nat}
      (h : Text.trim crammed.toList = before ++ (text ++ behind))
      (hi : (i : Int) = before.length) :
      behind = (Text.trim crammed.toList).drop (i + text.length) := by
    rw [h, Int.ofNat.inj hi, drop_middle]
  have hnumber := hmem (t := ⟨.number, "1.", 4⟩) (by decide)
  have hinvalid := hmem (t := ⟨.invalid, "|", 9⟩) (by decide)
  obtain ⟨before, behind, htext, hpos, hfits⟩ := scan_fits crammed _ hnumber
  obtain ⟨before', behind', htext', hpos', hfits'⟩ := scan_fits crammed _ hinvalid
  rw [hbehind (i := 4) htext hpos] at hfits
  rw [hbehind (i := 9) htext' hpos'] at hfits'
  exact ⟨hnumber, hfits, hinvalid, hfits'⟩

end MiniC.Token

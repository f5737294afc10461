import MiniC.Machine.Literal
import MiniC.Proofs.Kinds

/-! Where a literal ends. The scanner looks for the quote that closes a literal, and later its body
is looked for again, in the text of the token alone. Both pair backslashes in the same way, so the
body is all but the two quotes, or all but the first one where the text ended before the literal
did. -/

namespace MiniC.Machine.Literal

section Body

variable {q c : Char} {cs : List Char}

theorem body_escaped (hq : q ≠ '\\') (c : Char) (cs : List Char) :
    body q ('\\' :: c :: cs) = '\\' :: c :: body q cs := by
  rw [body, if_neg hq.symm, if_pos rfl]

theorem body_plain (hc : c ≠ q) (hb : c ≠ '\\') (cs : List Char) :
    body q (c :: cs) = c :: body q cs := by
  cases cs with
  | nil => simp [body, hc]
  | cons d cs => simp [body, hc, hb]

theorem body_of_closed (hq : q ≠ '\\') (h : Token.Closed q cs) : cs = body q cs ++ [q] := by
  induction h with
  | quote => simp [body]
  | @escaped c cs _ ih => rw [body_escaped hq, List.cons_append, List.cons_append, ← ih]
  | @plain c cs hc hb _ ih => rw [body_plain hc hb, List.cons_append, ← ih]

theorem body_of_unclosed (hq : q ≠ '\\') (h : Token.Unclosed q cs) : body q cs = cs := by
  induction h with
  | nil => rfl
  | backslash => simp [body, hq.symm]
  | @escaped c cs _ ih => rw [body_escaped hq, ih]
  | @plain c cs hc hb _ ih => rw [body_plain hc hb, ih]

end Body

section Unescape

variable {q c d : Char} {cs : List Char}

theorem unescape_escaped (c : Char) (cs : List Char) :
    unescape ('\\' :: c :: cs) = escape c :: unescape cs := by
  rw [unescape, if_pos rfl]

theorem unescape_plain (hb : c ≠ '\\') (cs : List Char) :
    unescape (c :: cs) = c :: unescape cs := by
  cases cs with
  | nil => rfl
  | cons d cs => rw [unescape, if_neg hb]

/-- A quote at the end of what no quote closes is an escaped one, and a backslash is escaped or
alone. Either is part of the text. -/
theorem getLast?_unescape (hq : escape q = q) (h : Token.Unclosed q cs) (hd : d = q ∨ d = '\\')
    (hlast : cs.getLast? = some d) : (unescape cs).getLast? = some d := by
  have hself : escape d = d := by
    rcases hd with rfl | rfl
    · exact hq
    · rfl
  induction h with
  | nil => simp at hlast
  | backslash => simpa [unescape] using hlast
  | @escaped c cs _ ih =>
    rw [unescape_escaped, List.getLast?_cons]
    cases cs with
    | nil =>
      obtain rfl : c = d := by simpa using hlast
      simp [unescape, hself]
    | cons e cs =>
      rw [ih (by simpa using hlast)]
      rfl
  | @plain c cs hc hb _ ih =>
    rw [unescape_plain hb, List.getLast?_cons]
    cases cs with
    | nil =>
      obtain rfl : c = d := by simpa using hlast
      rcases hd with hd | hd
      · exact absurd hd hc
      · exact absurd hd hb
    | cons e cs =>
      rw [ih (by simpa using hlast)]
      rfl

end Unescape

def Quotes (k : Token.Kind) (q : Char) : Prop := (k = .string ∧ q = '"') ∨ (k = .char ∧ q = '\x27')

theorem Quotes.isLiteral {k : Token.Kind} (hk : k = .string ∨ k = .char) {cs rest : List Char}
    (h : k.Fits cs rest) : ∃ q, Quotes k q ∧ Token.IsLiteral q cs rest := by
  rcases hk with rfl | rfl
  · exact ⟨'"', .inl ⟨rfl, rfl⟩, h⟩
  · exact ⟨'\x27', .inr ⟨rfl, rfl⟩, h⟩

theorem Quotes.plain {k : Token.Kind} {q : Char} (h : Quotes k q) : q ≠ '\\' ∧ escape q = q := by
  rcases h with ⟨-, rfl⟩ | ⟨-, rfl⟩
  · exact ⟨by decide, rfl⟩
  · exact ⟨by decide, rfl⟩

/-- The body of every literal of a text ends where the scanner ended the token. If a quote closes
it, the body stops at that quote, the last character; if none does, the token reaches the end of the
text and the body the end of the token, and a quote or a backslash that stands there is kept. -/
theorem literal_ends_at_quote (source : String) (t : Token) (ht : t ∈ Token.scan source)
    (hk : t.kind = .string ∨ t.kind = .char) :
    ∃ q cs before behind, Text.trim source.toList = before ++ (t.text.toList ++ behind) ∧
    t.pos = before.length ∧
      Quotes t.kind q ∧ t.text.toList = q :: cs ∧
      (Token.Closed q cs → cs = body q cs ++ [q] ∧
        decodeText t.text = String.ofList (unescape cs.dropLast)) ∧
      (¬Token.Closed q cs → behind = [] ∧ Token.Unclosed q cs ∧ body q cs = cs ∧
        decodeText t.text = String.ofList (unescape cs) ∧
        ∀ d, d = q ∨ d = '\\' → cs.getLast? = some d →
          (decodeText t.text).toList.getLast? = some d) := by
  obtain ⟨before, behind, hsource, hpos, hfits⟩ := Token.scanFrom_stands ht
  obtain ⟨q, hquote, cs, htext, hends⟩ := Quotes.isLiteral hk hfits
  obtain ⟨hq, hself⟩ := hquote.plain
  have hdecode : decodeText t.text = String.ofList (unescape (body q cs)) := by
    rw [decodeText, htext, decode]
  rw [Nat.zero_add] at hpos
  refine ⟨q, cs, before, behind, hsource, hpos, hquote, htext, ?_, ?_⟩
  · intro hclosed
    have hbody := body_of_closed hq hclosed
    refine ⟨hbody, ?_⟩
    rw [hdecode]
    -- only on the right: the body on the left is already cut at the quote
    nth_rewrite 2 [hbody]
    rw [List.dropLast_concat]
  · intro hclosed
    obtain ⟨hbehind, hopen⟩ := hends.resolve_left hclosed
    have hbody := body_of_unclosed hq hopen
    rw [hbody] at hdecode
    refine ⟨hbehind, hopen, hbody, hdecode, ?_⟩
    intro d hd hlast
    rw [hdecode, String.toList_ofList]
    exact getLast?_unescape hself hopen hd hlast

def halfQuoted : String := "'\\'' \"x\\\""

def halfQuotedTokens : List Token := [⟨.char, "'\\''", 0⟩, ⟨.string, "\"x\\\"", 5⟩, ⟨.eof, "", 9⟩]

theorem scan_halfQuoted : Token.scan halfQuoted = halfQuotedTokens := by decide +kernel

theorem literal_ends_at_quote_halfQuoted :
    ⟨.char, "'\\''", 0⟩ ∈ Token.scan halfQuoted ∧
    decodeText "'\\''" = String.ofList (unescape ['\\', '\x27']) ∧
      ⟨.string, "\"x\\\"", 5⟩ ∈ Token.scan halfQuoted ∧ Token.Unclosed '"' ['x', '\\', '"'] ∧
      (decodeText "\"x\\\"").toList.getLast? = some '"' := by
  have hmem {t : Token} (ht : t ∈ halfQuotedTokens) :
  t ∈ Token.scan halfQuoted := by rwa [scan_halfQuoted]
  have hchar := hmem (t := ⟨.char, "'\\''", 0⟩) (by decide)
  have hstring := hmem (t := ⟨.string, "\"x\\\"", 5⟩) (by decide)
  have hclosed : Token.Closed '\x27' ['\\', '\x27', '\x27'] := .escaped .quote
  have hopen : ¬Token.Closed '"' ['x', '\\', '"'] := by
    intro h
    exact absurd (body_of_closed (by decide) h) (by decide)
  obtain ⟨q, cs, _, _, _, _, hq, hcs, hends, -⟩ :=
    literal_ends_at_quote halfQuoted _ hchar (.inr rfl)
  obtain ⟨q', cs', _, _, _, _, hq', hcs', -, hruns⟩ :=
    literal_ends_at_quote halfQuoted _ hstring (.inl rfl)
  cases hcs
  cases hcs'
  obtain ⟨-, hunclosed, -, -, hlast⟩ := hruns hopen
  exact ⟨hchar, (hends hclosed).2, hstring, hunclosed, hlast '"' (.inl rfl) rfl⟩

end MiniC.Machine.Literal

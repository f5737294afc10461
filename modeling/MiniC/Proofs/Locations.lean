import Mathlib.Data.List.Induction
import MiniC.Location

/-! Lines and columns. A line and a column, counted from one, stand for an offset: the lines before
it, each with the line feed that ends it, and the characters of its own line in front of it make up
the offset. What is shown of a location are up to three lines with their numbers, and a marker below
the last of them that stands where the offset does. Main statement: `ofOffset_marks`. -/

namespace MiniC

namespace Text

theorem lines_newline (cs : List Char) : lines ('\n' :: cs) = [] :: lines cs := by simp [lines]

theorem lines_cons {c : Char} {cs l : List Char} {ls : List (List Char)} (hc : c ≠ '\n')
    (h : lines cs = l :: ls) :
    lines (c :: cs) = (c :: l) :: ls := by
  simp [lines, hc, h]

theorem lines_eq (cs : List Char) : ∃ ls, lines cs = cs.takeWhile (· ≠ '\n') :: ls := by
  induction cs with
  | nil => exact ⟨[], rfl⟩
  | cons c cs ih =>
    by_cases hc : c = '\n'
    · refine ⟨lines cs, ?_⟩
      simp [hc, lines_newline]
    · obtain ⟨ls, hls⟩ := ih
      refine ⟨ls, ?_⟩
      simp [lines_cons hc hls, hc]

theorem newline_not_mem {cs l : List Char} (h : l ∈ lines cs) : '\n' ∉ l := by
  induction cs generalizing l with
  | nil => simp_all [lines]
  | cons c cs ih =>
    by_cases hc : c = '\n'
    · rw [hc, lines_newline, List.mem_cons] at h
      rcases h with rfl | h
      · simp
      · exact ih h
    · obtain ⟨m, ms, hm⟩ := List.exists_cons_of_ne_nil (lines_ne_nil cs)
      rw [lines_cons hc hm, List.mem_cons] at h
      rcases h with rfl | h
      · have hfirst : '\n' ∉ m := ih (by rw [hm]; exact List.mem_cons_self)
        simp [Ne.symm hc, hfirst]
      · exact ih (by rw [hm]; exact List.mem_cons_of_mem _ h)

theorem lines_append {l cs m : List Char} {ms : List (List Char)} (h : '\n' ∉ l)
    (hm : lines cs = m :: ms) :
    lines (l ++ cs) = (l ++ m) :: ms := by
  induction l with
  | nil => exact hm
  | cons c l ih =>
    rw [List.mem_cons, not_or] at h
    exact lines_cons (Ne.symm h.1) (ih h.2)

theorem lines_unlines {ls : List (List Char)} (hne : ls ≠ []) (h : ∀ l ∈ ls, '\n' ∉ l) :
    lines (unlines ls) = ls := by
  induction ls with
  | nil => exact absurd rfl hne
  | cons l ls ih =>
    have hl : '\n' ∉ l := h l List.mem_cons_self
    cases ls with
    | nil => simpa [unlines, List.intercalate] using lines_append hl (rfl : lines [] = [[]])
    | cons m ms =>
      have hjoined : unlines (l :: m :: ms) = l ++ '\n' :: unlines (m :: ms) := by
        simp [unlines, List.intercalate]
      have hrest := ih (by simp) fun k hk => h k (List.mem_cons_of_mem _ hk)
      rw [hjoined, lines_append hl (lines_newline _), hrest, List.append_nil]

end Text

namespace Location

def extent (ls : List (List Char)) : Nat := ls.foldr (fun l n => l.length + 1 + n) 0

theorem extent_concat (ls : List (List Char)) (l : List Char) :
    extent (ls ++ [l]) = extent ls + (l.length + 1) := by
  induction ls with
  | nil => simp [extent]
  | cons k ks ih =>
    change k.length + 1 + extent (ks ++ [l]) = k.length + 1 + extent ks + (l.length + 1)
    rw [ih]
    omega

/-- What stands before an offset: lines that have ended, and the beginning of the offset's own
line. -/
structure Ahead (before : List Char) (ended : List (List Char)) (left : List Char) : Prop where
  line : lineOf before = ended.length + 1
  column : columnOf before = left.length + 1
  offset : before.length = extent ended + left.length
  lines : ∀ {after right : List Char} {later : List (List Char)},
    Text.lines after = right :: later →
    Text.lines (before ++ after) = ended ++ (left ++ right) :: later

/-- A line feed ends the line before it, and any other character goes on with it. -/
theorem exists_ahead (before : List Char) : ∃ ended left, Ahead before ended left := by
  induction before using List.reverseRecOn with
  | nil => exact ⟨[], [], rfl, rfl, rfl, fun h => h⟩
  | append_singleton before c ih =>
    obtain ⟨ended, left, hline, hcolumn, hoffset, hlines⟩ := ih
    by_cases hc : c = '\n'
    · subst hc
      refine ⟨ended ++ [left], [], ?_, ?_, ?_, ?_⟩
      · simp only [lineOf, List.count_append, List.count_singleton_self, List.length_append,
          List.length_singleton] at hline ⊢
        omega
      · simp [columnOf]
      · rw [List.length_append, List.length_singleton, extent_concat, List.length_nil]
        omega
      · intro after right later h
        have hnext := hlines ((Text.lines_newline after).trans (congrArg _ h))
        simpa using hnext
    · refine ⟨ended, left ++ [c], ?_, ?_, ?_, ?_⟩
      · simpa [lineOf, List.count_append, hc] using hline
      · simpa [columnOf, hc] using hcolumn
      · simp only [List.length_append, List.length_singleton]
        omega
      · intro after right later h
        have hnext := hlines (Text.lines_cons hc h)
        simpa using hnext

theorem numberFrom_eq (first : Int) (ls : List (List Char)) :
    numberFrom first ls = ls.mapIdx fun i l => gutter (first + i) ++ l := by
  induction ls generalizing first with
  | nil => rfl
  | cons l ls ih =>
    rw [numberFrom, ih, List.mapIdx_cons]
    simp [Int.add_assoc, Int.add_comm 1]

structure Identifies (cs : List Char) (p line column : Nat) (text : List Char) : Prop where
  line_pos : 1 ≤ line
  line_le : line ≤ (Text.lines cs).length
  line_eq : (Text.lines cs)[line - 1]? = some text
  column_pos : 1 ≤ column
  column_le : column ≤ text.length + 1
  offset : extent ((Text.lines cs).take (line - 1)) + column - 1 = p

/-- Lines as they are printed, with numbers that go up to the last line's. The marker below begins
where the rest of a text, from an offset on, begins in the last line. -/
structure Marks (cs : List Char) (p line : Nat) (shown printed : List (List Char))
    (marker : List Char) : Prop where
  numbered : printed = shown.mapIdx fun i l => gutter (line - shown.length + 1 + i) ++ l
  marked : ∃ left, printed.getLast? = some (left ++ (cs.drop p).takeWhile (· ≠ '\n')) ∧
    marker = List.replicate left.length ' ' ++ ['^', '^', '^']

theorem lines_of_ahead {cs left : List Char} {ended : List (List Char)} {p : Nat}
    (h : Ahead (cs.take p) ended left) :
    ∃ later, Text.lines cs = ended ++ (left ++ (cs.drop p).takeWhile (· ≠ '\n')) :: later := by
  obtain ⟨later, hafter⟩ := Text.lines_eq (cs.drop p)
  refine ⟨later, ?_⟩
  have hlines := h.lines hafter
  rwa [List.take_append_drop] at hlines

theorem identifies_of_ahead {cs left : List Char} {ended : List (List Char)} {p : Nat}
    (hp : p ≤ cs.length) (h : Ahead (cs.take p) ended left) :
    Identifies cs p (lineOf (cs.take p)) (columnOf (cs.take p))
      (left ++ (cs.drop p).takeWhile (· ≠ '\n')) := by
  obtain ⟨later, hlines⟩ := lines_of_ahead h
  have hoffset := h.offset
  rw [List.length_take, Nat.min_eq_left hp] at hoffset
  rw [h.line, h.column]
  refine ⟨by omega, ?_, ?_, by omega, ?_, ?_⟩
  · rw [hlines]
    simp
  · rw [hlines]
    simp
  · simp
  · rw [hlines, Nat.add_sub_cancel, List.take_left]
    omega

theorem lastLines_of_ahead {cs left : List Char} {ended : List (List Char)} {p : Nat}
    (h : Ahead (cs.take p) ended left) :
    lastLines 3 (lineOf (cs.take p)) (Text.lines cs) =
      ended.drop (ended.length - 2) ++ [left ++ (cs.drop p).takeWhile (· ≠ '\n')] := by
  obtain ⟨later, hlines⟩ := lines_of_ahead h
  rw [lastLines, hlines, h.line, List.take_length_add_append, List.take_succ_cons, List.take_zero]
  exact List.drop_append_of_le_length (by omega)

/-- Behind its number a line has the same characters, so that the marker is as far to the right as
the number takes and the column asks for. -/
theorem marks_of_ahead {cs left : List Char} {ended : List (List Char)} {p : Nat}
    (h : Ahead (cs.take p) ended left) {l : Location} (hline : l.line = lineOf (cs.take p))
    (hcolumn : l.column = columnOf (cs.take p)) {shown : List (List Char)}
    (hshown : shown = lastLines 3 (lineOf (cs.take p)) (Text.lines cs)) :
    Marks cs p (lineOf (cs.take p)) shown (numberFrom (l.line - shown.length + 1) shown)
      l.marker := by
  refine ⟨?_, gutter l.line ++ left, ?_, ?_⟩
  · rw [numberFrom_eq, hline]
  · have hlast : shown.getLast? = some (left ++ (cs.drop p).takeWhile (· ≠ '\n')) := by
      rw [hshown, lastLines_of_ahead h, List.getLast?_concat]
    have hpos : 0 < shown.length := by rw [hshown, lastLines_of_ahead h]; simp
    have hnumber : l.line - shown.length + 1 + (shown.length - 1 : Nat) = l.line := by omega
    rw [numberFrom_eq, List.getLast?_mapIdx, hlast, Option.map_some, hnumber, List.append_assoc]
  · rw [marker, hcolumn, h.column, List.length_append]
    congr 2
    omega

theorem display_of_lines {line column : Int} {shown : List (List Char)}
    (hne : Text.unlines shown ≠ []) (hlines : Text.lines (Text.unlines shown) = shown) :
    display ⟨line, column, some (String.ofList (Text.unlines shown))⟩ = String.ofList (Text.unlines
      (s!"{line}:{column}".toList :: (numberFrom (line - shown.length + 1) shown ++
        [marker ⟨line, column, some (String.ofList (Text.unlines shown))⟩]))) := by
  have hsome : (String.ofList (Text.unlines shown)).isEmpty = false := by simpa using hne
  simp only [display, hsome, header, numberedLines, String.toList_ofList, hlines]
  rfl

theorem clamp_eq (size : Nat) (pos : Int) : (clamp size pos : Int) = max 0 (min pos size) := by
  rw [clamp]
  omega

/-- The place of an offset, held to the text, is the line and the column that stand for it, so that
no two offsets have one; up to three lines are shown that end with its own; and where they are
printed the marker stands at the offset. -/
theorem ofOffset_marks (source : String) (pos : Int) :
    ∃ (p line column : Nat) (text : List Char) (shown : List (List Char)),
      (p : Int) = max 0 (min pos source.length) ∧
      ofOffset source pos = ⟨line, column, some (String.ofList (Text.unlines shown))⟩ ∧
      Identifies source.toList p line column text ∧
      (∀ pos', (ofOffset source pos').line = line → (ofOffset source pos').column = column →
        max 0 (min pos' source.length) = p) ∧
      shown <:+ (Text.lines source.toList).take line ∧ shown.length = min 3 line ∧
      (Text.unlines shown ≠ [] → ∃ printed marker, Marks source.toList p line shown printed marker ∧
        (ofOffset source pos).display =
          String.ofList (Text.unlines (s!"{line}:{column}".toList :: (printed ++ [marker])))) := by
  have hclamp (pos : Int) : (clamp source.toList.length pos : Int) =
      max 0 (min pos source.length) := by
    rw [String.length_toList]
    exact clamp_eq source.length pos
  obtain ⟨ended, left, h⟩ := exists_ahead (source.toList.take (clamp source.toList.length pos))
  have htext := identifies_of_ahead (clamp_le _ pos) h
  refine ⟨_, _, _, _, _, hclamp pos, rfl, htext, ?_, ?_, ?_, ?_⟩
  · intro pos' hline hcolumn
    obtain ⟨ended', left', h'⟩ :=
      exists_ahead (source.toList.take (clamp source.toList.length pos'))
    have htext' := identifies_of_ahead (clamp_le _ pos') h'
    rw [Int.ofNat.inj hline, Int.ofNat.inj hcolumn] at htext'
    rw [← hclamp]
    exact congrArg Int.ofNat (htext'.offset.symm.trans htext.offset)
  · exact List.drop_suffix _ _
  · have hlen := htext.line_le
    rw [lastLines, List.length_drop, List.length_take]
    omega
  · intro hne
    refine ⟨_, _, marks_of_ahead h (l := ofOffset source pos) rfl rfl rfl, display_of_lines hne ?_⟩
    apply Text.lines_unlines
    · rw [lastLines_of_ahead h]
      simp
    · intro l hl
      exact Text.newline_not_mem (List.mem_of_mem_take (List.mem_of_mem_drop hl))

theorem ofOffset_marks_emptyLine : ofOffset "a\n\nbc" 4 = ⟨3, 2, some "a\n\nbc"⟩ ∧
    ∃ shown printed marker, Marks "a\n\nbc".toList 4 3 shown printed marker ∧
      (ofOffset "a\n\nbc" 4).display =
        String.ofList (Text.unlines ("3:2".toList :: (printed ++ [marker]))) := by
  have hplace : ofOffset "a\n\nbc" 4 = ⟨3, 2, some "a\n\nbc"⟩ := by decide
  obtain ⟨p, line, column, text, shown, hp, hof, -, -, -, -, hshow⟩ := ofOffset_marks "a\n\nbc" 4
  obtain ⟨hline, hcolumn, hsnippet⟩ := Location.mk.inj (hof.symm.trans hplace)
  obtain rfl : line = 3 := Int.ofNat.inj hline
  obtain rfl : column = 2 := Int.ofNat.inj hcolumn
  obtain rfl : p = 4 := Int.ofNat.inj hp
  have hne : Text.unlines shown ≠ [] := by
    intro h
    rw [h] at hsnippet
    exact absurd hsnippet (by decide)
  obtain ⟨printed, marker, hmarks, hdisplay⟩ := hshow hne
  exact ⟨hplace, shown, printed, marker, hmarks, hdisplay⟩

end Location

end MiniC

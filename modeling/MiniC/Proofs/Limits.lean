import MiniC.Proofs.Lawful

/-! No part of a run goes beyond the ceilings on steps, calls, arrays and output. Steps and
characters are counted before they are found to be too many, so at such a fault the counter is above
the ceiling; everything else is within. Main statement: `ceilings_kept`, about every state in which
a part of a run begins or ends. -/

namespace MiniC.Machine

open Exec

/-- What has been used is within the ceilings. The characters printed are those counted, unless
there is a fault because they were too many. -/
structure Usage.Within (cfg : Bounds) (fault : Option Fault) (u : Usage) : Prop where
  steps : u.steps ≤ cfg.maxSteps + 1
  depth : u.depth ≤ cfg.maxCallDepth + 1
  lengths : ∀ n ∈ u.lengths, n ≤ cfg.maxArrayLength
  printed : u.printed ≤ cfg.maxOutputChars
  counted : (∀ chars, fault ≠ some (.outputLimit chars)) → u.printed = u.outputChars

namespace Usage.Within

variable {cfg : Bounds} {u : Usage} (h : u.Within cfg none)
include h

theorem count : u.printed = u.outputChars := h.counted (by simp)

theorem fault (f : Fault) : u.Within cfg (some f) :=
  ⟨h.steps, h.depth, h.lengths, h.printed, fun _ => h.count⟩

theorem tick {fault : Option Fault} (hsteps : u.steps ≤ cfg.maxSteps) :
    { u with steps := u.steps + 1 }.Within cfg fault :=
  ⟨Nat.succ_le_succ hsteps, h.depth, h.lengths, h.printed, fun _ => h.count⟩

theorem print {n : Nat} (hn : u.outputChars + n ≤ cfg.maxOutputChars) :
    { u with printed := u.printed + n, outputChars := u.outputChars + n }.Within cfg none := by
  have hcount := h.count
  refine ⟨h.steps, h.depth, h.lengths, ?_, fun _ => ?_⟩
  · dsimp only
    omega
  · dsimp only
    omega

theorem newArray {n : Nat} (hn : n ≤ cfg.maxArrayLength) :
    { u with lengths := u.lengths ++ [n] }.Within cfg none := by
  refine ⟨h.steps, h.depth, ?_, h.printed, h.counted⟩
  intro m hm
  rcases List.mem_append.1 hm with hm | hm
  · exact h.lengths m hm
  · rw [List.mem_singleton.1 hm]
    exact hn

theorem enter (hdepth : u.depth ≤ cfg.maxCallDepth) :
    { u with depth := u.depth + 1 }.Within cfg none :=
  ⟨h.steps, Nat.succ_le_succ hdepth, h.lengths, h.printed, h.counted⟩

omit h in
theorem leave {fault : Option Fault} (h : u.Within cfg fault) :
    { u with depth := u.depth - 1 }.Within cfg fault :=
  ⟨h.steps, Nat.le_trans (Nat.sub_le _ _) h.depth, h.lengths, h.printed, h.counted⟩

end Usage.Within

/-- The law of the ceilings, seen from the lengths that the arrays have in the end. Of numbers it
says nothing. -/
def ceilings (cfg : Bounds) (lengths : List Nat) : Law cfg where
  number _ := True
  state u := u.steps ≤ cfg.maxSteps ∧ u.Within cfg none
  fault f u := u.Within cfg (some f)
  ends u := u.lengths <+: lengths
  checks _ := True
  checksSteps := True
  small _ := trivial
  neg _ := trivial
  arithmetic _ _ _ _ := trivial
  stepped _ _ := trivial
  back h hv := h.lengths.trans hv
  within h := h.1
  throws _ h := h.2.fault _
  tick h hsteps := ⟨hsteps, h.2.tick h.1⟩
  tickLimit h _ := h.2.tick h.1
  tickUnreported h _ _ := h.2.tick h.1
  print h hn := ⟨h.1, h.2.print hn⟩
  printLimit h :=
    ⟨h.2.steps, h.2.depth, h.2.lengths, h.2.printed, fun hf => absurd rfl (hf cfg.maxOutputChars)⟩
  newArray h hn := ⟨h.1, h.2.newArray hn⟩
  enter h hdepth := ⟨h.1, h.2.enter hdepth⟩
  callUnreported h _ := h.2.fault _
  leave h := ⟨h.1, h.2.leave⟩
  leaveFault h := h.leave

section Ceilings

variable {cfg : Bounds} {lengths : List Nat} {α : Type}

theorem ceilings_initial : (ceilings cfg lengths).state State.initial.usage := by
  refine ⟨Nat.zero_le _, Nat.zero_le _, ?_, ?_, Nat.zero_le _, fun _ => rfl⟩
  · exact Nat.succ_le_succ (Nat.zero_le _)
  · rintro n ⟨⟩

theorem within_of_ends {P : α → Prop} {s : State} {r : Ending α}
    (h : (ceilings cfg lengths).Ends True P s r) :
    (endState r).usage.Within cfg (faultOf r) := by
  cases r with
  | ok x t => exact h.2.2.2.1.2
  | error f t => exact h.2.1

end Ceilings

def ceilingWatch (cfg : Bounds) (lengths : List Nat) : Watch :=
  .states fun fault s => s.usage.Within cfg fault ∧ s.usage.lengths <+: lengths

theorem watches_ceilings (cfg : Bounds) (lengths : List Nat) (stop : Nat → Runner) :
    (ceilings cfg lengths).Watches .nothing (ceilingWatch cfg lengths) stop where
  eval := by
    intro e _ _ _ _ hc
    exact absurd (vouched_of_checks (fun _ => trivial) trivial e) hc
  exec := by
    intro c _ _ _ _ hc
    exact absurd (stored_of_checks (fun _ => trivial) c) hc
  stopEval _ h := absurd trivial h
  stopExec _ h := absurd trivial h
  showEval := by
    intro e s r hs hend ht
    exact ⟨⟨hs.used.2, (hend.before.lengths.trans ht)⟩, within_of_ends hend, ht⟩
  showExec := by
    intro c s r hs hend ht
    exact ⟨⟨hs.used.2, (hend.before.lengths.trans ht)⟩, within_of_ends hend, ht⟩

theorem execute_ends (cfg : Bounds) (t : Tree) :
    (execute cfg t).state.usage =
      (endState (runTree cfg (runner cfg cfg.levels) t .initial)).usage ∧
      (execute cfg t).fault = faultOf (runTree cfg (runner cfg cfg.levels) t .initial) := by
  cases hr : runTree cfg (runner cfg cfg.levels) t .initial with
  | ok u s =>
    rw [execute_of_ok hr]
    exact ⟨rfl, rfl⟩
  | error f s =>
    rw [execute_of_error hr]
    refine ⟨?_, rfl⟩
    dsimp only
    -- Only the journal may have a record more.
    split <;> rfl

/-- Steps, calls, arrays and output are within their ceilings wherever a part of a run begins or
ends, and so they are when the run has ended, with a fault or not. An array has the length it was
made with to the end: wherever a part begins or ends, the lengths of all arrays are the first of
those in the last state. -/
theorem ceilings_kept (cfg : Bounds) (t : Tree) :
    Throughout cfg t (ceilingWatch cfg (execute cfg t).state.usage.lengths) ∧
      (execute cfg t).state.usage.Within cfg (execute cfg t).fault := by
  obtain ⟨husage, hfault⟩ := execute_ends cfg t
  have hwatches := watches_ceilings cfg (execute cfg t).state.usage.lengths fun _ => .exhausted
  have hrun (other : Nat → Runner) :=
    Law.run_watched hwatches other (t := t) (fun _ _ => trivial) ceilings_initial cfg.levels
  simp only [watchedRunner_nothing] at hrun
  constructor
  · intro other
    apply (hrun other).2
    rw [← husage]
    exact List.prefix_refl _
  · rw [husage, hfault]
    exact within_of_ends (hrun fun _ => .exhausted).1

end MiniC.Machine

import Reckoner.Proofs.Execution

/-!
# Variables over whole sessions

A step that succeeds changes the variables by its result alone, and a step that fails, at whatever
stage, does not change them (`run_settled`, `execute_settled`). So the variables after any number of
steps are those at the start changed by the results in order (`vars_advanceAll`), and each name has
the value of the last result that goes by it.
-/

namespace Reckoner

/-- The report leaves the variables that its outcome calls for: those of its result, or the old
ones. -/
def Report.Settled (r : Report) (vars : Variables) : Prop :=
  r.vars = r.outcome.toOption.elim vars vars.after

theorem Report.Settled.after {r : Report} {vars : Variables} (h : r.Settled vars)
    (events : List Event) : (r.after events).Settled vars := h

theorem Report.settled_of_effect {r : Report} {vars vars' : Variables}
    {outcome : Except Failure Result} (h : r.effect = (outcome, vars'))
    (hv : vars' = outcome.toOption.elim vars vars.after) : r.Settled vars := by
  simp only [effect, Prod.mk.injEq] at h
  obtain ⟨rfl, rfl⟩ := h
  exact hv

namespace Session

theorem failed_settled (s : Session) (failure : Failure) (events : List Event) :
    (s.failed failure events).Settled s.vars := rfl

theorem execute_settled (s : Session) (st : Statement) : (s.execute st).Settled s.vars := by
  rcases s.effect_execute st with h | ⟨o, gap, -, h⟩
  · unfold Statement.effect at h
    rcases he : st.eval s.vars s.limits.levels with f | ⟨r, vars'⟩ <;> rw [he] at h
    · exact Report.settled_of_effect h rfl
    · exact Report.settled_of_effect h (Statement.eval_ok he).2
  · exact Report.settled_of_effect h rfl

theorem showAndExecute_settled (s : Session) (st : Statement) :
    (s.showAndExecute st).Settled s.vars := by
  unfold showAndExecute
  split
  · split
    · exact s.failed_settled _ _
    · exact (s.execute_settled st).after _
  · exact s.execute_settled st

theorem run_settled (s : Session) (line : String) : (s.run line).Settled s.vars := by
  unfold run
  split
  · exact s.failed_settled _ _
  · split
    · exact s.failed_settled _ _
    · exact (s.showAndExecute_settled _).after _

/-- What can be done with a session: run a line, work out a statement, or change the mode. -/
inductive Step where
  | run (line : String)
  | execute (st : Statement)
  | switch (mode : Mode)

/-- The report of a step; a change of mode has none. -/
def report? (s : Session) : Step → Option Report
  | .run line => some (s.run line)
  | .execute st => some (s.execute st)
  | .switch _ => none

/-- The result of a step, if it succeeds with one. -/
def result? (s : Session) (step : Step) : Option Result :=
  (s.report? step).bind fun r => r.outcome.toOption

def advance (s : Session) (step : Step) : Session :=
  match step with
  | .run line => s.next (s.run line)
  | .execute st => s.next (s.execute st)
  | .switch mode => s.inMode mode

def advanceAll (s : Session) (steps : List Step) : Session := steps.foldl advance s

/-- The results of the steps that succeed, in order. -/
def results (s : Session) : List Step → List Result
  | [] => []
  | step :: steps => (s.result? step).toList ++ (s.advance step).results steps

/-- A step with a result changes the variables by it, and every other step leaves them. -/
theorem vars_advance (s : Session) (step : Step) :
    (s.advance step).vars = (s.result? step).elim s.vars s.vars.after := by
  cases step with
  | run line => exact s.run_settled line
  | execute st => exact s.execute_settled st
  | switch mode => rfl

theorem vars_advanceAll :
    ∀ (s : Session) (steps : List Step),
      (s.advanceAll steps).vars = (s.results steps).foldl Variables.after s.vars
  | s, [] => rfl
  | s, step :: steps => by
    have ih := vars_advanceAll (s.advance step) steps
    simp only [advanceAll, List.foldl_cons] at ih ⊢
    rw [ih, vars_advance, results]
    rcases s.result? step with _ | r <;> rfl

end Session

namespace Variables

theorem get?_after (vars : Variables) (r : Result) (n : String) :
    (vars.after r).get? n = if r.name = some n then some r.value else vars.get? n := by
  unfold after
  rcases hn : r.name with _ | x
  · simp
  · by_cases hx : n = x
    · simp [hx]
    · rw [get?_set_of_ne vars r.value hx, if_neg]
      simpa using Ne.symm hx

/-- The last result by a name gives it its value. -/
theorem get?_foldl_after (n : String) :
    ∀ (results : List Result) (vars : Variables),
      (results.foldl after vars).get? n
        = ((results.filter (·.name = some n)).getLast?.map (·.value)).or (vars.get? n)
  | [], vars => by simp
  | r :: results, vars => by
    rw [List.foldl_cons, get?_foldl_after n results, get?_after, List.filter_cons]
    by_cases hr : r.name = some n
    · simp only [hr, decide_true, if_true, List.getLast?_cons, Option.map_some, Option.some_or]
      generalize (results.filter fun r => decide (r.name = some n)).getLast? = last
      rcases last with _ | last <;> rfl
    · simp only [hr, decide_false, if_false, Bool.false_eq_true]

end Variables

namespace Session

/-- After any steps each name has the value of the last step that succeeded with a result by that
name, or what it had at the start. From there, too, only a result with a name changes anything, and
only under that name. -/
theorem last_result_wins (s : Session) (steps : List Step) :
    (∀ n, (s.advanceAll steps).vars.get? n
      = (((s.results steps).filter (·.name = some n)).getLast?.map (·.value)).or
        (s.vars.get? n))
    ∧ ∀ step, ((s.advanceAll steps).advance step).vars =
      match (s.advanceAll steps).result? step with
      | some ⟨some x, v⟩ => (s.advanceAll steps).vars.set x v
      | some ⟨none, _⟩ => (s.advanceAll steps).vars
      | none => (s.advanceAll steps).vars := by
  refine ⟨fun n => ?_, fun step => ?_⟩
  · rw [vars_advanceAll, Variables.get?_foldl_after]
  · rw [vars_advance]
    rcases (s.advanceAll steps).result? step with _ | ⟨_ | x, v⟩ <;> rfl

end Session

end Reckoner

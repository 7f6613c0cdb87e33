import Reckoner.Session.Basic
import Reckoner.Proofs.CompiledCode

/-!
# The two modes of a session agree

A statement that can be walked through comes to the same in both modes (`effect_compile`), because
its code delivers what its tree comes to. A statement that cannot be walked through succeeds in
neither mode, though its failures may differ: on the tree a fault of an earlier operand comes
before the obstacle, while no code is made at all. So the modes succeed on the same statements
(`execute_ok_iff`), with the same results and the same variables.
-/

namespace Reckoner

/-- What a report says of a line or a statement apart from the events that were seen. -/
def Report.effect (r : Report) : Except Failure Result × Variables := (r.outcome, r.vars)

@[simp] theorem Report.effect_after (r : Report) (events : List Event) :
    (r.after events).effect = r.effect := rfl

namespace Statement

/-- What a statement comes to on its tree, and the variables after it. -/
def effect (vars : Variables) (n : Nat) (st : Statement) : Except Failure Result × Variables :=
  match st.eval vars n with
  | .ok (r, vars') => (.ok r, vars')
  | .error f => (.error (.fault f), vars)

theorem compile_eq (n : Nat) (st : Statement) :
    ∃ gap, st.compile n = match st.survey n with
      | none => .ok st.code
      | some o => .error (o.fault "compile" gap) := by
  cases st with
  | assign x e =>
    refine ⟨.expression, ?_⟩
    simp only [compile, Expr.walk, survey]
    rcases e.survey n with _ | o <;> rfl
  | expression e =>
    refine ⟨.expression, ?_⟩
    simp only [compile, Expr.walk, survey]
    rcases e.survey n with _ | o <;> rfl
  | hole => exact ⟨.statement, rfl⟩

/-- The machine ends with the result of a statement and its variables, or stops with its fault
before any variable is set: only the last instruction sets one, and it finds a value to set. -/
theorem run_code (vars : Variables) {n : Nat} {st : Statement} (h : st.survey n = none) :
    match st.eval vars n with
    | .ok (r, vars') => ∃ final, Machine.run st.code vars = .ok final
        ∧ Session.resultOf st final = some r ∧ final.vars = vars'
    | .error f => ∃ i, Machine.run st.code vars = .error ⟨i, f, vars⟩ := by
  cases st with
  | assign x e =>
    have hd := e.delivers_code vars n h 0 []
    simp only [eval, code, Machine.run]
    rcases he : e.eval vars n with f | v <;> rw [he] at hd
    · obtain ⟨k, -, hr⟩ := hd
      exact ⟨0 + k, by rw [Machine.runFrom_append, hr, error_bind]⟩
    · refine ⟨⟨[], vars.set x v⟩, ?_, ?_, rfl⟩
      · rw [Machine.runFrom_append, hd, ok_bind]
        rfl
      · simp [Session.resultOf]
  | expression e =>
    have hd := e.delivers_code vars n h 0 []
    simp only [eval, code, Machine.run]
    rcases he : e.eval vars n with f | v <;> rw [he] at hd
    · obtain ⟨k, -, hr⟩ := hd
      exact ⟨0 + k, hr⟩
    · exact ⟨⟨[v], vars⟩, hd, rfl, rfl⟩
  | hole => simp [survey] at h

end Statement

namespace Session

theorem effect_interpret (s : Session) (st : Statement) :
    (s.interpret st).effect = st.effect s.vars s.limits.levels := by
  unfold interpret Statement.effect
  rcases st.eval s.vars s.limits.levels with f | ⟨r, vars'⟩ <;> rfl

theorem effect_compile {s : Session} {st : Statement} (h : st.survey s.limits.levels = none) :
    (s.compile st).effect = st.effect s.vars s.limits.levels := by
  obtain ⟨gap, hc⟩ := Statement.compile_eq s.limits.levels st
  have hr := Statement.run_code s.vars h
  rw [h] at hc
  unfold compile Statement.effect
  simp only [hc, runCode, Report.effect_after]
  rcases he : st.eval s.vars s.limits.levels with f | ⟨r, vars'⟩ <;> rw [he] at hr
  · obtain ⟨i, hr⟩ := hr
    rw [hr]
    rfl
  · obtain ⟨final, hr, hres, hv⟩ := hr
    rw [hr]
    simp only [hres]
    rw [← hv]
    rfl

theorem effect_compile_of_obstacle {s : Session} {st : Statement} {o : Obstacle}
    (h : st.survey s.limits.levels = some o) :
    ∃ gap, (s.compile st).effect = (.error (.fault (o.fault "compile" gap)), s.vars) := by
  obtain ⟨gap, hc⟩ := Statement.compile_eq s.limits.levels st
  rw [h] at hc
  refine ⟨gap, ?_⟩
  unfold compile
  rw [hc]
  rfl

/-- In either mode, a statement has the effect of working it out on its tree, or it cannot be walked
through and fails without an effect. -/
theorem effect_execute (s : Session) (st : Statement) :
    (s.execute st).effect = st.effect s.vars s.limits.levels
      ∨ ∃ o gap, st.survey s.limits.levels = some o
        ∧ (s.execute st).effect = (.error (.fault (o.fault "compile" gap)), s.vars) := by
  unfold execute
  cases s.mode with
  | interpret => exact Or.inl (s.effect_interpret st)
  | compile =>
    rcases h : st.survey s.limits.levels with _ | o
    · exact Or.inl (effect_compile h)
    · obtain ⟨gap, hc⟩ := effect_compile_of_obstacle h
      exact Or.inr ⟨o, gap, rfl, hc⟩

theorem execute_ok_iff {s : Session} {st : Statement} {r : Result} {vars : Variables} :
    (s.execute st).effect = (.ok r, vars) ↔ st.eval s.vars s.limits.levels = .ok (r, vars) := by
  have htree : st.effect s.vars s.limits.levels = (.ok r, vars)
      ↔ st.eval s.vars s.limits.levels = .ok (r, vars) := by
    unfold Statement.effect
    rcases st.eval s.vars s.limits.levels with f | ⟨r', vars'⟩ <;> simp
  rcases s.effect_execute st with h | ⟨o, gap, ho, h⟩
  · rw [h, htree]
  · rw [h]
    simp only [Prod.mk.injEq, reduceCtorEq, false_and, false_iff]
    intro he
    rw [(Statement.eval_ok he).1] at ho
    cases ho

/-- A failure in either mode is a semantic fault, or the fault of an obstacle on a walk. -/
theorem execute_fault {s : Session} {st : Statement} {failure : Failure}
    (h : (s.execute st).outcome = .error failure) :
    ∃ f, failure = .fault f ∧ (f.class? = some .semantic
      ∨ ∃ o task gap, st.survey s.limits.levels = some o ∧ f = o.fault task gap) := by
  have hout : (s.execute st).effect.1 = .error failure := h
  rcases s.effect_execute st with he | ⟨o, gap, ho, he⟩ <;> rw [he] at hout
  · unfold Statement.effect at hout
    split at hout
    · cases hout
    · rename_i f hf
      cases hout
      rcases Statement.eval_fault hf with hsem | ⟨o, gap, ho, hgap⟩
      · exact ⟨f, rfl, Or.inl hsem⟩
      · exact ⟨f, rfl, Or.inr ⟨o, _, gap, ho, hgap⟩⟩
  · cases hout
    exact ⟨_, rfl, Or.inr ⟨o, _, gap, ho, rfl⟩⟩

def inMode (s : Session) (mode : Mode) : Session := { s with mode }

/-- Both modes succeed on the same statements, with the same result and the same variables. On a
statement without holes that is not too deep they also fail alike, with a semantic fault. -/
theorem interpret_agrees_compile (s : Session) (st : Statement) :
    (∀ (r : Result) (vars : Variables),
      ((s.inMode .interpret).execute st).effect = (.ok r, vars)
        ↔ ((s.inMode .compile).execute st).effect = (.ok r, vars))
    ∧ (st.Whole → st.height ≤ s.limits.levels →
      ((s.inMode .interpret).execute st).outcome = ((s.inMode .compile).execute st).outcome
      ∧ ∀ failure, ((s.inMode .interpret).execute st).outcome = .error failure →
        ∃ f, failure = .fault f ∧ f.class? = some .semantic) := by
  refine ⟨fun r vars => ?_, fun hw hn => ?_⟩
  · rw [execute_ok_iff, execute_ok_iff]
    rfl
  · have hs : st.survey s.limits.levels = none := (st.survey_eq_none_iff _).mpr ⟨hw, hn⟩
    have hi : ((s.inMode .interpret).execute st).effect = st.effect s.vars s.limits.levels :=
      effect_interpret (s.inMode .interpret) st
    have hc : ((s.inMode .compile).execute st).effect = st.effect s.vars s.limits.levels :=
      effect_compile (s := s.inMode .compile) hs
    refine ⟨congrArg Prod.fst (hi.trans hc.symm), fun failure hf => ?_⟩
    obtain ⟨f, rfl, hsem | ⟨o, task, gap, ho, -⟩⟩ := execute_fault hf
    · exact ⟨f, rfl, hsem⟩
    · exact absurd (hs.symm.trans ho) (by simp)

/-- The code of an assignment to `x` stops at the undefined `y`, as the tree does. -/
theorem interpret_agrees_compile_undefined :
    let st : Statement := .assign "x" (.binary .div (.name "y") (.name "x"))
    st.Whole ∧ st.height ≤ ({} : Session).limits.levels
      ∧ ((({} : Session).inMode .compile).execute st).outcome
        = .error (.fault (.undefinedVariable "y")) := by
  intro st
  have hw : st.Whole := ⟨trivial, trivial⟩
  have hn : st.height ≤ ({} : Session).limits.levels := by decide
  obtain ⟨hsame, -⟩ := (interpret_agrees_compile {} st).2 hw hn
  exact ⟨hw, hn, hsame.symm⟩

end Session

end Reckoner

import Reckoner.Proofs.History
import Reckoner.Proofs.Watching

/-!
# Lines that do not touch each other's names

A statement reads the names that stand in its tree as values. The name of a function that is called
is not among them: functions and variables are looked up apart. Variables that agree on what a
line reads give it the same outcome (`outcome_run_congr`), be it a result or a failure, and a line
changes no name but the one it assigns (`get?_run_of_ne`). So of two lines, neither of which assigns
what the other reads or assigns, it does not matter which is run first.
-/

namespace Reckoner

namespace Expr

/-- The names that stand for values in the tree. -/
def reads : Expr → List String
  | number _ => []
  | name n => [n]
  | unary _ e => e.reads
  | binary _ l r => l.reads ++ r.reads
  | call _ e => e.reads
  | hole => []

theorem eval_congr {vars vars' : Variables} :
    ∀ {n : Nat} {e : Expr}, (∀ x ∈ e.reads, vars.get? x = vars'.get? x) →
      e.eval vars n = e.eval vars' n
  | 0, _, _ => rfl
  | _ + 1, number _, _ => rfl
  | _ + 1, name x, h => by simp only [eval, h x (by simp [reads])]
  | n + 1, unary op e, h => by simp only [eval, eval_congr (n := n) (e := e) h]
  | n + 1, binary op l r, h => by
    simp only [reads, List.mem_append] at h
    have hl := eval_congr (n := n) (e := l) fun x hx => h x (Or.inl hx)
    have hr := eval_congr (n := n) (e := r) fun x hx => h x (Or.inr hx)
    simp only [eval, hl, hr]
  | n + 1, call f e, h => by simp only [eval, eval_congr (n := n) (e := e) h]
  | _ + 1, hole, _ => rfl

end Expr

namespace Statement

def reads : Statement → List String
  | assign _ e | expression e => e.reads
  | hole => []

def target? : Statement → Option String
  | assign n _ => some n
  | _ => none

theorem effect_congr {vars vars' : Variables} {n : Nat} {st : Statement}
    (h : ∀ x ∈ st.reads, vars.get? x = vars'.get? x) :
    (st.effect vars n).1 = (st.effect vars' n).1 := by
  unfold effect
  cases st with
  | assign x e =>
    simp only [eval, Expr.eval_congr (n := n) h]
    rcases e.eval vars' n with f | v <;> rfl
  | expression e =>
    simp only [eval, Expr.eval_congr (n := n) h]
    rcases e.eval vars' n with f | v <;> rfl
  | hole => rfl

theorem name_of_eval {vars vars' : Variables} {n : Nat} {st : Statement} {r : Result}
    (h : st.eval vars n = .ok (r, vars')) : r.name = st.target? := by
  cases st with
  | assign x e =>
    obtain ⟨v, -, h⟩ := bind_eq_ok_iff.mp h
    cases h
    rfl
  | expression e =>
    obtain ⟨v, -, h⟩ := bind_eq_ok_iff.mp h
    cases h
    rfl
  | hole => cases h

end Statement

namespace Session

/-- The names that a line reads; a line that makes no statement reads none. -/
def reads (s : Session) (line : String) : List String :=
  (s.statement? line).elim [] Statement.reads

def target? (s : Session) (line : String) : Option String :=
  (s.statement? line).bind Statement.target?

/-- The name that either line assigns is neither read nor assigned by the other. -/
def Independent (s : Session) (a b : String) : Prop :=
  (∀ x ∈ s.target? a, x ∉ s.reads b ∧ s.target? b ≠ some x)
    ∧ ∀ x ∈ s.target? b, x ∉ s.reads a ∧ s.target? a ≠ some x

instance (s : Session) (a b : String) : Decidable (s.Independent a b) :=
  inferInstanceAs (Decidable (_ ∧ _))

def withVars (s : Session) (vars : Variables) : Session := { s with vars }

/-- The variables matter to the outcome of a line only by what it reads. -/
theorem outcome_run_congr {s : Session} {vars : Variables} {line : String}
    (h : ∀ x ∈ s.reads line, vars.get? x = s.vars.get? x) :
    ((s.withVars vars).run line).outcome = (s.run line).outcome := by
  show ((s.withVars vars).run line).effect.1 = (s.run line).effect.1
  rcases reading_cases s.limits line with ⟨failure, hread⟩ | ⟨st, hw, hread⟩
  · rw [(hread (s.withVars vars) rfl).2, (hread s rfl).2]
  · have hst : ∀ x ∈ st.reads, vars.get? x = s.vars.get? x := by
      simpa only [reads, (hread s rfl).1, Option.elim_some] using h
    rw [(hread (s.withVars vars) rfl).2, (hread s rfl).2]
    simp only [effect_showAndExecute hw, effect_execute_of_whole hw, withVars]
    split
    · rfl
    · split
      · rfl
      · exact Statement.effect_congr hst

theorem name_of_run {s : Session} {line : String} {r : Result}
    (h : (s.run line).outcome = .ok r) : r.name = s.target? line := by
  have heffect : (s.run line).effect = (.ok r, (s.run line).vars) := Prod.ext h rfl
  rcases reading_cases s.limits line with ⟨failure, hread⟩ | ⟨st, hw, hread⟩
  · rw [(hread s rfl).2] at heffect
    cases heffect
  · rw [target?, (hread s rfl).1, Option.bind_some]
    rw [(hread s rfl).2, effect_showAndExecute hw] at heffect
    split at heffect
    · cases heffect
    · exact Statement.name_of_eval (execute_ok_iff.mp heffect)

theorem get?_run (s : Session) (line n : String) :
    (s.run line).vars.get? n = match (s.run line).outcome with
      | .ok r => if s.target? line = some n then some r.value else s.vars.get? n
      | .error _ => s.vars.get? n := by
  have hsettled : (s.run line).vars = _ := s.run_settled line
  rw [hsettled]
  rcases h : (s.run line).outcome with failure | r
  · rfl
  · rw [← name_of_run h]
    exact Variables.get?_after s.vars r n

theorem get?_run_of_ne {s : Session} {line n : String} (h : s.target? line ≠ some n) :
    (s.run line).vars.get? n = s.vars.get? n := by
  rw [get?_run]
  split
  · rw [if_neg h]
  · rfl

theorem outcome_run_after {s : Session} {a b : String} (h : ∀ x ∈ s.target? a, x ∉ s.reads b) :
    ((s.next (s.run a)).run b).outcome = (s.run b).outcome :=
  outcome_run_congr fun x hx => get?_run_of_ne fun ht => h x ht hx

theorem get?_run_swap {s : Session} {a b n : String} (h : ∀ x ∈ s.target? a, x ∉ s.reads b)
    (hn : s.target? a ≠ some n) :
    ((s.next (s.run a)).run b).vars.get? n = ((s.next (s.run b)).run a).vars.get? n := by
  -- on a name that `a` does not assign, both orders come to what `b` alone makes of it
  have hbefore : (s.next (s.run a)).vars.get? n = s.vars.get? n := get?_run_of_ne hn
  have hafter : ((s.next (s.run b)).run a).vars.get? n = (s.run b).vars.get? n :=
    get?_run_of_ne hn
  rw [hafter, get?_run, get?_run s b, outcome_run_after h, hbefore]
  rfl

/-- Lines that touch none of each other's names have the same outcomes and leave the same variables
in either order. A name that a line does not read may have any value, also one that the line calls:
variables have a say in a call by way of its argument only, on the tree and on the machine. -/
theorem independent_lines_commute (s : Session) :
    (∀ a b, s.Independent a b →
      ((s.next (s.run a)).run b).outcome = (s.run b).outcome
      ∧ ((s.next (s.run b)).run a).outcome = (s.run a).outcome
      ∧ ∀ n, ((s.next (s.run a)).run b).vars.get? n = ((s.next (s.run b)).run a).vars.get? n)
    ∧ (∀ (line f : String) (v : Double), f ∉ s.reads line →
      ((s.withVars (s.vars.set f v)).run line).outcome = (s.run line).outcome)
    ∧ (∀ (f : String) (e : Expr) (n : Nat) (vars vars' : Variables),
      e.eval vars n = e.eval vars' n →
      (Expr.call f e).eval vars (n + 1) = (Expr.call f e).eval vars' (n + 1))
    ∧ ∀ (i : Nat) (f : String) (x : Double) (stack : List Double) (vars vars' : Variables),
      (Machine.step i (.call f) ⟨x :: stack, vars⟩).map Machine.State.stack
        = (Machine.step i (.call f) ⟨x :: stack, vars'⟩).map Machine.State.stack := by
  refine ⟨fun a b ⟨hab, hba⟩ => ⟨outcome_run_after fun x hx => (hab x hx).1,
    outcome_run_after fun x hx => (hba x hx).1, fun n => ?_⟩, fun line f v hf => ?_,
    fun f e n vars vars' he => ?_, fun i f x stack vars vars' => ?_⟩
  · by_cases hn : s.target? a = some n
    · exact (get?_run_swap (fun x hx => (hba x hx).1) (hab n hn).2).symm
    · exact get?_run_swap (fun x hx => (hab x hx).1) hn
  · refine outcome_run_congr fun x hx => Variables.get?_set_of_ne s.vars v ?_
    rintro rfl
    exact hf hx
  · simp only [Expr.eval, he]
  · simp only [Machine.step]
    rcases callFunction f x with fault | y <;> rfl

/-- A variable by the name of a function, and a line that calls the function. -/
theorem independent_lines_commute_function :
    let s : Session := { mode := .compile }
    let called := "x = sqrt(16)"
    s.Independent "sqrt = 9" called ∧ "sqrt" ∉ s.reads called
      ∧ ((s.next (s.run "sqrt = 9")).run called).outcome = (s.run called).outcome
      ∧ (s.run called).outcome = .ok ⟨some "x", .ofNat 4⟩ := by
  intro s called
  have h : s.Independent "sqrt = 9" called := by decide +kernel
  obtain ⟨hcommute, -⟩ := independent_lines_commute s
  exact ⟨h, by decide +kernel, (hcommute _ _ h).1, by decide +kernel⟩

end Session

end Reckoner

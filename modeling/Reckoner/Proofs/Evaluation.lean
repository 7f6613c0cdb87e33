import Reckoner.Expr.Eval
import Reckoner.Proofs.Failures

/-!
# Trees that can be walked through, and the faults of working them out

A walk goes through a tree exactly if the tree has no holes and no more levels than the walk may go
down (`survey_eq_none_iff`). Whatever has a value can be walked through (`survey_of_eval`), and
what has none fails either in an operation, which gives a semantic fault, or at the obstacle of a
walk (`eval_fault`).
-/

namespace Reckoner

namespace Expr

/-- The tree has no holes. -/
def Whole : Expr → Prop
  | number _ => True
  | name _ => True
  | unary _ e => e.Whole
  | binary _ l r => l.Whole ∧ r.Whole
  | call _ e => e.Whole
  | hole => False

/-- The number of levels of the tree. -/
def height : Expr → Nat
  | number _ => 1
  | name _ => 1
  | unary _ e => e.height + 1
  | binary _ l r => max l.height r.height + 1
  | call _ e => e.height + 1
  | hole => 1

theorem height_pos : ∀ e : Expr, 0 < e.height
  | number _ | name _ | hole => Nat.one_pos
  | unary _ _ | binary _ _ _ | call _ _ => Nat.succ_pos _

theorem survey_eq_none_iff : ∀ (n : Nat) (e : Expr), e.survey n = none ↔ e.Whole ∧ e.height ≤ n
  | 0, e => by
    have := e.height_pos
    simp only [survey, reduceCtorEq, false_iff]
    omega
  | _ + 1, number _ => by simp [survey, Whole, height]
  | _ + 1, name _ => by simp [survey, Whole, height]
  | n + 1, unary _ e => by
    have ih := survey_eq_none_iff n e
    simp only [survey, Whole, height, ih, Nat.add_le_add_iff_right]
  | n + 1, binary _ l r => by
    have ihl := survey_eq_none_iff n l
    have ihr := survey_eq_none_iff n r
    simp only [survey, Whole, height, Option.or_eq_none_iff, ihl, ihr, Nat.add_le_add_iff_right,
      Nat.max_le]
    exact and_and_and_comm
  | n + 1, call _ e => by
    have ih := survey_eq_none_iff n e
    simp only [survey, Whole, height, ih, Nat.add_le_add_iff_right]
  | _ + 1, hole => by simp [survey, Whole]

theorem survey_of_whole {n : Nat} {e : Expr} {o : Obstacle} (hw : e.Whole)
    (h : e.survey n = some o) : o = .tooDeep := by
  induction e generalizing n with
  | number | name => cases n <;> simp_all [survey]
  | unary _ e ih =>
    cases n with
    | zero => simpa [survey] using h.symm
    | succ n => exact ih hw h
  | binary _ l r ihl ihr =>
    cases n with
    | zero => simpa [survey] using h.symm
    | succ n =>
      rcases Option.or_eq_some_iff.mp h with hl | ⟨-, hr⟩
      · exact ihl hw.1 hl
      · exact ihr hw.2 hr
  | call _ e ih =>
    cases n with
    | zero => simpa [survey] using h.symm
    | succ n => exact ih hw h
  | hole => exact hw.elim

theorem survey_of_eval {vars : Variables} :
    ∀ {n : Nat} {e : Expr} {v : Double}, e.eval vars n = .ok v → e.survey n = none
  | 0, _, _, h => by simp [eval] at h
  | _ + 1, number _, _, _ => rfl
  | _ + 1, name _, _, _ => rfl
  | n + 1, unary op e, v, h => by
    obtain ⟨x, he, -⟩ := bind_eq_ok_iff.mp h
    rw [survey]
    exact survey_of_eval he
  | n + 1, binary op l r, v, h => by
    obtain ⟨x, hl, h⟩ := bind_eq_ok_iff.mp h
    obtain ⟨y, hr, -⟩ := bind_eq_ok_iff.mp h
    rw [survey, survey_of_eval hl, survey_of_eval hr, Option.none_or]
  | n + 1, call g e, v, h => by
    obtain ⟨x, he, -⟩ := bind_eq_ok_iff.mp h
    rw [survey]
    exact survey_of_eval he
  | _ + 1, hole, _, h => by simp [eval] at h

/-- An expression without a value fails in an operation, or at the first obstacle of a walk: the
walk goes the same way, so whatever stands before the obstacle has a value. -/
theorem eval_fault {vars : Variables} :
    ∀ {n : Nat} {e : Expr} {f : Fault}, e.eval vars n = .error f →
      f.class? = some .semantic ∨ ∃ o, e.survey n = some o ∧ f = o.fault "evaluate" .expression
  | 0, _, f, h => by
    simp only [eval, Except.error.injEq] at h
    exact Or.inr ⟨.tooDeep, rfl, h.symm⟩
  | _ + 1, number _, f, h => by simp [eval] at h
  | _ + 1, name x, f, h => by
    simp only [eval] at h
    split at h
    · cases h
    · cases h
      exact Or.inl rfl
  | n + 1, unary op e, f, h => by
    rw [survey]
    rcases bind_eq_error_iff.mp h with he | ⟨x, -, h⟩
    · exact eval_fault he
    · exact Or.inl (UnaryOp.apply_fault h)
  | n + 1, binary op l r, f, h => by
    rcases bind_eq_error_iff.mp h with hl | ⟨x, hl, h⟩
    · rcases eval_fault hl with hs | ⟨o, ho, hf⟩
      · exact Or.inl hs
      · exact Or.inr ⟨o, by rw [survey, ho, Option.some_or], hf⟩
    · rcases bind_eq_error_iff.mp h with hr | ⟨y, -, h⟩
      · rcases eval_fault hr with hs | ⟨o, ho, hf⟩
        · exact Or.inl hs
        · exact Or.inr ⟨o, by rw [survey, survey_of_eval hl, ho, Option.none_or], hf⟩
      · exact Or.inl (BinaryOp.apply_fault h)
  | n + 1, call g e, f, h => by
    rw [survey]
    rcases bind_eq_error_iff.mp h with he | ⟨x, -, h⟩
    · exact eval_fault he
    · exact Or.inl (callFunction_fault h)
  | _ + 1, hole, f, h => by
    simp only [eval, Except.error.injEq] at h
    exact Or.inr ⟨.hole, rfl, h.symm⟩

end Expr

/-- The variables after a statement with the given result. -/
def Variables.after (vars : Variables) (r : Result) : Variables :=
  match r.name with
  | some n => vars.set n r.value
  | none => vars

namespace Statement

/-- The statement is there, and its tree has no holes. -/
def Whole : Statement → Prop
  | assign _ e | expression e => e.Whole
  | hole => False

def height : Statement → Nat
  | assign _ e | expression e => e.height
  | hole => 0

def survey (n : Nat) : Statement → Option Obstacle
  | assign _ e | expression e => e.survey n
  | hole => some .hole

theorem survey_eq_none_iff (n : Nat) (st : Statement) :
    st.survey n = none ↔ st.Whole ∧ st.height ≤ n := by
  cases st with
  | assign _ e => exact e.survey_eq_none_iff n
  | expression e => exact e.survey_eq_none_iff n
  | hole => simp [survey, Whole]

theorem survey_of_whole {n : Nat} {st : Statement} {o : Obstacle} (hw : st.Whole)
    (h : st.survey n = some o) : o = .tooDeep := by
  cases st with
  | assign _ e => exact Expr.survey_of_whole hw h
  | expression e => exact Expr.survey_of_whole hw h
  | hole => exact hw.elim

theorem render_eq (n : Nat) (st : Statement) :
    ∃ gap, st.render n = match st.survey n with
      | none => .ok st.text
      | some o => .error (o.fault "render" gap) := by
  refine ⟨.tree, ?_⟩
  cases st with
  | assign x e =>
    simp only [render, Expr.walk, survey]
    rcases e.survey n with _ | o <;> rfl
  | expression e =>
    simp only [render, Expr.walk, survey]
    rcases e.survey n with _ | o <;> rfl
  | hole => rfl

/-- A statement that succeeds can be walked through, and its result says how the variables
change. -/
theorem eval_ok {vars vars' : Variables} {n : Nat} {st : Statement} {r : Result}
    (h : st.eval vars n = .ok (r, vars')) : st.survey n = none ∧ vars' = vars.after r := by
  cases st with
  | assign x e =>
    obtain ⟨v, he, h⟩ := bind_eq_ok_iff.mp h
    cases h
    exact ⟨Expr.survey_of_eval he, rfl⟩
  | expression e =>
    obtain ⟨v, he, h⟩ := bind_eq_ok_iff.mp h
    cases h
    exact ⟨Expr.survey_of_eval he, rfl⟩
  | hole => simp [eval] at h

theorem eval_fault {vars : Variables} {n : Nat} {st : Statement} {f : Fault}
    (h : st.eval vars n = .error f) :
    f.class? = some .semantic ∨ ∃ o gap, st.survey n = some o ∧ f = o.fault "evaluate" gap := by
  have of_expr : ∀ e : Expr, st.survey n = e.survey n → e.eval vars n = .error f →
      f.class? = some .semantic ∨ ∃ o gap, st.survey n = some o ∧ f = o.fault "evaluate" gap := by
    intro e hs he
    rcases Expr.eval_fault he with hf | ⟨o, ho, hf⟩
    · exact Or.inl hf
    · exact Or.inr ⟨o, .expression, hs.trans ho, hf⟩
  cases st with
  | assign x e =>
    rcases bind_eq_error_iff.mp h with he | ⟨v, -, h⟩
    · exact of_expr e rfl he
    · cases h
  | expression e =>
    rcases bind_eq_error_iff.mp h with he | ⟨v, -, h⟩
    · exact of_expr e rfl he
    · cases h
  | hole =>
    simp only [eval, Except.error.injEq] at h
    exact Or.inr ⟨.hole, .statement, rfl, h.symm⟩

end Statement

end Reckoner

import Reckoner.Code.Compile
import Reckoner.Code.Machine
import Reckoner.Proofs.Evaluation

/-!
# What the machine makes of compiled code

The code of an expression, run on any stack, leaves behind what the expression comes to on its tree:
its value on top of that stack, or its fault at one of the code's own instructions
(`delivers_code`). It neither takes from the stack below nor sets a variable.
-/

namespace Reckoner

namespace Machine

theorem runFrom_append (d : Code) :
    ∀ (c : Code) (i : Nat) (s : State),
      runFrom i (c ++ d) s = runFrom i c s >>= runFrom (i + c.length) d
  | [], i, s => rfl
  | ins :: c, i, s => by
    simp only [List.cons_append, runFrom]
    rcases step i ins s with f | next
    · rfl
    · simp only [List.length_cons]
      rw [runFrom_append d c (i + 1) next, Nat.add_right_comm, Nat.add_assoc]

theorem runFrom_concat (c : Code) (ins : Instruction) (i : Nat) (s : State) :
    runFrom i (c ++ [ins]) s = runFrom i c s >>= fun t =>
      (step (i + c.length) ins t).mapError fun f => ⟨i + c.length, f, t.vars⟩ := by
  rw [runFrom_append]
  congr 1
  funext t
  simp only [runFrom]
  rcases step (i + c.length) ins t with f | next <;> rfl

/-- From any stack the code leaves an outcome behind: a value on top of the stack, or a fault at one
of its own instructions. The stack below and the variables stay as they are. -/
def Delivers (code : Code) (vars : Variables) (outcome : Except Fault Double) : Prop :=
  ∀ (i : Nat) (stack : List Double),
    match outcome with
    | .ok v => runFrom i code ⟨stack, vars⟩ = .ok ⟨v :: stack, vars⟩
    | .error f => ∃ k < code.length, runFrom i code ⟨stack, vars⟩ = .error ⟨i + k, f, vars⟩

section Composition

variable {vars : Variables} {c d : Code} {a b : Except Fault Double}

/-- An outcome that is a fault stays one whatever code follows. -/
theorem Delivers.append_of_error {f : Fault} (h : Delivers c vars (.error f)) (d : Code) :
    Delivers (c ++ d) vars (.error f) := by
  intro i stack
  obtain ⟨k, hk, hr⟩ := h i stack
  refine ⟨k, by rw [List.length_append]; omega, ?_⟩
  rw [runFrom_append, hr, error_bind]

/-- An instruction that works on the top of the stack alone works on the outcome before it. -/
theorem Delivers.append_top {ins : Instruction} {g : Double → Except Fault Double}
    (hs : ∀ i x stack, step i ins ⟨x :: stack, vars⟩ = (g x).map fun y => ⟨y :: stack, vars⟩)
    (h : Delivers c vars a) : Delivers (c ++ [ins]) vars (a >>= g) := by
  rcases a with f | x
  · exact h.append_of_error [ins]
  · intro i stack
    rw [ok_bind, runFrom_concat, h i stack, ok_bind, hs]
    rcases g x with f | y
    · exact ⟨c.length, by simp, rfl⟩
    · rfl

/-- A binary instruction takes the outcome of the code right before it as its right operand. -/
theorem Delivers.append_binary (op : BinaryOp) (hl : Delivers c vars a) (hr : Delivers d vars b) :
    Delivers (c ++ d ++ [.binary op]) vars (do op.apply (← a) (← b)) := by
  rcases a with f | x
  · rw [List.append_assoc]
    exact hl.append_of_error (d ++ [.binary op])
  rcases b with f | y
  · intro i stack
    obtain ⟨k, hk, hf⟩ := hr (i + c.length) (x :: stack)
    refine ⟨c.length + k, by simp only [List.length_append]; omega, ?_⟩
    rw [runFrom_append, runFrom_append, hl i stack, ok_bind, hf, error_bind, Nat.add_assoc]
  · intro i stack
    rw [ok_bind, ok_bind, runFrom_concat, runFrom_append, hl i stack, ok_bind,
      hr _ (x :: stack), ok_bind]
    simp only [step]
    rcases op.apply x y with f | z
    · exact ⟨(c ++ d).length, by simp, rfl⟩
    · rfl

end Composition

end Machine

namespace Expr

open Machine

/-- The code of a tree that can be walked through delivers what the tree comes to. -/
theorem delivers_code (vars : Variables) :
    ∀ (n : Nat) (e : Expr), e.survey n = none → Delivers e.code vars (e.eval vars n)
  | 0, _, h => by simp [survey] at h
  | n + 1, number v, _ => fun i stack => rfl
  | n + 1, name x, _ => by
    intro i stack
    simp only [eval, code, runFrom, step]
    rcases vars.get? x with _ | v
    · exact ⟨0, by simp, rfl⟩
    · rfl
  | n + 1, unary op e, h => by
    have ih := delivers_code vars n e h
    exact ih.append_top (g := op.apply) fun _ _ _ => rfl
  | n + 1, binary op l r, h => by
    obtain ⟨hl, hr⟩ := Option.or_eq_none_iff.mp h
    exact (delivers_code vars n l hl).append_binary op (delivers_code vars n r hr)
  | n + 1, call g e, h => by
    have ih := delivers_code vars n e h
    exact ih.append_top (g := callFunction g) fun _ _ _ => rfl
  | n + 1, hole, h => by simp [survey] at h

end Expr

end Reckoner

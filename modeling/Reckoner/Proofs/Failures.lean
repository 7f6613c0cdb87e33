import Reckoner.Session.Failure

/-!
# Failures and their classes

Each failure of a line is about its characters, the order of its tokens, its values and names, or
the depth of its tree; only what is made by hand can fail in other ways. The operations on doubles
fail in semantic ways only.
-/

namespace Reckoner

section Steps

variable {ε α β : Type} {x : Except ε α} {f : α → Except ε β}

@[simp] theorem ok_bind (a : α) (f : α → Except ε β) : (Except.ok a >>= f) = f a := rfl

@[simp] theorem error_bind (e : ε) (f : α → Except ε β) :
    ((Except.error e : Except ε α) >>= f) = .error e := rfl

theorem bind_eq_ok_iff {b : β} : x >>= f = .ok b ↔ ∃ a, x = .ok a ∧ f a = .ok b := by
  rcases x with e | a <;> simp

theorem bind_eq_error_iff {e : ε} :
    x >>= f = .error e ↔ x = .error e ∨ ∃ a, x = .ok a ∧ f a = .error e := by
  rcases x with e' | a <;> simp

theorem map_eq_ok_iff {g : α → β} {b : β} : x.map g = .ok b ↔ ∃ a, x = .ok a ∧ g a = b := by
  rcases x with e | a <;> simp [Except.map]

end Steps

/-- What a failure is about: the characters of a line, the order of its tokens, its values and
names, the depth of its tree, or the calculator itself. -/
inductive FailureClass where
  | lexical
  | grammatical
  | semantic
  | depth
  | internal
deriving DecidableEq

/-- The class of a fault. Faults that only trees or code made by hand can have are in none. -/
def Fault.class? : Fault → Option FailureClass
  | undefinedVariable _ | unknownFunction _ | invalidFactorial _ | invalidExponent _ =>
    some .semantic
  | nestedTooDeeply _ => some .depth
  | stackUnderflow _ _ | missingResult _ => some .internal
  | missingNode _ | unknownOpcode _ => none

/-- The class of a failure. That a number cannot be read is in none: the number tokens of a line
carry their values. -/
def Failure.class? : Failure → Option FailureClass
  | scan _ => some .lexical
  | parse e =>
    match e.fault with
    | .unreadableNumber _ => none
    | _ => some .grammatical
  | fault f => f.class?

theorem Failure.class?_parse {e : ParseError} (h : ∀ lexeme, e.fault ≠ .unreadableNumber lexeme) :
    (Failure.parse e).class? = some .grammatical := by
  rcases hf : e.fault with _ | _ | _ | _ | _ | _ | lexeme
  case unreadableNumber => exact absurd hf (h lexeme)
  all_goals simp only [class?, hf]

theorem UnaryOp.apply_fault {op : UnaryOp} {x : Double} {f : Fault} (h : op.apply x = .error f) :
    f.class? = some .semantic := by
  cases op with
  | plus => simp [apply] at h
  | minus => simp [apply] at h
  | factorial =>
    simp only [apply] at h
    split at h
    · cases h
    · cases h
      rfl

theorem BinaryOp.apply_fault {op : BinaryOp} {x y : Double} {f : Fault}
    (h : op.apply x y = .error f) : f.class? = some .semantic := by
  cases op with
  | pow =>
    simp only [apply] at h
    split at h
    · cases h
    · cases h
      rfl
  | _ => simp [apply] at h

theorem callFunction_fault {name : String} {x : Double} {f : Fault}
    (h : callFunction name x = .error f) : f.class? = some .semantic := by
  unfold callFunction at h
  split at h
  · cases h
  · cases h
    rfl

end Reckoner

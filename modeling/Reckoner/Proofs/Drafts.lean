import Mathlib.Data.List.Basic
import Reckoner.Code.Draft

/-!
# Drafts that leave nothing out

A draft without gaps runs as the machine runs its code: it comes to the same instructions with the
same values, ends in the same fault or in none, and leaves the same values on the stack and in the
variables (`Draft.run_of_code?`). The two keep their variables in different orders, so these are
compared by what each name has.
-/

namespace Reckoner.Draft

theorem code?_cons_bare (b : Bare) (draft : Draft) : code? (.bare b :: draft) = none := by
  rw [code?, List.mapM_cons]
  rfl

theorem code?_cons_whole (i : Instruction) (draft : Draft) :
    code? (.whole i :: draft) = (code? draft).map (i :: ·) := by
  rw [code?, List.mapM_cons, code?]
  rcases List.mapM _ draft with _ | code <;> rfl

theorem code?_eq_some_iff {draft : Draft} {code : Code} :
    draft.code? = some code ↔ draft = code.map .whole := by
  induction draft generalizing code with
  | nil => cases code <;> simp [code?]
  | cons line rest ih =>
    cases line with
    | bare b => cases code <;> simp [code?_cons_bare]
    | whole i => cases code <;> simp [code?_cons_whole, ih, and_comm]

theorem listing_map_whole (code : Code) : listing (code.map .whole) = code.listing := by
  rw [listing, List.zipIdx_map, List.map_map]
  rfl

/-- Every name has the same value, and what has no name has none. -/
def SameVars (entries : List (Option String × Slot)) (vars : Variables) : Prop :=
  ∀ name, entries.lookup name = name.bind fun n => (vars.get? n).map some

/-- The same values on the stack and in the variables. -/
structure Agrees (d : State) (s : Machine.State) : Prop where
  stack : d.stack = s.stack.map some
  vars : SameVars d.vars s.vars

theorem agrees_start (vars : Variables) : Agrees (State.start vars) ⟨[], vars⟩ := by
  refine ⟨rfl, fun name => ?_⟩
  unfold State.start Variables.get?
  induction vars.entries with
  | nil => cases name <;> rfl
  | cons entry rest ih =>
    obtain ⟨key, value⟩ := entry
    simp only [List.map_cons, List.lookup_cons, ih]
    cases name with
    | none => rfl
    | some n =>
      by_cases hkey : n = key
      · simp [hkey]
      · simp [beq_false_of_ne hkey]

theorem lookup_filter_ne {name other : Option String} (h : other ≠ name) :
    ∀ entries : List (Option String × Slot),
      (entries.filter (·.1 ≠ name)).lookup other = entries.lookup other
  | [] => rfl
  | (key, slot) :: rest => by
    have ih := lookup_filter_ne h rest
    by_cases hkey : key = name
    · have hother : (other == key) = false := beq_false_of_ne (hkey ▸ h)
      rw [List.filter_cons_of_neg (by simpa using hkey), ih, List.lookup_cons, hother]
    · rw [List.filter_cons_of_pos (by simpa using hkey), List.lookup_cons, List.lookup_cons, ih]

variable {d : State} {s : Machine.State}

theorem Agrees.push (h : Agrees d s) (value : Double) :
    Agrees (d.push (some value)) (s.push value) :=
  ⟨by simp [State.push, Machine.State.push, h.stack], h.vars⟩

theorem Agrees.store (h : Agrees d s) (name : String) (value : Double) (rest : List Double) :
    Agrees (d.store (some name) (some value) (rest.map some)) ⟨rest, s.vars.set name value⟩ := by
  refine ⟨rfl, fun other => ?_⟩
  simp only [State.store, List.lookup_cons]
  by_cases hother : other = some name
  · simp [hother]
  · rw [beq_false_of_ne hother]
    simp only [lookup_filter_ne hother, h.vars other]
    cases other with
    | none => rfl
    | some n =>
      have hname : n ≠ name := fun hn => hother (congrArg some hn)
      simp [hname]

/-- A step of a draft that goes as one of the machine does. -/
def Follows : Except Problem State → Except Fault Machine.State → Prop
  | .ok d, .ok s => Agrees d s
  | .error problem, .error fault => problem = .fault fault
  | _, _ => False

theorem follows_lift (h : SameVars d.vars s.vars) (rest : List Double)
    (outcome : Except Fault Double) :
    Follows ((lift outcome).map fun slot => ⟨slot :: rest.map some, d.vars⟩)
      (outcome.map fun value => ⟨value :: rest, s.vars⟩) := by
  cases outcome with
  | ok value => exact ⟨rfl, h⟩
  | error fault => rfl

/-- Where nothing is left out, one step goes as the machine's does. -/
theorem follows_step (index : Nat) (i : Instruction) (h : Agrees d s) :
    Follows (step index (.whole i) d) (Machine.step index i s) := by
  obtain ⟨stack, vars⟩ := s
  obtain ⟨slots, entries⟩ := d
  obtain rfl : slots = stack.map some := h.stack
  cases i with
  | loadConst value => exact h.push value
  | loadLocal name =>
    have hlookup : entries.lookup (some name) = (vars.get? name).map some := h.vars (some name)
    simp only [step, Machine.step, State.load, hlookup]
    rcases vars.get? name with _ | value
    · rfl
    · exact h.push value
  | setLocal name =>
    cases stack with
    | nil => rfl
    | cons value rest => exact h.store name value rest
  | unary op remark =>
    cases stack with
    | nil => rfl
    | cons x rest => exact follows_lift h.vars rest (op.apply x)
  | binary op remark =>
    rcases stack with _ | ⟨y, _ | ⟨x, rest⟩⟩
    · rfl
    · rfl
    · exact follows_lift h.vars rest (op.apply x y)
  | call f =>
    cases stack with
    | nil => rfl
    | cons x rest => exact follows_lift h.vars rest (callFunction f x)
  | unknown opcode remark => rfl

/-- A run of a draft that ends as one of the machine does. -/
def Run.Ends (r : Run) : Except Machine.Halt Machine.State → Prop
  | .ok s => r.problem = none ∧ Agrees r.state s
  | .error halt => r.problem = some (.fault halt.fault) ∧ SameVars r.state.vars halt.vars

theorem runFrom_map_whole : ∀ (code : Code) (index : Nat) {d : State} {s : Machine.State},
    Agrees d s →
      (runFrom index (code.map .whole) d).visits
          = (Machine.visitsFrom index code s).map Machine.Visit.text
        ∧ (runFrom index (code.map .whole) d).Ends (Machine.runFrom index code s)
  | [], _, _, _, h => ⟨rfl, rfl, h⟩
  | i :: rest, index, d, s, h => by
    have hvisit : Machine.visitText index i.text (d.stack.map Slot.text)
        = Machine.Visit.text ⟨index, i, s.stack⟩ := by
      rw [h.stack, List.map_map]
      rfl
    have hstep := follows_step index i h
    simp only [List.map_cons, runFrom, Machine.visitsFrom, Machine.runFrom, DraftLine.text, hvisit]
    rcases hd : step index (.whole i) d with problem | d' <;>
      rcases hs : Machine.step index i s with fault | s' <;>
      rw [hd, hs] at hstep
    · exact ⟨rfl, congrArg some hstep, h.vars⟩
    · exact hstep.elim
    · exact hstep.elim
    · obtain ⟨hvisits, hends⟩ := runFrom_map_whole rest (index + 1) hstep
      exact ⟨congrArg _ hvisits, hends⟩

/-- A draft that leaves nothing out runs as its code does on the machine. -/
theorem run_of_code? {draft : Draft} {code : Code} (h : draft.code? = some code)
    (vars : Variables) :
    draft.listing = code.listing
    ∧ (draft.run vars).visits = (Machine.visits code vars).map Machine.Visit.text
    ∧ (draft.run vars).Ends (Machine.run code vars) := by
  obtain rfl := code?_eq_some_iff.1 h
  exact ⟨listing_map_whole code, runFrom_map_whole code 0 (agrees_start vars)⟩

end Reckoner.Draft

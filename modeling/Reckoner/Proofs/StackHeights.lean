import Reckoner.Proofs.CompiledCode

/-!
# Heights of the stack, told from the code alone

Each instruction needs some values on the stack and changes their number by a fixed amount. Counting
along the code gives the height at each index, and with it the first index that lacks values, before
anything is run.

While the machine runs, its stack is as high as the code says (`step_cases`, `runFrom_ok`). So it
underflows at the first index that lacks values or stops before it, and code without such an
index never underflows. Where the machine stops, the variables are those at the start changed by
what the instructions before were seen to set.
-/

namespace Reckoner

namespace Instruction

/-- How many values the instruction needs on the stack. -/
def needs : Instruction → Nat
  | loadConst _ | loadLocal _ | unknown _ _ => 0
  | setLocal _ | unary _ _ | call _ => 1
  | binary _ _ => 2

/-- The height of the stack after the instruction, from a height before it that is enough. -/
def leaves : Instruction → Nat → Nat
  | loadConst _, height | loadLocal _, height => height + 1
  | setLocal _, height | binary _ _, height => height - 1
  | unary _ _, height | call _, height | unknown _ _, height => height

def target? : Instruction → Option String
  | setLocal name => some name
  | _ => none

end Instruction

namespace Code

def heightFrom (height : Nat) (code : Code) : Nat := code.foldl (fun h i => i.leaves h) height

/-- Code that starts at the given height has an instruction at the index that needs more than the
height there. -/
def LacksAt (code : Code) (height index : Nat) : Prop :=
  ∃ i, code[index]? = some i ∧ heightFrom height (code.take index) < i.needs

/-- The first index that lacks values when the code starts on an empty stack. -/
def FirstLack (code : Code) (index : Nat) : Prop :=
  code.LacksAt 0 index ∧ ∀ k < index, ¬ code.LacksAt 0 k

theorem lacksNowhere_cons {i : Instruction} {code : Code} {height : Nat} :
    (∀ k, ¬ LacksAt (i :: code) height k)
      ↔ i.needs ≤ height ∧ ∀ k, ¬ LacksAt code (i.leaves height) k := by
  have hfirst : LacksAt (i :: code) height 0 ↔ height < i.needs := by simp [LacksAt, heightFrom]
  have hrest : ∀ k, LacksAt (i :: code) height (k + 1) ↔ LacksAt code (i.leaves height) k := by
    simp [LacksAt, heightFrom]
  constructor
  · intro h
    refine ⟨Nat.le_of_not_lt fun hlow => h 0 (hfirst.mpr hlow), fun k hk => ?_⟩
    exact h (k + 1) ((hrest k).mpr hk)
  · rintro ⟨hneeds, hlack⟩ (_ | k) hk
    · exact Nat.not_lt.mpr hneeds (hfirst.mp hk)
    · exact hlack k ((hrest k).mp hk)

theorem lacksAt_take {code : Code} {height j k : Nat} (h : j < k) :
    LacksAt (code.take k) height j ↔ LacksAt code height j := by
  simp only [LacksAt, List.getElem?_take_of_lt h, List.take_take, Nat.min_eq_left (Nat.le_of_lt h)]

end Code

def Variables.setAll (vars : Variables) (assignments : List (String × Double)) : Variables :=
  assignments.foldl (fun vs (name, value) => vs.set name value) vars

theorem Variables.setAll_append (vars : Variables) (earlier later : List (String × Double)) :
    vars.setAll (earlier ++ later) = (vars.setAll earlier).setAll later := List.foldl_append

namespace Machine

/-- The variable that a visit sets, with the value from the top of the stack it found. -/
def Visit.assignment? (v : Visit) : Option (String × Double) :=
  match v.instruction, v.stack with
  | .setLocal name, value :: _ => some (name, value)
  | _, _ => none

/-- An instruction underflows exactly if the stack is lower than it needs. Otherwise it fails in
another way, or it leaves the stack as high as it should and sets the variable it names. -/
theorem step_cases (index : Nat) (i : Instruction) (s : State) :
    (s.stack.length < i.needs ∧ step index i s = .error (.stackUnderflow index i.text))
    ∨ (i.needs ≤ s.stack.length ∧ ∃ f, step index i s = .error f ∧ f.class? ≠ some .internal)
    ∨ (i.needs ≤ s.stack.length ∧ ∃ t, step index i s = .ok t
        ∧ t.stack.length = i.leaves s.stack.length
        ∧ t.vars = s.vars.setAll (Visit.assignment? ⟨index, i, s.stack⟩).toList
        ∧ (Visit.assignment? ⟨index, i, s.stack⟩).map Prod.fst = i.target?) := by
  have semantic {f : Fault} (h : f.class? = some .semantic) : f.class? ≠ some .internal := by
    simp [h]
  rcases s with ⟨stack, vars⟩
  cases i with
  | loadConst v => exact Or.inr (Or.inr ⟨Nat.zero_le _, _, rfl, rfl, rfl, rfl⟩)
  | loadLocal x =>
    simp only [step]
    rcases vars.get? x with _ | v
    · exact Or.inr (Or.inl ⟨Nat.zero_le _, _, rfl, by simp [Fault.class?]⟩)
    · exact Or.inr (Or.inr ⟨Nat.zero_le _, _, rfl, rfl, rfl, rfl⟩)
  | setLocal x =>
    rcases stack with _ | ⟨v, stack⟩
    · exact Or.inl ⟨Nat.one_pos, rfl⟩
    · exact Or.inr (Or.inr ⟨Nat.succ_pos _, _, rfl, rfl, rfl, rfl⟩)
  | unary op remark =>
    rcases stack with _ | ⟨v, stack⟩
    · exact Or.inl ⟨Nat.one_pos, rfl⟩
    · simp only [step]
      rcases h : op.apply v with f | w
      · exact Or.inr (Or.inl ⟨Nat.succ_pos _, f, rfl, semantic (UnaryOp.apply_fault h)⟩)
      · exact Or.inr (Or.inr ⟨Nat.succ_pos _, _, rfl, rfl, rfl, rfl⟩)
  | binary op remark =>
    rcases stack with _ | ⟨v, _ | ⟨w, stack⟩⟩
    · exact Or.inl ⟨Nat.two_pos, rfl⟩
    · exact Or.inl ⟨Nat.one_lt_two, rfl⟩
    · have hneeds : 2 ≤ (v :: w :: stack).length := by simp
      simp only [step]
      rcases h : op.apply w v with f | x
      · exact Or.inr (Or.inl ⟨hneeds, f, rfl, semantic (BinaryOp.apply_fault h)⟩)
      · exact Or.inr (Or.inr ⟨hneeds, _, rfl, rfl, rfl, rfl⟩)
  | call g =>
    rcases stack with _ | ⟨v, stack⟩
    · exact Or.inl ⟨Nat.one_pos, rfl⟩
    · simp only [step]
      rcases h : callFunction g v with f | w
      · exact Or.inr (Or.inl ⟨Nat.succ_pos _, f, rfl, semantic (callFunction_fault h)⟩)
      · exact Or.inr (Or.inr ⟨Nat.succ_pos _, _, rfl, rfl, rfl, rfl⟩)
  | unknown opcode remark =>
    exact Or.inr (Or.inl ⟨Nat.zero_le _, _, rfl, by simp [Fault.class?]⟩)

/-- Code that runs to its end lacks values nowhere, and leaves the stack as high and sets the
variables as its instructions say. -/
theorem runFrom_ok :
    ∀ {code : Code} {index : Nat} {s t : State}, runFrom index code s = .ok t →
      (∀ k, ¬ code.LacksAt s.stack.length k)
      ∧ t.stack.length = Code.heightFrom s.stack.length code
      ∧ t.vars = s.vars.setAll ((visitsFrom index code s).filterMap Visit.assignment?)
      ∧ ((visitsFrom index code s).filterMap Visit.assignment?).map Prod.fst
        = code.filterMap Instruction.target?
  | [], index, s, t, h => by
    cases h
    exact ⟨fun k => by simp [Code.LacksAt], rfl, rfl, rfl⟩
  | i :: code, index, s, t, h => by
    rcases step_cases index i s with ⟨-, hs⟩ | ⟨-, f, hs, -⟩ | ⟨hneeds, u, hs, hlen, hvars, hname⟩
    · simp [runFrom, hs] at h
    · simp [runFrom, hs] at h
    · simp only [runFrom, hs] at h
      obtain ⟨hlack, hheight, hset, hnames⟩ := runFrom_ok h
      -- the rest counts on from the height that this instruction really leaves
      rw [hlen] at hlack hheight
      have hcons : (visitsFrom index (i :: code) s).filterMap Visit.assignment?
          = (Visit.assignment? ⟨index, i, s.stack⟩).toList
            ++ (visitsFrom (index + 1) code u).filterMap Visit.assignment? := by
        simp only [visitsFrom, hs, List.filterMap_cons]
        rcases Visit.assignment? ⟨index, i, s.stack⟩ with _ | a <;> rfl
      refine ⟨Code.lacksNowhere_cons.mpr ⟨hneeds, hlack⟩, hheight, ?_, ?_⟩
      · rw [hset, hvars, hcons, Variables.setAll_append]
      · rw [hcons, List.map_append, hnames, List.filterMap_cons, ← hname]
        rcases Visit.assignment? ⟨index, i, s.stack⟩ with _ | a <;> rfl

/-- The machine stops after a part of the code that runs to its end, at an instruction that fails
where this part leaves off. -/
theorem runFrom_halt :
    ∀ {code : Code} {index : Nat} {s : State} {halt : Halt},
      runFrom index code s = .error halt →
      ∃ k i t, halt.index = index + k ∧ code[k]? = some i
        ∧ runFrom index (code.take k) s = .ok t
        ∧ step (index + k) i t = .error halt.fault ∧ halt.vars = t.vars
  | [], index, s, halt, h => by cases h
  | i :: code, index, s, halt, h => by
    simp only [runFrom] at h
    rcases hs : step index i s with f | u <;> rw [hs] at h
    · cases h
      exact ⟨0, i, s, rfl, rfl, rfl, hs, rfl⟩
    · obtain ⟨k, j, t, hindex, hj, hrun, hstep, hvars⟩ := runFrom_halt h
      refine ⟨k + 1, j, t, by omega, hj, ?_, ?_, hvars⟩
      · simpa only [List.take_succ_cons, runFrom, hs] using hrun
      · rwa [Nat.add_right_comm] at hstep

theorem runFrom_take {code : Code} {index : Nat} {s t : State} (h : runFrom index code s = .ok t)
    (k : Nat) : ∃ u, runFrom index (code.take k) s = .ok u := by
  rw [← List.take_append_drop k code, runFrom_append] at h
  obtain ⟨u, hu, -⟩ := bind_eq_ok_iff.mp h
  exact ⟨u, hu⟩

theorem visitsFrom_take :
    ∀ (k : Nat) (code : Code) (index : Nat) (s : State),
      visitsFrom index (code.take k) s = (visitsFrom index code s).take k
  | 0, code, index, s => by simp [visitsFrom]
  | k + 1, [], index, s => rfl
  | k + 1, i :: code, index, s => by
    simp only [List.take_succ_cons, visitsFrom]
    rcases step index i s with f | u
    · simp
    · simp only [visitsFrom_take k code (index + 1) u]

/-- A visit has its instruction from the code and its stack from the run up to there. -/
theorem visitsFrom_getElem? :
    ∀ {k : Nat} {code : Code} {index : Nat} {s t : State} {i : Instruction},
      runFrom index (code.take k) s = .ok t → code[k]? = some i →
      (visitsFrom index code s)[k]? = some ⟨index + k, i, t.stack⟩
  | k, [], index, s, t, i, _, hi => by simp at hi
  | 0, j :: code, index, s, t, i, h, hi => by
    cases h
    cases hi
    simp [visitsFrom]
  | k + 1, j :: code, index, s, t, i, h, hi => by
    simp only [List.take_succ_cons, runFrom] at h
    rcases hs : step index j s with f | u <;> simp only [hs, reduceCtorEq] at h
    have ih := visitsFrom_getElem? h hi
    simp only [visitsFrom, hs, List.getElem?_cons_succ, ih]
    rw [Nat.add_right_comm, Nat.add_assoc]

section Stops

variable {code : Code} {vars : Variables} {halt : Halt}

/-- No index before the one where the machine stops lacks values, and the stop is an underflow
exactly if this one does. -/
theorem run_halt (h : run code vars = .error halt) :
    ∃ i, code[halt.index]? = some i ∧ (∀ k < halt.index, ¬ code.LacksAt 0 k)
      ∧ ((code.LacksAt 0 halt.index ∧ halt.fault = .stackUnderflow halt.index i.text)
        ∨ (¬ code.LacksAt 0 halt.index ∧ halt.fault.class? ≠ some .internal)) := by
  obtain ⟨k, i, t, hk, hi, hrun, hstep, -⟩ := runFrom_halt h
  obtain ⟨hlack, hheight, -⟩ := runFrom_ok hrun
  rw [Nat.zero_add] at hk hstep
  have hhere : code.LacksAt 0 k ↔ t.stack.length < i.needs := by
    rw [hheight]
    simp [Code.LacksAt, hi]
  rw [hk, hhere]
  refine ⟨i, hi, fun j hj hj' => hlack j ((Code.lacksAt_take hj).mpr hj'), ?_⟩
  rcases step_cases k i t with ⟨hlow, hs⟩ | ⟨hneeds, f, hs, hf⟩ | ⟨-, u, hs, -⟩ <;>
    simp only [hs, Except.error.injEq, reduceCtorEq] at hstep <;> rw [← hstep]
  · exact Or.inl ⟨hlow, rfl⟩
  · exact Or.inr ⟨by omega, hf⟩

theorem firstLack_of_underflow {index : Int} {text : String} (h : run code vars = .error halt)
    (hf : halt.fault = .stackUnderflow index text) :
    code.FirstLack halt.index ∧ index = halt.index
      ∧ ∃ i, code[halt.index]? = some i ∧ text = i.text := by
  obtain ⟨i, hi, hbefore, ⟨hlack, hf'⟩ | ⟨-, hf'⟩⟩ := run_halt h
  · rw [hf] at hf'
    cases hf'
    exact ⟨⟨hlack, hbefore⟩, rfl, i, hi, rfl⟩
  · simp [hf, Fault.class?] at hf'

theorem run_of_firstLack {k : Nat} (hk : code.FirstLack k) :
    ∃ halt, run code vars = .error halt ∧ halt.index ≤ k
      ∧ ((∃ index text, halt.fault = .stackUnderflow index text) ↔ halt.index = k) := by
  rcases h : run code vars with halt | final
  · obtain ⟨i, -, hbefore, hstop⟩ := run_halt h
    have hle : halt.index ≤ k := Nat.le_of_not_lt fun hlt => hbefore k hlt hk.1
    refine ⟨halt, rfl, hle, fun ⟨index, text, hf⟩ => ?_, fun heq => ?_⟩
    · -- the index of an underflow lacks values itself, so it is not before the first that does
      obtain ⟨hfirst, -⟩ := firstLack_of_underflow h hf
      exact Nat.le_antisymm hle (Nat.le_of_not_lt fun hlt => hk.2 _ hlt hfirst.1)
    · rcases hstop with ⟨-, hf⟩ | ⟨hlack, -⟩
      · exact ⟨_, _, hf⟩
      · exact absurd (heq ▸ hk.1) hlack
  · exact absurd hk.1 ((runFrom_ok h).1 k)

theorem vars_of_halt (h : run code vars = .error halt) :
    let assignments := ((visits code vars).take halt.index).filterMap Visit.assignment?
    halt.vars = vars.setAll assignments
      ∧ assignments.map Prod.fst = (code.take halt.index).filterMap Instruction.target?
      ∧ ∀ k i, k ≤ halt.index → code[k]? = some i →
        ∃ t, run (code.take k) vars = .ok t ∧ (visits code vars)[k]? = some ⟨k, i, t.stack⟩ := by
  obtain ⟨k, i, t, hk, -, hrun, -, hvars⟩ := runFrom_halt h
  obtain ⟨-, -, hset, hnames⟩ := runFrom_ok hrun
  rw [Nat.zero_add] at hk
  rw [visitsFrom_take, ← hk] at hset hnames
  rw [← hk] at hrun
  refine ⟨hvars.trans hset, hnames, fun j i hj hi => ?_⟩
  -- a part of a run to the end is a run to the end
  obtain ⟨u, hu⟩ := runFrom_take hrun j
  rw [List.take_take, Nat.min_eq_left hj] at hu
  have hvisit := visitsFrom_getElem? hu hi
  rw [Nat.zero_add] at hvisit
  exact ⟨u, hu, hvisit⟩

end Stops

/-- The machine underflows at the first index that lacks values or stops before it for another
reason, and it never underflows if there is no such index. At the end of its code it has nothing
to give exactly if the height is zero. Wherever it stops, it has set the variables that the
instructions before name, each to the value that was on top when the instruction was reached. -/
theorem underflow_at_first_lack (code : Code) (vars : Variables) :
    (∀ halt, run code vars = .error halt →
      ∀ index text, halt.fault = .stackUnderflow index text →
        code.FirstLack halt.index ∧ index = halt.index
        ∧ ∃ i, code[halt.index]? = some i ∧ text = i.text)
    ∧ (∀ k, code.FirstLack k → ∃ halt, run code vars = .error halt ∧ halt.index ≤ k
        ∧ ((∃ index text, halt.fault = .stackUnderflow index text) ↔ halt.index = k))
    ∧ ((∀ k, ¬ code.LacksAt 0 k) → ∀ halt, run code vars = .error halt →
        ∀ index text, halt.fault ≠ .stackUnderflow index text)
    ∧ (∀ final, run code vars = .ok final →
        (∀ k, ¬ code.LacksAt 0 k) ∧ (final.stack.head? = none ↔ Code.heightFrom 0 code = 0))
    ∧ ∀ halt, run code vars = .error halt →
      let assignments := ((visits code vars).take halt.index).filterMap Visit.assignment?
      halt.vars = vars.setAll assignments
      ∧ assignments.map Prod.fst = (code.take halt.index).filterMap Instruction.target?
      ∧ ∀ k i, k ≤ halt.index → code[k]? = some i →
        ∃ t, run (code.take k) vars = .ok t ∧ (visits code vars)[k]? = some ⟨k, i, t.stack⟩ := by
  refine ⟨fun halt h index text hf => firstLack_of_underflow h hf, fun k hk => run_of_firstLack hk,
    fun hnone halt h index text hf => ?_, fun final h => ?_, fun halt h => vars_of_halt h⟩
  · exact hnone _ (firstLack_of_underflow h hf).1.1
  · obtain ⟨hlack, hheight, -⟩ := runFrom_ok h
    refine ⟨hlack, ?_⟩
    rw [List.head?_eq_none_iff, ← List.length_eq_zero_iff, hheight]
    rfl

/-- A call that comes after a variable took the only value. -/
theorem underflow_at_first_lack_call :
    let code : Code := [.loadConst .one, .setLocal "x", .call "abs"]
    let halt : Halt := ⟨2, .stackUnderflow 2 "CALL abs", ⟨[("x", .one)]⟩⟩
    run code {} = .error halt ∧ code.FirstLack 2
      ∧ halt.vars = ({} : Variables).setAll [("x", .one)] := by
  intro code halt
  have hrun : run code {} = .error halt := rfl
  obtain ⟨hunderflow, -, -, -, hstop⟩ := underflow_at_first_lack code {}
  obtain ⟨hfirst, -⟩ := hunderflow halt hrun 2 "CALL abs" rfl
  exact ⟨hrun, hfirst, (hstop halt hrun).1⟩

end Machine

end Reckoner

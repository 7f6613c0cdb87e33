import Reckoner.Proofs.StackHeights

/-!
# Where the code of an expression fails

What a run does not need of the stack makes no difference to it, and neither does the index at which
it starts (`runFrom_over`). So the code of an expression works in place: from any stack it puts the
same values on top, or stops at the same instruction with the same fault.

The instructions are those of the nodes of the tree, operands before the node that takes them
(`map_some_code`). The code up to the instruction of a node ends with the code of the node's own
tree (`suffix_take_code`), so it runs to its end exactly if the node has a value, and the machine
stops at the first node that has none (`first_failure`).
-/

namespace Reckoner

namespace Machine

/-- The same state with more values at the bottom of its stack. -/
def State.over (s : State) (below : List Double) : State := ⟨s.stack ++ below, s.vars⟩

theorem step_over {ins : Instruction} {s : State} (h : ins.needs ≤ s.stack.length) (i j : Nat)
    (below : List Double) : step j ins (s.over below) = (step i ins s).map (·.over below) := by
  rcases s with ⟨stack, vars⟩
  cases ins with
  | loadConst v => rfl
  | loadLocal x =>
    simp only [step, State.over]
    rcases vars.get? x with _ | v <;> rfl
  | setLocal x =>
    rcases stack with _ | ⟨v, stack⟩
    · cases h
    · rfl
  | unary op remark =>
    rcases stack with _ | ⟨v, stack⟩
    · cases h
    · simp only [step, State.over, List.cons_append]
      rcases op.apply v with f | w <;> rfl
  | binary op remark =>
    rcases stack with _ | ⟨v, _ | ⟨w, stack⟩⟩
    · cases h
    · simp [Instruction.needs] at h
    · simp only [step, State.over, List.cons_append]
      rcases op.apply w v with f | x <;> rfl
  | call g =>
    rcases stack with _ | ⟨v, stack⟩
    · cases h
    · simp only [step, State.over, List.cons_append]
      rcases callFunction g v with f | w <;> rfl
  | unknown opcode remark => rfl

/-- A run that does not underflow goes the same way over any other values and from any index. -/
theorem runFrom_over (below : List Double) (j : Nat) :
    ∀ {code : Code} {i : Nat} {s : State},
      (∀ halt, runFrom i code s = .error halt → halt.fault.class? ≠ some .internal) →
      runFrom (j + i) code (s.over below)
        = ((runFrom i code s).map (·.over below)).mapError
          fun halt => ⟨j + halt.index, halt.fault, halt.vars⟩
  | [], i, s, _ => rfl
  | ins :: code, i, s, h => by
    rcases step_cases i ins s with ⟨-, hs⟩ | ⟨hneeds, f, hs, -⟩ | ⟨hneeds, t, hs, -⟩
    · exact absurd rfl (h ⟨i, .stackUnderflow i ins.text, s.vars⟩ (by simp only [runFrom, hs]))
    · have hover := step_over hneeds i (j + i) below
      rw [hs] at hover
      simp only [runFrom, hs, hover]
      rfl
    · have hover := step_over hneeds i (j + i) below
      rw [hs] at hover
      simp only [runFrom, hs] at h ⊢
      simp only [hover]
      exact runFrom_over below j h

theorem runFrom_ok_over {code : Code} {s t : State} (h : runFrom 0 code s = .ok t) (i : Nat)
    (below : List Double) : runFrom i code (s.over below) = .ok (t.over below) := by
  have hno : ∀ halt, runFrom 0 code s = .error halt → halt.fault.class? ≠ some .internal := by
    simp [h]
  have hover := runFrom_over below i hno
  rw [h] at hover
  exact hover

theorem runFrom_error_over {code : Code} {s : State} {halt : Halt}
    (h : runFrom 0 code s = .error halt) (hf : halt.fault.class? ≠ some .internal) (i : Nat)
    (below : List Double) :
    runFrom i code (s.over below) = .error ⟨i + halt.index, halt.fault, halt.vars⟩ := by
  have hno : ∀ halt', runFrom 0 code s = .error halt' → halt'.fault.class? ≠ some .internal := by
    intro halt' h'
    cases h.symm.trans h'
    exact hf
  have hover := runFrom_over below i hno
  rw [h] at hover
  exact hover

/-- Code that sets no variable leaves all of them as they are. -/
theorem vars_of_runFrom {code : Code} {i : Nat} {s t : State}
    (hc : code.filterMap Instruction.target? = []) (h : runFrom i code s = .ok t) :
    t.vars = s.vars := by
  obtain ⟨-, -, hvars, hnames⟩ := runFrom_ok h
  rw [hc, List.map_eq_nil_iff] at hnames
  rw [hvars, hnames]
  rfl

theorem target?_take {code : Code} (hc : code.filterMap Instruction.target? = []) (k : Nat) :
    (code.take k).filterMap Instruction.target? = [] := by
  refine List.sublist_nil.mp ?_
  rw [← hc]
  exact (List.take_sublist k code).filterMap _

/-- From any stack the code does the same: it puts values of its own on top of the stack, or stops
at the same place with the same fault. The stack below and the variables stay as they are. -/
def InPlace (code : Code) (vars : Variables) : Prop :=
  (∃ own : List Double, ∀ i stack,
    runFrom i code ⟨stack, vars⟩ = .ok ⟨own ++ stack, vars⟩)
  ∨ ∃ k f, k < code.length ∧ ∀ i stack,
    runFrom i code ⟨stack, vars⟩ = .error ⟨i + k, f, vars⟩

theorem inPlace_of_run {code : Code} {vars : Variables}
    (hc : code.filterMap Instruction.target? = [])
    (h : ∀ halt, runFrom 0 code ⟨[], vars⟩ = .error halt → halt.fault.class? ≠ some .internal) :
    InPlace code vars := by
  rcases hr : runFrom 0 code ⟨[], vars⟩ with halt | t
  · obtain ⟨k, ins, t, hk, hins, ht, -, hvars⟩ := runFrom_halt hr
    have htv : t.vars = vars := vars_of_runFrom (target?_take hc k) ht
    rw [Nat.zero_add] at hk
    refine Or.inr ⟨k, halt.fault, (List.getElem?_eq_some_iff.mp hins).1, fun i stack => ?_⟩
    have hover := runFrom_error_over hr (h halt hr) i stack
    rw [hvars, htv, hk] at hover
    exact hover
  · obtain ⟨own, vars'⟩ := t
    obtain rfl : vars' = vars := vars_of_runFrom hc hr
    exact Or.inl ⟨own, runFrom_ok_over hr⟩

end Machine

/-! ## Nodes in the order of the code -/

namespace Expr

/-- The nodes of the tree in the order in which they are worked out: the operands from left to
right, then the node that takes them. -/
def nodes : Expr → List Expr
  | number v => [number v]
  | name x => [name x]
  | unary op e => e.nodes ++ [unary op e]
  | binary op l r => l.nodes ++ r.nodes ++ [binary op l r]
  | call f e => e.nodes ++ [call f e]
  | hole => [hole]

/-- The instruction for a node whose operands are on the stack. -/
def instruction? : Expr → Option Instruction
  | number v => some (.loadConst v)
  | name x => some (.loadLocal x)
  | unary op _ => some (.unary op)
  | binary op _ _ => some (.binary op)
  | call f _ => some (.call f)
  | hole => none

theorem map_some_code : ∀ {e : Expr}, e.Whole → e.code.map some = e.nodes.map instruction?
  | number _, _ => rfl
  | name _, _ => rfl
  | unary op e, h => by
    have ih := map_some_code (e := e) h
    simp [code, nodes, ih, instruction?]
  | binary op l r, h => by
    have ihl := map_some_code (e := l) h.1
    have ihr := map_some_code (e := r) h.2
    simp [code, nodes, ihl, ihr, instruction?]
  | call f e, h => by
    have ih := map_some_code (e := e) h
    simp [code, nodes, ih, instruction?]

theorem length_code {e : Expr} (h : e.Whole) : e.code.length = e.nodes.length := by
  have hlength := congrArg List.length (map_some_code h)
  rwa [List.length_map, List.length_map] at hlength

theorem take_code {e : Expr} (h : e.Whole) (k : Nat) :
    e.code.take k = (e.nodes.take k).filterMap instruction? := by
  have htake := congrArg (fun l => (l.take k).filterMap id) (map_some_code h)
  simpa [← List.map_take, List.filterMap_map, Function.comp_def] using htake

theorem code_ne_nil {e : Expr} (h : e.Whole) : e.code ≠ [] := by
  cases e with
  | hole => exact h.elim
  | _ => simp [code]

theorem target?_code : ∀ e : Expr, e.code.filterMap Instruction.target? = []
  | number _ | name _ | hole => rfl
  | unary op e => by simp [code, target?_code e, Instruction.target?]
  | binary op l r => by simp [code, target?_code l, target?_code r, Instruction.target?]
  | call f e => by simp [code, target?_code e, Instruction.target?]

/-- Up to each node come the nodes of its own tree, and they come last. -/
def OperandsFirst (ns : List Expr) : Prop :=
  ∀ k m, ns[k]? = some m → m.nodes <:+ ns.take (k + 1)

namespace OperandsFirst

variable {ns ms : List Expr}

theorem append (hn : OperandsFirst ns) (hm : OperandsFirst ms) : OperandsFirst (ns ++ ms) := by
  intro k m hk
  rcases Nat.lt_or_ge k ns.length with hlt | hge
  · rw [List.getElem?_append_left hlt] at hk
    rw [List.take_append_of_le_length hlt]
    exact hn k m hk
  · rw [List.getElem?_append_right hge] at hk
    have htake : (ns ++ ms).take (k + 1) = ns ++ ms.take (k - ns.length + 1) := by
      rw [List.take_append, List.take_of_length_le (by omega), Nat.sub_add_comm hge]
    rw [htake]
    exact (hm _ m hk).trans (List.suffix_append _ _)

/-- A node may follow if what comes before it are the nodes of its operands. -/
theorem concat {e : Expr} (hn : OperandsFirst ns) (he : e.nodes = ns ++ [e]) :
    OperandsFirst e.nodes := by
  intro k m hk
  rw [he] at hk ⊢
  rcases Nat.lt_or_ge k ns.length with hlt | hge
  · rw [List.getElem?_append_left hlt] at hk
    rw [List.take_append_of_le_length hlt]
    exact hn k m hk
  · rw [List.getElem?_append_right hge, List.getElem?_singleton] at hk
    split at hk
    · cases hk
      have hall : (ns ++ [e]).take (k + 1) = ns ++ [e] := List.take_of_length_le (by simp; omega)
      exact ⟨[], he.trans hall.symm⟩
    · cases hk

end OperandsFirst

theorem operandsFirst_nodes : ∀ e : Expr, OperandsFirst e.nodes
  | number _ | name _ | hole => .concat (show OperandsFirst [] by simp [OperandsFirst]) rfl
  | unary _ e => .concat (operandsFirst_nodes e) rfl
  | binary _ l r => .concat ((operandsFirst_nodes l).append (operandsFirst_nodes r)) rfl
  | call _ e => .concat (operandsFirst_nodes e) rfl

theorem survey_of_mem_nodes {e m : Expr} {n : Nat} (he : e.survey n = none) (hm : m ∈ e.nodes) :
    m.survey n = none := by
  rw [survey_eq_none_iff] at he ⊢
  obtain ⟨hw, hh⟩ := he
  induction e with
  | number | name | hole =>
    obtain rfl := List.mem_singleton.mp hm
    exact ⟨hw, hh⟩
  | unary op e ih | call f e ih =>
    rcases List.mem_append.mp hm with hm | hm
    · exact ih hm hw (by rw [height] at hh; omega)
    · obtain rfl := List.mem_singleton.mp hm
      exact ⟨hw, hh⟩
  | binary op l r ihl ihr =>
    rcases List.mem_append.mp hm with hm | hm
    · rw [height] at hh
      rcases List.mem_append.mp hm with hm | hm
      · exact ihl hm hw.1 (by omega)
      · exact ihr hm hw.2 (by omega)
    · obtain rfl := List.mem_singleton.mp hm
      exact ⟨hw, hh⟩

/-- The code up to the instruction of a node ends with the code of the node. -/
theorem suffix_take_code {e m : Expr} {k : Nat} (h : e.Whole) (hk : e.nodes[k]? = some m)
    (hm : m.Whole) : m.code <:+ e.code.take (k + 1) := by
  have hcode : m.code = m.nodes.filterMap instruction? := by
    have hall := take_code hm m.code.length
    rwa [List.take_length, length_code hm, List.take_length] at hall
  rw [hcode, take_code h]
  exact (operandsFirst_nodes e k m hk).filterMap instruction?

open Machine

section Failure

variable {e : Expr} {n k : Nat} {vars : Variables}

/-- Code that has run up to a node, or past it, ran through the node's own code in place. So the
code up to the node and with it ends well if the node has a value, and else with its fault. -/
theorem runFrom_to_node {m : Expr} {j : Nat} {t : State} (hs : e.survey n = none)
    (ht : runFrom 0 (e.code.take k) ⟨[], vars⟩ = .ok t) (hj : j ≤ k)
    (hm : e.nodes[j]? = some m) :
    match m.eval vars n with
    | .ok _ => ∃ u, runFrom 0 (e.code.take (j + 1)) ⟨[], vars⟩ = .ok u
    | .error f => ∃ i, runFrom 0 (e.code.take (j + 1)) ⟨[], vars⟩ = .error ⟨i, f, vars⟩ := by
  have hms : m.survey n = none := survey_of_mem_nodes hs (List.mem_of_getElem? hm)
  obtain ⟨hw, -⟩ := (survey_eq_none_iff n e).mp hs
  obtain ⟨hmw, -⟩ := (survey_eq_none_iff n m).mp hms
  obtain ⟨front, hfront⟩ := suffix_take_code hw hm hmw
  -- what comes before the node's own code is a part of what has run
  have hlen : front.length ≤ k := by
    have hpos := List.length_pos_iff.mpr (code_ne_nil hmw)
    have hle : (e.code.take (j + 1)).length ≤ j + 1 := List.length_take_le _ _
    rw [← hfront, List.length_append] at hle
    omega
  have hpart : front = e.code.take front.length := by
    have hinitial : front <+: e.code.take (j + 1) := ⟨m.code, hfront⟩
    exact List.prefix_iff_eq_take.mp (hinitial.trans (List.take_prefix _ _))
  obtain ⟨u, hu⟩ := runFrom_take ht front.length
  rw [List.take_take, Nat.min_eq_left hlen] at hu
  have huv : u.vars = vars := vars_of_runFrom (target?_take (target?_code e) _) hu
  rw [← hpart] at hu
  obtain ⟨stack, vars'⟩ := u
  obtain rfl : vars' = vars := huv
  have hd := delivers_code vars' n m hms (0 + front.length) stack
  rw [← hfront, runFrom_append, hu, ok_bind]
  rcases he : m.eval vars' n with f | v <;> rw [he] at hd
  · obtain ⟨i, -, hi⟩ := hd
    exact ⟨_, hi⟩
  · exact ⟨_, hd⟩

/-- The machine stops at the first node that has no value, with its fault. -/
theorem first_failure {halt : Halt} (hs : e.survey n = none)
    (h : runFrom 0 e.code ⟨[], vars⟩ = .error halt) :
    (∃ m, e.nodes[halt.index]? = some m ∧ m.eval vars n = .error halt.fault)
    ∧ ∀ j < halt.index, ∀ m, e.nodes[j]? = some m → ∃ v, m.eval vars n = .ok v := by
  obtain ⟨k, ins, t, hk, hins, ht, hstep, -⟩ := runFrom_halt h
  rw [Nat.zero_add] at hk hstep
  rw [hk]
  obtain ⟨hw, -⟩ := (survey_eq_none_iff n e).mp hs
  obtain ⟨hlt, hget⟩ := List.getElem?_eq_some_iff.mp hins
  refine ⟨?_, fun j hj m hm => ?_⟩
  · obtain ⟨m, hm⟩ : ∃ m, e.nodes[k]? = some m := by
      rw [length_code hw] at hlt
      exact ⟨_, List.getElem?_eq_getElem hlt⟩
    have hto := runFrom_to_node hs ht (Nat.le_refl k) hm
    have hlen : (e.code.take k).length = k := List.length_take_of_le (Nat.le_of_lt hlt)
    rw [List.take_succ_eq_append_getElem hlt, hget, runFrom_concat, ht, ok_bind, Nat.zero_add, hlen,
      hstep] at hto
    rcases he : m.eval vars n with f | v <;> rw [he] at hto
    · obtain ⟨i, hi⟩ := hto
      cases hi
      exact ⟨m, hm, he⟩
    · obtain ⟨u, hu⟩ := hto
      cases hu
  · have hto := runFrom_to_node hs ht (Nat.le_of_lt hj) hm
    obtain ⟨u, hu⟩ := runFrom_take ht (j + 1)
    rw [List.take_take, Nat.min_eq_left hj] at hu
    rcases he : m.eval vars n with f | v <;> rw [he] at hto
    · obtain ⟨i, hi⟩ := hto
      rw [hu] at hi
      cases hi
    · exact ⟨v, rfl⟩

end Failure

/-- Where the code of a tree stops, it stops with the fault of the tree, which is a semantic one. -/
theorem fault_of_take {e : Expr} {n k : Nat} {vars : Variables} {halt : Halt}
    (hs : e.survey n = none) (h : runFrom 0 (e.code.take k) ⟨[], vars⟩ = .error halt) :
    e.eval vars n = .error halt.fault ∧ halt.fault.class? = some .semantic := by
  have hall : runFrom 0 e.code ⟨[], vars⟩ = .error halt := by
    rw [← List.take_append_drop k e.code, runFrom_append, h, error_bind]
  have hd := delivers_code vars n e hs 0 []
  rcases he : e.eval vars n with f | v <;> rw [he] at hd
  · obtain ⟨i, -, hi⟩ := hd
    cases hall.symm.trans hi
    rcases eval_fault he with hf | ⟨o, ho, -⟩
    · exact ⟨rfl, hf⟩
    · rw [hs] at ho
      cases ho
  · cases hall.symm.trans hd

theorem inPlace_take {e : Expr} {n : Nat} (hs : e.survey n = none) (vars : Variables) (k : Nat) :
    InPlace (e.code.take k) vars := by
  refine inPlace_of_run (target?_take (target?_code e) k) fun halt h => ?_
  simp [(fault_of_take hs h).2]

/-- The code of a tree without holes that is not too deep has one instruction for each node, in the
order in which nodes are worked out. It works in place up to each of its instructions, whatever
stack it starts on and whatever code follows. If the tree has a value, the code that follows goes on
with it on top of the stack; if not, the machine stops with the fault of the tree inside its code,
at the instruction of the first node that has no value. -/
theorem code_works_in_place {e : Expr} {levels : Nat} (hw : e.Whole) (hn : e.height ≤ levels)
    (vars : Variables) :
    ∃ code, e.compile levels = .ok code
      ∧ code.map some = e.nodes.map instruction?
      ∧ (∀ k, InPlace (code.take k) vars)
      ∧ (∀ v, e.eval vars levels = .ok v → ∀ i stack rest,
        runFrom i (code ++ rest) ⟨stack, vars⟩
          = runFrom (i + code.length) rest ⟨v :: stack, vars⟩)
      ∧ ∀ f, e.eval vars levels = .error f → ∃ k node, k < code.length
        ∧ e.nodes[k]? = some node ∧ node.eval vars levels = .error f
        ∧ (∀ j < k, ∀ m, e.nodes[j]? = some m → ∃ v, m.eval vars levels = .ok v)
        ∧ ∀ i stack rest, runFrom i (code ++ rest) ⟨stack, vars⟩ = .error ⟨i + k, f, vars⟩ := by
  have hs : e.survey levels = none := (survey_eq_none_iff levels e).mpr ⟨hw, hn⟩
  have hcompile : e.compile levels = .ok e.code := by
    rw [compile, walk, hs]
    rfl
  refine ⟨e.code, hcompile, map_some_code hw, inPlace_take hs vars, fun v hv i stack rest => ?_,
    fun f hf => ?_⟩
  · have hd := delivers_code vars levels e hs i stack
    rw [hv] at hd
    rw [runFrom_append, hd, ok_bind]
  · have hd := delivers_code vars levels e hs 0 []
    rw [hf] at hd
    obtain ⟨k, hk, hrun⟩ := hd
    rw [Nat.zero_add] at hrun
    obtain ⟨⟨node, hnode, hfault⟩, hbefore⟩ := first_failure hs hrun
    refine ⟨k, node, hk, hnode, hfault, hbefore, fun i stack rest => ?_⟩
    have hplace := runFrom_error_over hrun
      (by simp [(eval_fault hf).resolve_right (by simp [hs])]) i stack
    rw [runFrom_append]
    exact congrArg (· >>= runFrom (i + e.code.length) rest) hplace

/-- In `a - f(a) / c` the call comes before the undefined `c`, at the third instruction. -/
theorem code_works_in_place_unknown :
    let e : Expr := .binary .sub (.name "a") (.binary .div (.call "f" (.name "a")) (.name "c"))
    let vars : Variables := ⟨[("a", .one)]⟩
    e.Whole ∧ e.height ≤ 1000 ∧ e.eval vars 1000 = .error (.unknownFunction "f")
      ∧ runFrom 7 (e.code ++ [.setLocal "x"]) ⟨[.one], vars⟩
        = .error ⟨9, .unknownFunction "f", vars⟩ := by
  intro e vars
  have hw : e.Whole := ⟨trivial, trivial, trivial⟩
  have hn : e.height ≤ 1000 := by decide
  have hf : e.eval vars 1000 = .error (.unknownFunction "f") := rfl
  obtain ⟨code, hcode, -, -, -, hfail⟩ := code_works_in_place hw hn vars
  obtain rfl : e.code = code := Except.ok.inj hcode
  obtain ⟨k, node, -, hnode, hfault, hbefore, hrun⟩ := hfail _ hf
  obtain rfl : k = 2 := by
    rcases k with _ | _ | _ | k
    · cases hnode
      cases hfault
    · cases hnode
      cases hfault
    · rfl
    · obtain ⟨v, hv⟩ := hbefore 2 (by omega) _ rfl
      cases hv
  exact ⟨hw, hn, hf, hrun 7 [.one] [.setLocal "x"]⟩

end Expr

end Reckoner

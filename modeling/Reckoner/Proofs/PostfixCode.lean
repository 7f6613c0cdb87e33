import Reckoner.Proofs.StackHeights

/-!
# Code and trees determine each other

The code of an expression has a tree to each of its instructions: the one that the instruction ends.
Running code on a stack of trees in place of values builds these trees up again (`rebuild`). From
the code of an expression it gets the expression back (`rebuild_code`). On any other code it either
fails, or what it builds has that very code (`rebuild_sound`); and it fails only where the
instruction is not one of an expression or lacks operands. So the code of expressions is exactly
the code that lacks values nowhere and ends at height one, and no two expressions share it.
-/

namespace Reckoner

/-- An instruction that only works on values. It sets no variable, it is one that the machine has,
and it carries no remark. -/
def Instruction.Calculates : Instruction → Prop
  | loadConst _ | loadLocal _ | call _ => True
  | unary _ remark | binary _ remark => remark = none
  | setLocal _ | unknown _ _ => False

/-- The code lacks values nowhere, and leaves one behind. -/
def Code.WellStacked (code : Code) : Prop :=
  (∀ k, ¬ code.LacksAt 0 k) ∧ heightFrom 0 code = 1

/-- The code of the tree, however many levels that takes. -/
def Expr.CompilesTo (e : Expr) (code : Code) : Prop := ∃ levels, e.compile levels = .ok code

def Statement.CompilesTo (st : Statement) (code : Code) : Prop :=
  ∃ levels, st.compile levels = .ok code

/-- What an instruction makes of the trees on the stack, the top first. -/
def Instruction.rebuild : Instruction → List Expr → Option (List Expr)
  | loadConst value, trees => some (.number value :: trees)
  | loadLocal name, trees => some (.name name :: trees)
  | unary op none, e :: trees => some (.unary op e :: trees)
  | binary op none, r :: l :: trees => some (.binary op l r :: trees)
  | call f, e :: trees => some (.call f e :: trees)
  | _, _ => none

namespace Code

def rebuild : Code → List Expr → Option (List Expr)
  | [], trees => some trees
  | i :: code, trees => (i.rebuild trees).bind (rebuild code)

/-- The code that leaves the trees on the stack, the top first. -/
def ofTrees : List Expr → Code
  | [] => []
  | e :: below => ofTrees below ++ e.code

end Code

theorem Instruction.rebuild_cases (i : Instruction) (trees : List Expr) :
    ((¬ i.Calculates ∨ trees.length < i.needs) ∧ i.rebuild trees = none)
    ∨ (i.Calculates ∧ i.needs ≤ trees.length ∧ ∃ after, i.rebuild trees = some after
        ∧ after.length = i.leaves trees.length ∧ Code.ofTrees after = Code.ofTrees trees ++ [i]
        ∧ ((∀ e ∈ trees, e.Whole) → ∀ e ∈ after, e.Whole)) := by
  cases i with
  | loadConst v =>
    refine Or.inr ⟨trivial, Nat.zero_le _, _, rfl, rfl, rfl, fun h => ?_⟩
    simpa [Expr.Whole] using h
  | loadLocal x =>
    refine Or.inr ⟨trivial, Nat.zero_le _, _, rfl, rfl, rfl, fun h => ?_⟩
    simpa [Expr.Whole] using h
  | setLocal x => exact Or.inl ⟨Or.inl id, rfl⟩
  | unary op remark =>
    rcases remark with _ | remark
    · rcases trees with _ | ⟨e, trees⟩
      · exact Or.inl ⟨Or.inr Nat.one_pos, rfl⟩
      · refine Or.inr ⟨rfl, Nat.succ_pos _, _, rfl, rfl, by simp [Code.ofTrees, Expr.code],
          fun h => ?_⟩
        simpa [Expr.Whole] using h
    · exact Or.inl ⟨Or.inl (by simp [Calculates]), rfl⟩
  | binary op remark =>
    rcases remark with _ | remark
    · rcases trees with _ | ⟨r, _ | ⟨l, trees⟩⟩
      · exact Or.inl ⟨Or.inr Nat.two_pos, rfl⟩
      · exact Or.inl ⟨Or.inr Nat.one_lt_two, rfl⟩
      · refine Or.inr ⟨rfl, by simp [needs], _, rfl, rfl, by simp [Code.ofTrees, Expr.code],
          fun h => ?_⟩
        simp only [List.mem_cons, forall_eq_or_imp, Expr.Whole] at h ⊢
        exact ⟨⟨h.2.1, h.1⟩, h.2.2⟩
    · exact Or.inl ⟨Or.inl (by simp [Calculates]), rfl⟩
  | call f =>
    rcases trees with _ | ⟨e, trees⟩
    · exact Or.inl ⟨Or.inr Nat.one_pos, rfl⟩
    · refine Or.inr ⟨trivial, Nat.succ_pos _, _, rfl, rfl, by simp [Code.ofTrees, Expr.code],
        fun h => ?_⟩
      simpa [Expr.Whole] using h
  | unknown opcode remark => exact Or.inl ⟨Or.inl id, rfl⟩

namespace Code

/-- Trees that are built up have the code they were built from, on top of that of the trees below,
and the code only calculates and lacks nothing. -/
theorem rebuild_sound :
    ∀ {code : Code} {trees after : List Expr}, code.rebuild trees = some after →
      (∀ i ∈ code, i.Calculates) ∧ (∀ k, ¬ code.LacksAt trees.length k)
      ∧ after.length = heightFrom trees.length code
      ∧ ofTrees after = ofTrees trees ++ code
      ∧ ((∀ e ∈ trees, e.Whole) → ∀ e ∈ after, e.Whole)
  | [], trees, after, h => by
    cases h
    exact ⟨by simp, by simp [LacksAt], rfl, by simp, id⟩
  | i :: code, trees, after, h => by
    rcases i.rebuild_cases trees with ⟨-, hi⟩ | ⟨hcalc, hneeds, mid, hi, hlen, hcode, hwhole⟩
    · simp [rebuild, hi] at h
    simp only [rebuild, hi, Option.bind_some] at h
    obtain ⟨hcalcs, hlack, hheight, hafter, hwhole'⟩ := rebuild_sound h
    rw [hlen] at hlack hheight
    refine ⟨?_, lacksNowhere_cons.mpr ⟨hneeds, hlack⟩, hheight, ?_, hwhole' ∘ hwhole⟩
    · simpa using ⟨hcalc, hcalcs⟩
    · rw [hafter, hcode, List.append_assoc, List.singleton_append]

theorem exists_rebuild :
    ∀ {code : Code} {trees : List Expr}, (∀ i ∈ code, i.Calculates) →
      (∀ k, ¬ code.LacksAt trees.length k) → ∃ after, code.rebuild trees = some after
  | [], trees, _, _ => ⟨trees, rfl⟩
  | i :: code, trees, hcalc, hlack => by
    obtain ⟨hneeds, hrest⟩ := lacksNowhere_cons.mp hlack
    rcases i.rebuild_cases trees with ⟨hnot | hlow, -⟩ | ⟨-, -, mid, hi, hlen, -⟩
    · exact absurd (hcalc i (by simp)) hnot
    · omega
    · rw [← hlen] at hrest
      obtain ⟨after, hafter⟩ := exists_rebuild (fun j hj => hcalc j (by simp [hj])) hrest
      exact ⟨after, by rw [rebuild, hi, Option.bind_some, hafter]⟩

/-- The code of an expression puts the expression on the stack, whatever code follows. -/
theorem rebuild_code {e : Expr} (he : e.Whole) (rest : Code) (trees : List Expr) :
    rebuild (e.code ++ rest) trees = rebuild rest (e :: trees) := by
  induction e generalizing rest trees with
  | number | name => rfl
  | unary op e ih => simp only [Expr.code, List.append_assoc, ih he]; rfl
  | binary op l r ihl ihr => simp only [Expr.code, List.append_assoc, ihl he.1, ihr he.2]; rfl
  | call f e ih => simp only [Expr.code, List.append_assoc, ih he]; rfl
  | hole => exact he.elim

theorem rebuild_eq_singleton_iff {code : Code} {e : Expr} :
    code.rebuild [] = some [e] ↔ e.Whole ∧ e.code = code := by
  constructor
  · intro h
    obtain ⟨-, -, -, hcode, hwhole⟩ := rebuild_sound h
    exact ⟨hwhole (by simp) e (by simp), by simpa [ofTrees] using hcode⟩
  · rintro ⟨he, rfl⟩
    simpa [rebuild] using rebuild_code he [] []

theorem exists_expr_iff {code : Code} :
    (∃ e : Expr, e.Whole ∧ e.code = code) ↔ (∀ i ∈ code, i.Calculates) ∧ code.WellStacked := by
  constructor
  · rintro ⟨e, he⟩
    obtain ⟨hcalc, hlack, hheight, -⟩ := rebuild_sound (rebuild_eq_singleton_iff.mpr he)
    exact ⟨hcalc, hlack, hheight.symm⟩
  · rintro ⟨hcalc, hlack, hheight⟩
    obtain ⟨after, h⟩ : ∃ after, code.rebuild [] = some after := exists_rebuild hcalc hlack
    have hone : after.length = 1 := (rebuild_sound h).2.2.1.trans hheight
    obtain ⟨e, rfl⟩ := List.length_eq_one_iff.mp hone
    exact ⟨e, rebuild_eq_singleton_iff.mp h⟩

end Code

theorem Expr.compilesTo_iff {e : Expr} {code : Code} :
    e.CompilesTo code ↔ e.Whole ∧ e.code = code := by
  have hcompile : ∀ n, e.compile n = .ok code ↔ e.survey n = none ∧ e.code = code := by
    intro n
    unfold compile walk
    rcases e.survey n with _ | o <;> simp [Except.map]
  constructor
  · rintro ⟨n, h⟩
    obtain ⟨hs, hcode⟩ := (hcompile n).mp h
    exact ⟨((e.survey_eq_none_iff n).mp hs).1, hcode⟩
  · rintro ⟨hw, hcode⟩
    exact ⟨e.height, (hcompile _).mpr ⟨(e.survey_eq_none_iff _).mpr ⟨hw, Nat.le_refl _⟩, hcode⟩⟩

theorem Expr.compilesTo_unique {e e' : Expr} {code : Code} (h : e.CompilesTo code)
    (h' : e'.CompilesTo code) : e = e' := by
  have hr := Code.rebuild_eq_singleton_iff.mpr (compilesTo_iff.mp h)
  have hr' := Code.rebuild_eq_singleton_iff.mpr (compilesTo_iff.mp h')
  simpa using hr.symm.trans hr'

theorem Expr.exists_compilesTo_iff {code : Code} :
    (∃ e : Expr, e.CompilesTo code) ↔ (∀ i ∈ code, i.Calculates) ∧ code.WellStacked := by
  simp only [compilesTo_iff, Code.exists_expr_iff]

namespace Statement

theorem compilesTo_expression {e : Expr} {code : Code} :
    (expression e).CompilesTo code ↔ e.CompilesTo code := Iff.rfl

theorem compilesTo_assign {x : String} {e : Expr} {code : Code} :
    (assign x e).CompilesTo code ↔ ∃ p, e.CompilesTo p ∧ code = p ++ [.setLocal x] := by
  have hcompile : ∀ n, (assign x e).compile n = (e.compile n).map (· ++ [.setLocal x]) := by
    intro n
    simp only [compile, Expr.compile]
    rcases e.walk n "compile" .expression with f | _ <;> rfl
  simp only [CompilesTo, Expr.CompilesTo, hcompile, map_eq_ok_iff]
  constructor
  · rintro ⟨n, p, hp, rfl⟩
    exact ⟨p, ⟨n, hp⟩, rfl⟩
  · rintro ⟨p, ⟨n, hp⟩, rfl⟩
    exact ⟨n, p, hp, rfl⟩

theorem whole_iff_compilesTo : ∀ st : Statement, st.Whole ↔ ∃ code, st.CompilesTo code
  | assign x e => by
    simp only [compilesTo_assign, Expr.compilesTo_iff, Whole]
    constructor
    · intro he
      exact ⟨_, e.code, ⟨he, rfl⟩, rfl⟩
    · rintro ⟨_, _, ⟨he, -⟩, -⟩
      exact he
  | expression e => by simp [compilesTo_expression, Expr.compilesTo_iff, Whole]
  | hole => by simp [CompilesTo, compile, Whole]

/-- Only the code of an assignment sets a variable, and it does so last. -/
theorem not_compilesTo_assign {x : String} {e e' : Expr} {code : Code}
    (h : (assign x e).CompilesTo code) : ¬ (expression e').CompilesTo code := by
  intro h'
  obtain ⟨p, -, rfl⟩ := compilesTo_assign.mp h
  exact (Expr.exists_compilesTo_iff.mp ⟨e', h'⟩).1 (.setLocal x) (by simp)

theorem compilesTo_unique {code : Code} :
    ∀ {st st' : Statement}, st.CompilesTo code → st'.CompilesTo code → st = st'
  | assign x e, assign y e', h, h' => by
    -- the last instruction is the only one that tells where the code of the right side ends
    obtain ⟨p, hp, rfl⟩ := compilesTo_assign.mp h
    obtain ⟨q, hq, heq⟩ := compilesTo_assign.mp h'
    obtain ⟨rfl, hset⟩ := List.append_inj' heq rfl
    cases hset
    rw [Expr.compilesTo_unique hp hq]
  | expression e, expression e', h, h' => by
    rw [Expr.compilesTo_unique (compilesTo_expression.mp h) (compilesTo_expression.mp h')]
  | assign x e, expression e', h, h' => absurd h' (not_compilesTo_assign h)
  | expression e, assign x e', h, h' => absurd h (not_compilesTo_assign h')
  | hole, st, h, _ => ((whole_iff_compilesTo hole).mpr ⟨_, h⟩).elim
  | st, hole, _, h => ((whole_iff_compilesTo hole).mpr ⟨_, h⟩).elim

/-- Trees without holes have code, and different ones have different code. The code of expressions
is all code that calculates, lacks values nowhere and leaves one value, and the code of
assignments is such code with the variable set at the end. -/
theorem compile_bijective :
    (∀ st : Statement, st.Whole ↔ ∃ code, st.CompilesTo code)
    ∧ (∀ code : Code, (∃ e : Expr, e.CompilesTo code)
        ↔ (∀ i ∈ code, i.Calculates) ∧ code.WellStacked)
    ∧ (∀ (e e' : Expr) (code : Code), e.CompilesTo code → e'.CompilesTo code → e = e')
    ∧ (∀ (x : String) (code : Code), (∃ e, (assign x e).CompilesTo code)
        ↔ ∃ p : Code, ((∀ i ∈ p, i.Calculates) ∧ p.WellStacked) ∧ code = p ++ [.setLocal x])
    ∧ ∀ (st st' : Statement) (code : Code),
      st.CompilesTo code → st'.CompilesTo code → st = st' := by
  refine ⟨whole_iff_compilesTo, fun code => Expr.exists_compilesTo_iff,
    fun e e' code => Expr.compilesTo_unique, fun x code => ?_, fun st st' code => compilesTo_unique⟩
  simp only [compilesTo_assign, ← Expr.exists_compilesTo_iff]
  constructor
  · rintro ⟨e, p, he, hcode⟩
    exact ⟨p, ⟨e, he⟩, hcode⟩
  · rintro ⟨p, ⟨e, he⟩, hcode⟩
    exact ⟨e, p, he, hcode⟩

/-- The code of `(1 - x)!`, which is the code of nothing else. -/
theorem compile_bijective_factorial :
    let e : Expr := .unary .factorial (.binary .sub (.number .one) (.name "x"))
    let code : Code := [.loadConst .one, .loadLocal "x", .binary .sub, .unary .factorial]
    e.CompilesTo code ∧ code.WellStacked ∧ ∀ e' : Expr, e'.CompilesTo code → e' = e := by
  intro e code
  have h : e.CompilesTo code := ⟨3, rfl⟩
  obtain ⟨-, hcode, hunique, -, -⟩ := compile_bijective
  exact ⟨h, ((hcode code).mp ⟨e, h⟩).2, fun e' h' => hunique e' e code h' h⟩

end Statement

end Reckoner

import Reckoner.Proofs.Safety
import Reckoner.Proofs.Transcript

/-!
# Watching a session

What a line reads as depends on the limits of the session and on nothing else in it
(`reading_cases`), and the statement that was read has no holes. What comes of such a statement has
a closed form (`effect_execute_of_whole`, `effect_showAndExecute`), in which an observer matters
only if the tree is too deep: then it cannot be shown, and showing it comes first. But a tree that
cannot be shown cannot be worked out either, so watching turns no success into a failure.
-/

namespace Reckoner

theorem Observer.watches_iff {o : Observer} :
    o.watches = true ↔ o.listens = true ∨ o.level = .debug := by
  rcases o with ⟨_ | _, _ | _ | _⟩ <;> simp [watches, LogLevel.covers]

theorem Statement.survey_of_lt_height {st : Statement} {n : Nat} (hw : st.Whole)
    (h : n < st.height) : st.survey n = some .tooDeep := by
  rcases hs : st.survey n with _ | o
  · have hle := ((st.survey_eq_none_iff n).mp hs).2
    omega
  · rw [survey_of_whole hw hs]

namespace Session

/-- A line fails to be read, in the same way in every session with these limits, or it reads as the
same statement in all of them. -/
theorem reading_cases (limits : Limits) (line : String) :
    (∃ failure, ∀ s : Session, s.limits = limits →
      s.statement? line = none ∧ (s.run line).effect = (.error failure, s.vars))
    ∨ ∃ st : Statement, st.Whole ∧ ∀ s : Session, s.limits = limits →
      s.statement? line = some st ∧ (s.run line).effect = (s.showAndExecute st).effect := by
  rcases hscan : Token.scan line with e | tokens
  · refine Or.inl ⟨.scan e, ?_⟩
    rintro s rfl
    exact ⟨by simp [statement?, hscan, Except.toOption], by simp only [run, hscan]; rfl⟩
  rcases hparse : Statement.ofTokens limits.nesting tokens with e | st
  · refine Or.inl ⟨.parse e, ?_⟩
    rintro s rfl
    exact ⟨by simp [statement?, hscan, hparse, Except.toOption],
      by simp only [run, hscan, hparse]; rfl⟩
  · refine Or.inr ⟨st, Statement.ofTokens_whole hparse, ?_⟩
    rintro s rfl
    exact ⟨by simp [statement?, hscan, hparse, Except.toOption],
      by simp only [run, hscan, hparse]; rfl⟩

theorem effect_execute_of_whole {s : Session} {st : Statement} (hw : st.Whole) :
    (s.execute st).effect = if s.mode = .compile ∧ s.limits.levels < st.height then
      (.error (.fault (.nestedTooDeeply "compile")), s.vars)
    else st.effect s.vars s.limits.levels := by
  unfold execute
  cases s.mode with
  | interpret => simp [effect_interpret]
  | compile =>
    by_cases hn : s.limits.levels < st.height
    · obtain ⟨gap, h⟩ := effect_compile_of_obstacle (Statement.survey_of_lt_height hw hn)
      simp only [h, hn, and_self, if_true, Obstacle.fault]
    · have hs := (st.survey_eq_none_iff s.limits.levels).mpr ⟨hw, Nat.le_of_not_lt hn⟩
      simp only [effect_compile hs, hn, and_false, if_false]

theorem effect_showAndExecute {s : Session} {st : Statement} (hw : st.Whole) :
    (s.showAndExecute st).effect =
      if s.observer.watches = true ∧ s.limits.levels < st.height then
        (.error (.fault (.nestedTooDeeply "render")), s.vars)
      else (s.execute st).effect := by
  obtain ⟨gap, hrender⟩ := st.render_eq s.limits.levels
  unfold showAndExecute
  by_cases hn : s.limits.levels < st.height
  · rw [Statement.survey_of_lt_height hw hn] at hrender
    rcases s.observer.watches with _ | _ <;>
      simp [hrender, hn, failed, Report.effect, Obstacle.fault]
  · rw [(st.survey_eq_none_iff _).mpr ⟨hw, Nat.le_of_not_lt hn⟩] at hrender
    rcases s.observer.watches with _ | _ <;> simp [hrender, hn]

/-- A statement that is too deep succeeds in neither mode and sets nothing. -/
theorem effect_execute_of_lt_height {s : Session} {st : Statement} (hw : st.Whole)
    (h : s.limits.levels < st.height) :
    ∃ failure, (s.execute st).effect = (.error failure, s.vars) := by
  rw [effect_execute_of_whole hw]
  split
  · exact ⟨_, rfl⟩
  · unfold Statement.effect
    rcases he : st.eval s.vars s.limits.levels with f | ⟨r, vars⟩
    · exact ⟨_, rfl⟩
    · have hs := (Statement.eval_ok he).1
      rw [Statement.survey_of_lt_height hw h] at hs
      cases hs

def watchedBy (s : Session) (observer : Observer) : Session := { s with observer }

/-- A listener or a full log changes neither the outcome of a line nor the variables after it,
unless the line reads as a tree that is too deep. Such a line fails without an effect whether it is
watched or not; if it is, the failure is that the tree cannot be shown. -/
theorem watching_keeps_effect (s : Session) (line : String) (quiet watching : Observer)
    (hquiet : quiet.listens = false ∧ quiet.level ≠ .debug)
    (hwatching : watching.listens = true ∨ watching.level = .debug) :
    ((∀ st, s.statement? line = some st → st.height ≤ s.limits.levels) →
      ((s.watchedBy watching).run line).effect = ((s.watchedBy quiet).run line).effect)
    ∧ ∀ st, s.statement? line = some st → s.limits.levels < st.height →
      ((s.watchedBy watching).run line).effect
        = (.error (.fault (.nestedTooDeeply "render")), s.vars)
      ∧ ∃ failure, ((s.watchedBy quiet).run line).effect = (.error failure, s.vars) := by
  have hw : watching.watches = true := Observer.watches_iff.mpr hwatching
  have hq : quiet.watches = false := by
    rw [Bool.eq_false_iff, ne_eq, Observer.watches_iff]
    simp [hquiet]
  rcases reading_cases s.limits line with ⟨failure, h⟩ | ⟨st, hwhole, h⟩
  · refine ⟨fun _ => ?_, fun st hst => ?_⟩
    · rw [(h (s.watchedBy watching) rfl).2, (h (s.watchedBy quiet) rfl).2]
      rfl
    · rw [(h s rfl).1] at hst
      cases hst
  · -- apart from a tree that is too deep, who watches does not come in
    have heffect : ∀ o, ((s.watchedBy o).run line).effect =
        if o.watches = true ∧ s.limits.levels < st.height then
          (.error (.fault (.nestedTooDeeply "render")), s.vars)
        else (s.execute st).effect := by
      intro o
      rw [(h (s.watchedBy o) rfl).2, effect_showAndExecute hwhole, effect_execute_of_whole hwhole,
        effect_execute_of_whole hwhole]
      rfl
    refine ⟨fun hdeep => ?_, fun st' hst hdeep => ?_⟩
    · have hle := Nat.not_lt.mpr (hdeep st (h s rfl).1)
      simp only [heffect, hle, and_false, if_false]
    · obtain rfl : st = st' := Option.some.inj ((h s rfl).1.symm.trans hst)
      simp only [heffect, hw, hq, hdeep, and_self, if_true, Bool.false_eq_true, false_and, if_false,
        true_and]
      exact effect_execute_of_lt_height hwhole hdeep

/-- An undefined variable comes before the depth of the tree, unless the tree is to be shown. -/
theorem watching_keeps_effect_too_deep :
    let s : Session := { limits := { levels := 2 } }
    let st : Statement :=
      .expression (.binary .add (.name "y") (.unary .minus (.unary .minus (.name "z"))))
    let quiet : Observer := { level := .info }
    let watching : Observer := { listens := true }
    s.statement? "y + --z" = some st ∧ s.limits.levels < st.height
      ∧ ((s.watchedBy quiet).run "y + --z").outcome = .error (.fault (.undefinedVariable "y"))
      ∧ ((s.watchedBy watching).run "y + --z").outcome
        = .error (.fault (.nestedTooDeeply "render")) := by
  intro s st quiet watching
  have hst : s.statement? "y + --z" = some st := by decide +kernel
  have hdeep : s.limits.levels < st.height := by decide
  obtain ⟨heffect, -⟩ :=
    (watching_keeps_effect s "y + --z" quiet watching (by decide) (by decide)).2 st hst hdeep
  exact ⟨hst, hdeep, by decide +kernel, congrArg Prod.fst heffect⟩

end Session

end Reckoner

import ModelIR.Pass.Basic

/-!
# Running edits

What an edit gives and leaves, step by step: `runOn_bind_ok` goes on behind a step that gives an
answer, and `runOn_bind_error` ends the edit at one that fails. An edit changes a graph; the same
holds where any other state is changed (`run_bind_ok`, `run_bind_error`). A pass that rewrites
matches runs as the rewrite of a live match and then the rest (`rewriteAll_cons`), and passes over
one that is not live (`rewriteAll_cons_of_stale`).
-/

namespace ModelIR

section State

variable {σ ε α β : Type} {s s' : σ}

theorem run_bind_ok {x : ExceptT ε (StateM σ) α} {a : α} (h : x.run.run s = (.ok a, s'))
    (f : α → ExceptT ε (StateM σ) β) : (x >>= f).run.run s = (f a).run.run s' := by
  rw [ExceptT.run_bind, StateT.run_bind, h]
  rfl

theorem run_bind_error {x : ExceptT ε (StateM σ) α} {e : ε} (h : x.run.run s = (.error e, s'))
    (f : α → ExceptT ε (StateM σ) β) : (x >>= f).run.run s = (.error e, s') := by
  rw [ExceptT.run_bind, StateT.run_bind, h]
  rfl

theorem run_get_bind (f : σ → ExceptT ε (StateM σ) β) : (get >>= f).run.run s = (f s).run.run s :=
  rfl

end State

namespace Edit

variable {ε ε' α β : Type} {g g' : Graph}

@[simp]
theorem runOn_pure (a : α) : (pure a : Edit ε α).runOn g = (.ok a, g) := rfl

@[simp]
theorem runOn_get : (get : Edit ε Graph).runOn g = (.ok g, g) := rfl

@[simp]
theorem runOn_ofExcept (answer : Except ε α) : (ofExcept answer).runOn g = (answer, g) := rfl

theorem runOn_bind_ok {x : Edit ε α} {a : α} (h : x.runOn g = (.ok a, g')) (f : α → Edit ε β) :
    (x >>= f).runOn g = (f a).runOn g' :=
  run_bind_ok h f

theorem runOn_bind_error {x : Edit ε α} {e : ε} (h : x.runOn g = (.error e, g'))
    (f : α → Edit ε β) : (x >>= f).runOn g = (.error e, g') :=
  run_bind_error h f

@[simp]
theorem runOn_get_bind (f : Graph → Edit ε β) : (get >>= f).runOn g = (f g).runOn g :=
  runOn_bind_ok runOn_get f

theorem runOn_map_ok {x : Edit ε α} {a : α} (h : x.runOn g = (.ok a, g')) (f : α → β) :
    (f <$> x).runOn g = (.ok (f a), g') := by
  rw [map_eq_pure_bind, runOn_bind_ok h, runOn_pure]

theorem runOn_map_error {x : Edit ε α} {e : ε} (h : x.runOn g = (.error e, g')) (f : α → β) :
    (f <$> x).runOn g = (.error e, g') := by
  rw [map_eq_pure_bind, runOn_bind_error h]

/-- A step that speaks of other errors gives and leaves the same. -/
theorem runOn_adapt (x : Edit ε α) (f : ε → ε') :
    Edit.runOn (ExceptT.adapt f x) g = ((x.runOn g).1.mapError f, (x.runOn g).2) :=
  rfl

theorem runOn_lift_ok {x : Edit GraphError α} {a : α} (h : x.runOn g = (.ok a, g')) :
    Edit.runOn (liftM x : Edit PassError α) g = (.ok a, g') := by
  have e := runOn_adapt (g := g) x PassError.graph
  rw [h] at e
  exact e

theorem runOn_lift_error {x : Edit GraphError α} {e : GraphError} (h : x.runOn g = (.error e, g')) :
    Edit.runOn (liftM x : Edit PassError α) g = (.error (.graph e), g') := by
  have e' := runOn_adapt (g := g) x PassError.graph
  rw [h] at e'
  exact e'

/-! The edits of passes reach the graph through the edits that they are made of. -/

@[simp]
theorem runOn_pass_get_bind (f : Graph → Edit PassError β) :
    ((get : Edit PassError Graph) >>= f).runOn g = (f g).runOn g :=
  runOn_bind_ok rfl f

theorem runOn_pass_modify (f : Graph → Graph) :
    (modify f : Edit PassError PUnit).runOn g = (.ok ⟨⟩, f g) := rfl

end Edit

namespace Pass

variable {replace : Match → RunConfig → Edit PassError Unit} {config : RunConfig} {g : Graph}
  {m : Match}

theorem rewriteAll_cons (hlive : m.isLive g) (rest : List Match) :
    (rewriteAll replace config (m :: rest)).runOn g =
      (replace m config >>= fun _ => rewriteAll replace config rest).runOn g := by
  rw [rewriteAll, Edit.runOn_pass_get_bind, if_pos hlive]

theorem rewriteAll_cons_of_stale (hstale : m.isLive g = false) (rest : List Match) :
    (rewriteAll replace config (m :: rest)).runOn g = (rewriteAll replace config rest).runOn g := by
  rw [rewriteAll, Edit.runOn_pass_get_bind, hstale]
  rfl

/-- Matches may be rewritten in parts. -/
theorem rewriteAll_append : ∀ before rest : List Match,
    rewriteAll replace config (before ++ rest) =
      (rewriteAll replace config before >>= fun _ => rewriteAll replace config rest)
  | [], rest => by rw [rewriteAll, pure_bind, List.nil_append]
  | m :: before, rest => by
    simp only [List.cons_append, rewriteAll, rewriteAll_append before rest, bind_assoc]
    refine bind_congr fun g => ?_
    split
    · rw [bind_assoc]
    · rfl

end Pass

end ModelIR

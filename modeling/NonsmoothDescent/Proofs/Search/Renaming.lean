import NonsmoothDescent.Proofs.Search.Twins
import NonsmoothDescent.Proofs.Search.Vicinity

/-!
# Searches with the same vicinity

Two runs of a search start from workspaces that differ in far points only. The relation
between their states says that the workspaces match, that the engines are the same but for
their cuts, and that the cuts are the same but for the places they refer to, which are places
of the same points. The single operations of a search keep the relation.
-/

namespace NonsmoothDescent

variable {α : Type} [Scalar α]

namespace Vicinity.Matches

variable {o : Oracle α} {v : Vicinity o} {p : Prop} {w w' : Workspace α} {id : Nat}

/-- The runs evaluate the objective of a sample that both have alike. -/
theorem evaluateObjective (h : v.Matches p w w') (hid : v.Shares id) :
    Tandem (Workspace.evaluateObjective o id true) w
      (Workspace.evaluateObjective o (v.image id) true) w' (v.Alike p) (v.Matches False) := by
  refine .of_ok (Workspace.evaluateObjective_run o id w)
    (Workspace.evaluateObjective_run o (v.image id) w') ⟨?_, h.withObjective hid⟩
  rw [h.sample_eq id hid]

/-- The runs evaluate the gradient of a sample that both have alike. -/
theorem evaluateGradient (h : v.Matches p w w') (hid : v.Shares id) :
    Tandem (Workspace.evaluateGradient o id true) w
      (Workspace.evaluateGradient o (v.image id) true) w' (v.Alike p) (v.Matches False) := by
  refine .of_ok (Workspace.evaluateGradient_run o id w)
    (Workspace.evaluateGradient_run o (v.image id) w') ⟨?_, h.withGradient hid⟩
  rw [h.sample_eq id hid]

/-- The runs evaluate a sample that both have alike. -/
theorem evaluateBoth (h : v.Matches p w w') (hid : v.Shares id) :
    Tandem (Workspace.evaluateBoth o id true) w
      (Workspace.evaluateBoth o (v.image id) true) w' (v.Alike p) (v.Matches False) := by
  refine (h.evaluateObjective hid).bind ?_
  rintro known u _ u' ⟨rfl, hu⟩
  exact .ite .rfl (fun _ => hu.evaluateGradient hid) fun _ => .of_pure ⟨rfl, hu⟩

/-- The runs evaluate their trial points alike. -/
theorem evaluateTrial (h : v.Matches p w w') :
    Tandem (Workspace.evaluateTrial o) w (Workspace.evaluateTrial o) w' (v.Alike p)
      (v.Matches False) := by
  have hjoint : w'.jointEvaluation = w.jointEvaluation :=
    (congrArg Workspace.jointEvaluation h.rest_eq :)
  have hget : ∀ w : Workspace α, (get : WorkspaceM α (Workspace α)) w = .ok w w := fun _ => rfl
  unfold Workspace.evaluateTrial
  refine .read (hget w) (hget w') ?_
  rw [hjoint, h.trial_eq]
  exact .ite .rfl (fun _ => h.evaluateBoth h.shares_trial) fun _ =>
    h.evaluateObjective h.shares_trial

/-- The runs make the same trial point, each under its own number. -/
theorem makeTrial (h : v.Matches p w w') (stepsize : α) :
    Tandem (Workspace.makeTrial stepsize) w (Workspace.makeTrial stepsize) w' (v.Alike p)
      (v.Matches False) := by
  unfold Tandem
  rw [Workspace.makeTrial_run, Workspace.makeTrial_run, h.dimension_eq, h.currentSample_eq,
    h.direction_eq]
  cases Sample.shifted w.dimension w.currentSample 1 stepsize (Tensor.ofVector w.direction) with
  | error fault => exact .error (h.imp False.elim)
  | ok s => exact .ok ⟨rfl, h.withSample s⟩

/-- The runs set the same direction. -/
theorem setDirection (h : v.Matches p w w') (d : Tensor α) :
    Tandem (Workspace.setDirection d) w (Workspace.setDirection d) w' (v.Alike p)
      (v.Matches False) := by
  have hget : ∀ w : Workspace α, (get : WorkspaceM α (Workspace α)) w = .ok w w := fun _ => rfl
  unfold Workspace.setDirection
  refine .read (hget w) (hget w') ?_
  rw [h.dimension_eq]
  cases d.fill? w.dimension with
  | none => exact .of_throw (h.imp False.elim)
  | some direction =>
    exact .of_ok rfl rfl ⟨rfl, { h with
      rest_eq := congrArg (fun w : Workspace α => { w with direction }) h.rest_eq }⟩

/-- The runs take the same step of a solver. -/
theorem takeStep (h : v.Matches p w w') (solver : Solver α) :
    Tandem (Search.takeStep solver) w (Search.takeStep solver) w' (v.Alike p)
      (v.Matches False) := by
  let count : Workspace α → Workspace α := fun w =>
    { w with
      minimizerIterations := w.minimizerIterations + solver.iterations
      innerIterations := w.innerIterations + 1 }
  have hcounted : v.Matches p (count w) (count w') :=
    { h with rest_eq := congrArg count h.rest_eq }
  have hrun : Tandem (Workspace.setDirection (Tensor.ofVector solver.step) >>= fun _ =>
        Workspace.makeTrial 1) (count w)
      (Workspace.setDirection (Tensor.ofVector solver.step) >>= fun _ => Workspace.makeTrial 1)
      (count w') (v.Alike p) (v.Matches False) :=
    (hcounted.setDirection _).bind fun _ _ _ _ hu => hu.2.makeTrial 1
  exact hrun

/-- The places that the bundles give to a sample are places of the same point. -/
theorem addToBundle (h : v.Matches p w w') (hid : v.Shares id) :
    Tandem (Workspace.addToBundle id) w (Workspace.addToBundle (v.image id)) w'
      (fun place u place' u' => Workspace.SamePlace v.first v.second place place' ∧
        v.Matches False u u') (v.Matches False) := by
  refine .of_ok rfl rfl ⟨?_, h.bundled hid⟩
  obtain ⟨added, hadded, hadded', -⟩ := h.bundle
  have hsize := congrArg List.length hadded
  have hsize' := congrArg List.length hadded'
  rw [List.length_append, Array.length_toList, Array.length_toList] at hsize hsize'
  rw [hsize, hsize', List.length_map]
  exact .appended added.length

/-- The runs read the same time. -/
theorem elapsed (h : v.Matches p w w') (clock : Nat → α) :
    Tandem (Workspace.elapsed clock) w (Workspace.elapsed clock) w' (v.Alike p)
      (v.Matches False) := by
  have hreadings : w'.clockReadings = w.clockReadings :=
    (congrArg Workspace.clockReadings h.rest_eq :)
  have hstart : w'.startTime = w.startTime := (congrArg Workspace.startTime h.rest_eq :)
  refine .of_ok rfl rfl ⟨?_, { h with
    rest_eq := congrArg (fun w : Workspace α => { w with clockReadings := w.clockReadings + 1 })
      h.rest_eq }⟩
  change clock w'.clockReadings - w'.startTime = clock w.clockReadings - w.startTime
  rw [hreadings, hstart]

end Vicinity.Matches

section Cuts

variable {w w' : Workspace α}

/-- The cuts are the same but for the places that they refer to, which are places of the same
point. -/
inductive Workspace.SameCut (w w' : Workspace α) : Cut α → Cut α → Prop where
  | owned (bias : α) (slope : List α) : SameCut w w' (.owned bias slope) (.owned bias slope)
  | sampled (bias : α) {place place' : Nat} (h : SamePlace w w' place place') :
    SameCut w w' (.sampled bias place) (.sampled bias place')

/-- Lists of cuts that are the same one by one. -/
abbrev Workspace.SameCuts (w w' : Workspace α) : List (Cut α) → List (Cut α) → Prop :=
  List.Forall₂ (SameCut w w')

/-- The solvers of two runs work on the same cuts. -/
inductive Workspace.SameActive (w w' : Workspace α) : ActiveCuts α → ActiveCuts α → Prop where
  | full : SameActive w w' .full .full
  | aggregated : SameActive w w' .aggregated .aggregated
  | own {cuts cuts' : List (Cut α)} (h : SameCuts w w' cuts cuts') :
    SameActive w w' (.own cuts) (.own cuts')

/-- Cuts that are the same up to their places have the same biases. -/
theorem Workspace.SameCuts.map_bias {cuts cuts' : List (Cut α)}
    (h : Workspace.SameCuts w w' cuts cuts') : cuts'.map Cut.bias = cuts.map Cut.bias := by
  induction h with
  | nil => rfl
  | cons hcut _ ih =>
    rw [List.map_cons, List.map_cons, ih]
    cases hcut <;> rfl

/-- The cut at the current point refers to no place. -/
theorem Workspace.sameCut_atCurrent {s : Sample α} {cut : Cut α}
    (h : Cut.atCurrent s = .ok cut) : Workspace.SameCut w w' cut cut := by
  unfold Cut.atCurrent at h
  split at h <;> cases h
  exact .owned _ _

/-- What a cut at a sampled point is, but for its place, does not depend on the place. -/
theorem Cut.atPoint_cases (point current : Sample α) (downshift : α) :
    (∃ fault, ∀ i, Cut.atPoint point current i downshift = .error fault) ∨
      ∃ bias, ∀ i, Cut.atPoint point current i downshift = .ok (.sampled bias i) := by
  unfold Cut.atPoint
  cases point.gradient.value? with
  | none => exact .inl ⟨_, fun _ => rfl⟩
  | some slope =>
    cases point.objective.value? with
    | none => exact .inl ⟨_, fun _ => rfl⟩
    | some value =>
      dsimp only
      cases Cut.downshiftedBias value slope point.position current.position
        current.objective.value? downshift with
      | error fault => exact .inl ⟨fault, fun _ => rfl⟩
      | ok bias => exact .inr ⟨bias, fun _ => rfl⟩

variable {o : Oracle α} {v : Vicinity o} {p : Prop} {cuts cuts' : List (Cut α)}

/-- Cuts that are the same up to their places have the same coefficients. -/
theorem Vicinity.Matches.coefficient?_eq (h : v.Matches p w w') {cut cut' : Cut α}
    (hcut : Workspace.SameCut v.first v.second cut cut') :
    cut'.coefficient? w'.pointAt = cut.coefficient? w.pointAt := by
  cases hcut with
  | owned bias slope => rfl
  | sampled bias hplace =>
    unfold Cut.coefficient?
    dsimp only
    rw [h.pointAt_eq hplace]

/-- So they give the solver the same slopes. -/
theorem Vicinity.Matches.mapM_coefficient (h : v.Matches p w w')
    (hcuts : Workspace.SameCuts v.first v.second cuts cuts') :
    cuts'.mapM (Cut.coefficient w'.pointAt) = cuts.mapM (Cut.coefficient w.pointAt) := by
  induction hcuts with
  | nil => rfl
  | cons hcut _ ih =>
    rw [List.mapM_cons, List.mapM_cons, ih, Cut.coefficient, h.coefficient?_eq hcut]
    rfl

end Cuts

/-- The engine less its cuts. -/
def Engine.withoutCuts (e : Engine α) : Engine α :=
  { e with fullCuts := [], aggregatedCuts := [], active := .own [] }

namespace Vicinity

variable {setting : Setting α} {v : Vicinity setting.oracle} {p q : Prop} {s t : SearchState α}
  {β γ δ ζ : Type}

variable (v) in
/-- The states of the two runs match. -/
structure Tracks (untouched : Prop) (s t : SearchState α) : Prop where
  workspace : v.Matches untouched s.workspace t.workspace
  engine_eq : t.engine.withoutCuts = s.engine.withoutCuts
  fullCuts : Workspace.SameCuts v.first v.second s.engine.fullCuts t.engine.fullCuts
  aggregatedCuts : Workspace.SameCuts v.first v.second s.engine.aggregatedCuts
    t.engine.aggregatedCuts
  active : Workspace.SameActive v.first v.second s.engine.active t.engine.active
  consultations_eq : Search.consultations t.journal = Search.consultations s.journal

variable (v) in
/-- From the given states the actions come out with related values, or are stopped by the same
fault, in states that match. -/
def Agree (rel : β → γ → Prop) (untouched : Prop) (act : SearchM α β) (s : SearchState α)
    (act' : SearchM α γ) (t : SearchState α) : Prop :=
  Tandem act s act' t (fun b s' c t' => rel b c ∧ v.Tracks untouched s' t') (v.Tracks False)

/-- Two chains agree if their first actions do and what follows does. -/
theorem Agree.bind {rel : β → γ → Prop} {rel' : δ → ζ → Prop} {act : SearchM α β}
    {act' : SearchM α γ} {f : β → SearchM α δ} {g : γ → SearchM α ζ}
    (h : v.Agree rel p act s act' t)
    (hf : ∀ b c s' t', rel b c → v.Tracks p s' t' → v.Agree rel' q (f b) s' (g c) t') :
    v.Agree rel' q (act >>= f) s (act' >>= g) t :=
  Tandem.bind h fun b s' c t' ⟨hrel, hm⟩ => hf b c s' t' hrel hm

/-- Two choices agree if they are made alike and both branches agree. -/
theorem Agree.ite {rel : β → γ → Prop} {act other : SearchM α β} {act' other' : SearchM α γ}
    {c d : Prop} [Decidable c] [Decidable d] (hiff : c ↔ d) (h : v.Agree rel p act s act' t)
    (h' : v.Agree rel p other s other' t) :
    v.Agree rel p (if c then act else other) s (if d then act' else other') t :=
  Tandem.ite hiff (fun _ => h) fun _ => h'

/-- The same value in both runs, and then the same action. -/
theorem Agree.bind_eq {rel : δ → ζ → Prop} {act act' : SearchM α β} {f : β → SearchM α δ}
    {g : β → SearchM α ζ} (h : v.Agree Eq p act s act' t)
    (hf : ∀ b s' t', v.Tracks p s' t' → v.Agree rel q (f b) s' (g b) t') :
    v.Agree rel q (act >>= f) s (act' >>= g) t := by
  refine h.bind ?_
  rintro b _ s' t' rfl hm
  exact hf b s' t' hm

namespace Tracks

/-- What matches with bundles and radii of the start matches without. -/
theorem imp (h : v.Tracks p s t) (hq : q → p) : v.Tracks q s t :=
  { h with workspace := h.workspace.imp hq }

/-- Related values agree. -/
theorem pure {rel : β → γ → Prop} {b : β} {c : γ} (h : v.Tracks p s t) (hrel : rel b c) :
    v.Agree rel p (pure b) s (pure c) t := Tandem.of_pure ⟨hrel, h⟩

/-- What the runs read of their states, each for itself, may be used in what follows. -/
theorem read {rel : δ → ζ → Prop} {act : SearchM α β} {act' : SearchM α γ} {b : β} {c : γ}
    {f : β → SearchM α δ} {g : γ → SearchM α ζ} (_ : v.Tracks p s t) (hr : act s = .ok b s)
    (hr' : act' t = .ok c t) (h : v.Agree rel q (f b) s (g c) t) :
    v.Agree rel q (act >>= f) s (act' >>= g) t := Tandem.read hr hr' h

/-- The runs have the same solver. -/
theorem solver_eq (h : v.Tracks p s t) : t.solver = s.solver := by
  have hsolver : t.engine.solver = s.engine.solver := (congrArg Engine.solver h.engine_eq :)
  unfold Moment.solver Engine.solverFor
  rw [hsolver, h.workspace.dimension_eq]

/-- Operations on the workspaces. -/
theorem onWorkspace {rel : β → γ → Prop} {act : WorkspaceM α β} {act' : WorkspaceM α γ}
    (h : v.Tracks p s t)
    (hact : Tandem act s.workspace act' t.workspace
      (fun b w c w' => rel b c ∧ v.Matches q w w') (v.Matches False)) :
    v.Agree rel q (Search.onWorkspace act) s (Search.onWorkspace act') t := by
  unfold Tandem at hact
  unfold Agree Tandem Search.onWorkspace
  generalize act s.workspace = result at hact ⊢
  generalize act' t.workspace = result' at hact ⊢
  cases hact with
  | ok hok => exact .ok ⟨hok.1, { h with workspace := hok.2 }⟩
  | error herror => exact .error { h with workspace := herror }

/-- Operations on the workspaces that give the same value. -/
theorem onWorkspace_eq {act act' : WorkspaceM α β} (h : v.Tracks p s t)
    (hact : Tandem act s.workspace act' t.workspace (v.Alike q) (v.Matches False)) :
    v.Agree Eq q (Search.onWorkspace act) s (Search.onWorkspace act') t :=
  h.onWorkspace (hact.mono fun _ _ _ _ ⟨hvalue, hw⟩ => ⟨hvalue.symm, hw⟩)

/-- What the runs notice may differ. -/
theorem note (h : v.Tracks p s t) (notices notices' : List (Notice α)) :
    v.Agree Eq p (Search.note notices) s (Search.note notices') t :=
  .of_ok rfl rfl ⟨rfl, { h with workspace := { h.workspace with } }⟩

/-- What stops one run stops the other. -/
theorem orFault (h : v.Tracks p s t) (result : Except (Fault α) β) {f : β → SearchM α γ}
    {g : β → SearchM α δ} {post : γ → SearchState α → δ → SearchState α → Prop}
    (hf : ∀ b, result = .ok b → Tandem (f b) s (g b) t post (v.Tracks False)) :
    Tandem (Search.orFault result >>= f) s (Search.orFault result >>= g) t post
      (v.Tracks False) := by
  cases result with
  | ok b => exact .read rfl rfl (hf b rfl)
  | error fault => exact .of_error (bind_of_error rfl) (bind_of_error rfl) (h.imp False.elim)

end Tracks

/-- Changes of the engine agree if their results match. -/
theorem Agree.modifyEngine {f g : Engine α → Engine α}
    (h : v.Tracks p (s.withEngine f) (t.withEngine g)) :
    v.Agree Eq p (Search.modifyEngine f) s (Search.modifyEngine g) t := .of_ok rfl rfl ⟨rfl, h⟩

namespace Tracks

/-- Both runs write an event to the journal that asks the minimizer the same, if anything. -/
theorem record (h : v.Tracks p s t) {event event' : Moment α → Event α}
    (hasked : Search.consultations #[event' t.toMoment] =
      Search.consultations #[event s.toMoment]) :
    v.Agree Eq p (Search.record event) s (Search.record event') t := by
  refine .of_ok rfl rfl ⟨rfl, { h with consultations_eq := ?_ }⟩
  rw [Search.consultations_push, Search.consultations_push, h.consultations_eq, hasked]

/-- The runs set the same solver. -/
theorem setSolver (h : v.Tracks p s t) (solver : Solver α) :
    v.Agree Eq p (Search.setSolver solver) s (Search.setSolver solver) t :=
  .modifyEngine { h with
    engine_eq := congrArg (fun e : Engine α => { e with solver := some solver }) h.engine_eq }

section Reports

/-- The runs buffer the same report line. -/
theorem report (h : v.Tracks p s t) (kind : LineKind) (line : ProgressLine α) :
    v.Agree Eq p (Search.report kind line) s (Search.report kind line) t :=
  .modifyEngine { h with
    engine_eq := congrArg (fun e : Engine α => { e with report := e.report.add kind line })
      h.engine_eq }

/-- The runs emit the same lines. -/
theorem flushReport (h : v.Tracks p s t) :
    v.Agree Eq p Search.flushReport s Search.flushReport t := by
  unfold Search.flushReport
  refine h.read (Search.engine_run s) (Search.engine_run t) ?_
  have hreport : t.engine.report = s.engine.report := (congrArg Engine.report h.engine_eq :)
  rw [hreport]
  have hflushed : v.Agree Eq p
      (Search.modifyEngine fun e => { e with report := s.engine.report.flush.1 }) s
      (Search.modifyEngine fun e => { e with report := s.engine.report.flush.1 }) t :=
    .modifyEngine { h with
      engine_eq := congrArg (fun e : Engine α => { e with report := s.engine.report.flush.1 })
        h.engine_eq }
  exact hflushed.bind_eq fun _ _ _ h => h.note _ _

/-- The runs report the same figures. -/
theorem figures_eq (h : v.Tracks p s t) :
    Search.figures t.workspace t.engine = Search.figures s.workspace s.engine := by
  have hsolver : t.engine.solverFor t.workspace.dimension =
      s.engine.solverFor s.workspace.dimension := h.solver_eq
  have hinner : t.workspace.innerIterations = s.workspace.innerIterations :=
    (congrArg Workspace.innerIterations h.workspace.rest_eq :)
  have hminimizer : t.workspace.minimizerIterations = s.workspace.minimizerIterations :=
    (congrArg Workspace.minimizerIterations h.workspace.rest_eq :)
  unfold Search.figures
  rw [hsolver, hinner, hminimizer]

/-- The runs report a round alike. -/
theorem reportRound (h : v.Tracks p s t) :
    v.Agree Eq p (Search.reportRound setting) s (Search.reportRound setting) t := by
  unfold Search.reportRound
  refine h.read (Search.workspace_run s) (Search.workspace_run t) ?_
  refine h.read (Search.engine_run s) (Search.engine_run t) ?_
  rw [h.figures_eq]
  refine (h.report _ _).bind_eq fun _ s t h => ?_
  have hreport : t.engine.report = s.engine.report := (congrArg Engine.report h.engine_eq :)
  refine h.read (Search.engine_run s) (Search.engine_run t) ?_
  rw [hreport]
  exact .ite .rfl (h.report _ _) (h.pure rfl)

end Reports

section Solves

/-- Both runs load the same planes. -/
theorem load (h : v.Tracks p s t) {cuts cuts' : List (Cut α)} {active active' : ActiveCuts α}
    (hcuts : Workspace.SameCuts v.first v.second cuts cuts')
    (hactive : Workspace.SameActive v.first v.second active active') :
    v.Agree Eq p (Search.load cuts active) s (Search.load cuts' active') t := by
  unfold Search.load
  refine h.read (Search.workspace_run s) (Search.workspace_run t) ?_
  rw [h.workspace.mapM_coefficient hcuts, hcuts.map_bias]
  refine h.orFault _ fun slopes _ => ?_
  refine h.read (Search.solver_run s) (Search.solver_run t) ?_
  rw [h.solver_eq]
  refine h.orFault _ fun loaded _ => (h.setSolver loaded).bind_eq fun _ s t h => ?_
  exact .modifyEngine { h with active := hactive }

/-- Both runs store the same result of a solve. -/
theorem store (h : v.Tracks p s t) (made : Solver.Solved α) :
    v.Agree Eq p (Search.store made) s (Search.store made) t := by
  obtain ⟨solver, consultation, notices⟩ := made
  unfold Search.store
  refine (h.setSolver solver).bind_eq fun _ s t h => (h.note _ _).bind_eq fun _ s t h => ?_
  have hstep : ∀ {s t : SearchState α}, v.Tracks p s t → v.Agree Eq p
      (Search.modifyEngine (fun e => { e with solves := e.solves + 1 }) >>= fun _ =>
        Search.onWorkspace (Search.takeStep solver) >>= fun _ => Search.record .solved >>=
          fun _ => Pure.pure solver.status) s
      (Search.modifyEngine (fun e => { e with solves := e.solves + 1 }) >>= fun _ =>
        Search.onWorkspace (Search.takeStep solver) >>= fun _ => Search.record .solved >>=
          fun _ => Pure.pure solver.status) t := by
    intro s t h
    refine Agree.bind_eq (.modifyEngine { h with
      engine_eq := congrArg (fun e : Engine α => { e with solves := e.solves + 1 })
        h.engine_eq }) fun _ s t h => ?_
    refine (h.onWorkspace_eq (h.workspace.takeStep solver)).bind_eq fun _ s t h => ?_
    exact (h.record rfl).bind_eq fun _ s t h => h.pure rfl
  cases consultation with
  | none => exact hstep h
  | some consultation =>
    refine Agree.bind_eq (.modifyEngine { h with
      engine_eq := congrArg (fun e : Engine α => { e with consultations := e.consultations + 1 })
        h.engine_eq }) fun _ s t h => ?_
    exact (h.record rfl).bind_eq fun _ s t h => hstep h

/-- Both runs ask the minimizer the same, and it gives the same answer. -/
theorem answer_eq (h : v.Tracks p s t) (warm : Bool) :
    t.answer setting warm = s.answer setting warm := by
  have hasked : t.engine.consultations = s.engine.consultations :=
    (congrArg Engine.consultations h.engine_eq :)
  unfold Moment.answer
  rw [h.solver_eq, hasked]

/-- The runs make the same solve. -/
theorem solve (h : v.Tracks p s t) (warm : Bool) :
    v.Agree Eq p (Search.solve setting warm) s (Search.solve setting warm) t := by
  have hrun : v.Agree Eq p (Search.store (s.answer setting warm)) s
      (Search.store (t.answer setting warm)) t := h.answer_eq warm ▸ h.store _
  exact hrun

/-- The runs fall back to the same cut. -/
theorem fallBack (h : v.Tracks p s t) :
    v.Agree (Workspace.SameCuts v.first v.second) p (Search.fallBack setting) s
      (Search.fallBack setting) t := by
  unfold Search.fallBack
  refine h.read (Search.solver_run s) (Search.solver_run t) ?_
  refine (h.note _ _).bind_eq fun _ s t h => ?_
  refine h.read (Search.workspace_run s) (Search.workspace_run t) ?_
  rw [h.workspace.currentSample_eq]
  refine h.orFault _ fun cut hcut => ?_
  have hcuts : Workspace.SameCuts v.first v.second [cut] [cut] :=
    .cons (Workspace.sameCut_atCurrent hcut) .nil
  refine (h.load hcuts (.own hcuts)).bind_eq fun _ s t h => ?_
  refine (h.solve false).bind_eq fun status s t h => ?_
  exact .ite .rfl ((h.note _ _).bind_eq fun _ _ _ h => h.pure hcuts) (h.pure hcuts)

/-- After a solve the runs go on, fall back or stop alike. -/
theorem settle (h : v.Tracks p s t) (status : SolveStatus) (resetAggregated : Bool) :
    v.Agree Eq p (Search.settle setting status resetAggregated) s
      (Search.settle setting status resetAggregated) t := by
  unfold Search.settle
  refine .ite .rfl (h.pure rfl) (.ite .rfl (h.pure rfl) ?_)
  refine h.fallBack.bind fun cuts cuts' s t hcuts h => ?_
  refine Agree.bind_eq (.modifyEngine { h with
    fullCuts := hcuts, active := .full, aggregatedCuts := ?_ }) fun _ _ _ h => h.pure rfl
  cases resetAggregated
  · exact h.aggregatedCuts
  · exact hcuts

end Solves

section Tests

/-- The rule decides alike in both runs, and if it is steady it leaves the radii unless it
fires. -/
theorem asked (h : v.Tracks p s t) :
    (t.asked setting).engine.ruleRecord.fired = (s.asked setting).engine.ruleRecord.fired ∧
      v.Tracks ((p ∧ setting.rule.Steady) ∧ (s.asked setting).engine.ruleRecord.fired = false)
        (s.on (s.asked setting)) (t.on (t.asked setting)) := by
  have hrecord : t.engine.ruleRecord = s.engine.ruleRecord :=
    (congrArg Engine.ruleRecord h.engine_eq :)
  have hengine : ∀ fired, ({ t.engine with
      ruleRecord := ⟨s.engine.ruleRecord.checks + 1, fired⟩ } : Engine α).withoutCuts =
        ({ s.engine with
          ruleRecord := ⟨s.engine.ruleRecord.checks + 1, fired⟩ } : Engine α).withoutCuts :=
    fun fired => congrArg (fun e : Engine α =>
      { e with ruleRecord := ⟨s.engine.ruleRecord.checks + 1, fired⟩ }) h.engine_eq
  have hsteady : setting.rule.Steady → _ := fun hrule =>
    hrule s.engine.ruleRecord.checks s.workspace.radii s.solver.status s.solver.combinationNormInf
  unfold Moment.asked RadiusRule.ask
  dsimp only
  rw [h.solver_eq, h.workspace.radii_eq, hrecord]
  generalize setting.rule.verdict s.engine.ruleRecord.checks s.workspace.radii s.solver.status
    s.solver.combinationNormInf = verdict at hsteady ⊢
  refine ⟨rfl, { h with workspace := ?_, engine_eq := hengine verdict.fires }⟩
  refine { h.workspace with
    rest_eq := congrArg (fun w : Workspace α => { w with radii := verdict.radii })
      h.workspace.rest_eq
    untouched := fun hp => ?_ }
  obtain ⟨⟨huntouched, hrule⟩, hfires⟩ := hp
  obtain ⟨hbundle, hbundle', hradii⟩ := h.workspace.untouched huntouched
  exact ⟨hbundle, hbundle', (hsteady hrule hfires).trans hradii⟩

/-- A step decreases the objective enough in both runs or in none. -/
theorem decreases_eq (h : v.Tracks p s t) (stepsize : α) :
    Search.decreases setting.options t.workspace t.solver stepsize =
      Search.decreases setting.options s.workspace s.solver stepsize := by
  unfold Search.decreases
  rw [h.workspace.trialSample_eq, h.workspace.currentSample_eq, h.solver_eq]

/-- Both runs accept the trial point or both do not, and then a steady rule has left the
radii. -/
theorem accepts (h : v.Tracks p s t) (evaluated : Bool) (stepsize : α) :
    Tandem (Search.accepts setting evaluated stepsize) s
      (Search.accepts setting evaluated stepsize) t
      (fun b s' c t' => b = c ∧ v.Tracks ((p ∧ setting.rule.Steady) ∧ b = false) s' t')
      (v.Tracks False) := by
  obtain ⟨hfired, hasked⟩ := h.asked
  have hdecreases := hasked.decreases_eq stepsize
  refine .of_ok (Search.accepts_run setting evaluated stepsize s)
    (Search.accepts_run setting evaluated stepsize t) ⟨?_, ?_⟩
  · unfold Moment.accepting
    rw [hfired]
    exact congrArg (fun b => (evaluated && b) || _) hdecreases.symm
  · refine { hasked with
      workspace := hasked.workspace.imp fun hreject => ?_
      consultations_eq := ?_ }
    · exact ⟨hreject.1, (Bool.or_eq_false_iff.mp hreject.2).2⟩
    · unfold SearchState.logged
      rw [Search.consultations_push, Search.consultations_push, hasked.consultations_eq]
      rfl

end Tests

end Tracks

end Vicinity

end NonsmoothDescent

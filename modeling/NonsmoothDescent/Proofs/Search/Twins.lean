import NonsmoothDescent.Proofs.Search.Journal
import NonsmoothDescent.Proofs.Search.Setup
import NonsmoothDescent.Proofs.Workspace.Tandem

/-!
# Searches of two runs

Two runs of a search may start from engines with different pasts, or with one of them some
solves ahead, or with one of them evaluating gradients along with objectives. The relation
between their states says what is the same all the same: the cuts, what the minimizer is
asked, what the solvers are set up with, and, from the first solve on, the solvers
themselves with direction and trial point. The lines they report differ in the number of
inner iterations only, by as many as one run is ahead. The single operations of a search
keep the relation.
-/

namespace NonsmoothDescent

variable {α : Type} [Scalar α]

/-- Minimizer and radius rule decide alike however often they were asked before, and the rule
shows the same text however many lines there are. -/
structure Setting.Memoryless (setting : Setting α) : Prop where
  minimizer_eq : ∀ m n, setting.minimizer m = setting.minimizer n
  verdict_eq : ∀ m n, setting.rule.verdict m = setting.rule.verdict n
  blankAt?_eq : ∀ m n, setting.rule.blankAt? m = setting.rule.blankAt? n

/-- A rule that shrinks the radii is memoryless. -/
theorem Setting.Memoryless.of_shrinkRule {setting : Setting α} {rule : ShrinkRule α}
    (hrule : setting.rule = rule.toRule)
    (hminimizer : ∀ m n, setting.minimizer m = setting.minimizer n) : setting.Memoryless where
  minimizer_eq := hminimizer
  verdict_eq m n := by
    rw [hrule]
    rfl
  blankAt?_eq m n := by
    rw [hrule]
    rfl

omit [Scalar α] in
/-- The figures of a run that is some inner iterations ahead. -/
def Figures.ahead (lead : Nat) (figures : Figures α) : Figures α :=
  { figures with innerIterations := figures.innerIterations + lead }

omit [Scalar α] in
/-- The line of a run that is some inner iterations ahead. -/
def ProgressLine.ahead (lead : Nat) : ProgressLine α → ProgressLine α
  | .inner figures => .inner (figures.ahead lead)
  | .summary figures => .summary (figures.ahead lead)
  | .blank text => .blank text

/-- A first solve has been made and its step taken. -/
def SearchState.Underway (s : SearchState α) : Prop := solvesOf s.journal.toList ≠ []

namespace Solver

/-- The solver with the result of the last solve forgotten. -/
def unsolved (s : Solver α) : Solver α :=
  { s with weights := [], combination := [], step := [], status := .unset, iterations := 0 }

/-- What a solver is set up with: size, bound, tolerances and rehearsal, without planes,
kept weights and result. -/
def setup (s : Solver α) : Solver α :=
  { s.unsolved with subproblem := { s.subproblem with planes := [] }, saved := none }

/-- A cold solve does not look at the result of the last one. -/
theorem solve_unsolved (s : Solver α) (ask : Request α → Answer α) :
    s.unsolved.solve ask = s.solve ask := by
  have hfrom : s.unsolved.solveFrom ask s.equalWeights = s.solveFrom ask s.equalWeights := by
    unfold solveFrom
    rfl
  change s.unsolved.run ask s.equalWeights = s.run ask s.equalWeights
  unfold run
  rw [hfrom]

/-- Loading makes solvers that are set up alike the same but for their last results. -/
theorem load_setup {s t : Solver α} (h : t.setup = s.setup) (slopes : List (List α))
    (biases : List α) :
    (∃ fault, s.load slopes biases = .error fault ∧ t.load slopes biases = .error fault) ∨
      ∃ r r', s.load slopes biases = .ok r ∧ t.load slopes biases = .ok r' ∧
        r'.unsolved = r.unsolved := by
  obtain ⟨⟨n, planes, bound⟩, settings, inexactness, weights, saved, combination, step, status,
    iterations, drill⟩ := s
  obtain ⟨⟨n', planes', bound'⟩, settings', inexactness', weights', saved', combination', step',
    status', iterations', drill'⟩ := t
  simp only [setup, unsolved, mk.injEq, Subproblem.mk.injEq, true_and] at h
  obtain ⟨⟨rfl, rfl⟩, rfl, rfl, rfl⟩ := h
  unfold load
  simp only [dimension]
  cases batch n' slopes biases with
  | error fault => exact .inl ⟨fault, rfl, rfl⟩
  | ok planes => exact .inr ⟨_, _, rfl, rfl, rfl⟩

/-- Solvers that differ in their last results alone have the same planes. -/
theorem subproblem_of_unsolved {s t : Solver α} (h : t.unsolved = s.unsolved) :
    t.subproblem = s.subproblem := (congrArg subproblem h :)

/-- Solvers that differ in their last results alone are set up alike. -/
theorem setup_of_unsolved {s t : Solver α} (h : t.unsolved = s.unsolved) : t.setup = s.setup := by
  unfold setup
  rw [h, subproblem_of_unsolved h]

end Solver

/-- What two solvers have in common they have in common for any number of variables. -/
theorem Engine.solverFor_congr {β : Type} {part : Solver α → β} {e e' : Engine α}
    {r r' : Solver α} (he : e.solver = some r) (he' : e'.solver = some r')
    (hdimension : r'.dimension = r.dimension) (h : part r' = part r) (n : Nat) :
    part (e'.solverFor n) = part (e.solverFor n) := by
  unfold solverFor
  rw [he, he']
  dsimp only
  rw [hdimension]
  split
  · exact h
  · rfl

/-- Two runs of a search: the setting of the first one and how the second one may differ. -/
structure Twins (α : Type) [Scalar α] extends Pairing where
  /-- The setting of the first run. -/
  setting : Setting α
  /-- Whether the second run tries a gradient step. -/
  gradient' : Bool := setting.options.tryGradientStep
  /-- Whether the engines of both runs have the same past. -/
  samePast : Bool := true
  /-- Whether it is compared what the runs report. -/
  reporting : Bool := true
  /-- The lines that the first run has reported before. -/
  before : List (ProgressLine α) := []
  /-- The lines that the second run has reported before. -/
  before' : List (ProgressLine α) := []

namespace Twins

/-- The setting of the second run; its limit is as much higher as it is ahead. -/
def second (f : Twins α) : Setting α :=
  { f.setting with
    options := { f.setting.options with
      tryGradientStep := f.gradient'
      iterationLimit := f.setting.options.iterationLimit + f.lead } }

/-- Nothing that the runs do depends on how they may differ: minimizer and rule either are
memoryless or have the same past, with as many lines reported, and where only one run
evaluates a gradient this does not fail. -/
structure Fair (f : Twins α) : Prop where
  alike : f.samePast = true ∧ f.before'.length = f.before.length ∨ f.setting.Memoryless
  differentiable : f.apart = true → f.setting.oracle.Differentiable

/-- The runs report the same lines but for the lead, after those they have reported
before. -/
structure Reports (f : Twins α) (r r' : Report (ProgressLine α)) : Prop where
  pending_eq : r'.pending = r.pending.map fun line => (line.1, line.2.ahead f.lead)
  lines_eq : ∃ new, r.lines.toList = f.before ++ new ∧
    r'.lines.toList = f.before' ++ new.map (ProgressLine.ahead f.lead)

/-- The states of the two runs match. -/
structure Matches (f : Twins α) (underway : Prop) (s t : SearchState α) : Prop where
  workspace : s.workspace.Matches f.setting.oracle f.toPairing s.Underway t.workspace
  fullCuts_eq : t.engine.fullCuts = s.engine.fullCuts
  aggregatedCuts_eq : t.engine.aggregatedCuts = s.engine.aggregatedCuts
  switched_eq : t.engine.switched = s.engine.switched
  outcome_eq : t.engine.outcome = s.engine.outcome
  solves_eq : t.engine.solves = s.engine.solves + f.lead
  ruleRecord_eq : f.samePast = true → t.engine.ruleRecord = s.engine.ruleRecord
  asked_eq : f.samePast = true → t.engine.consultations = s.engine.consultations
  setup_eq : ∀ n, (t.engine.solverFor n).setup = (s.engine.solverFor n).setup
  active_eq : s.Underway → t.engine.active = s.engine.active
  solver_eq : s.Underway → t.engine.solver = s.engine.solver
  consultations_eq : Search.consultations t.journal = Search.consultations s.journal
  reports : f.reporting = true → f.Reports s.engine.report t.engine.report
  underway : underway → s.Underway

/-- From matching states both actions come out with the same value, or are stopped by the
same fault, in states that match. -/
def Agree {β : Type} (f : Twins α) (underway : Prop) (act : SearchM α β) (s : SearchState α)
    (act' : SearchM α β) (t : SearchState α) : Prop :=
  Tandem act s act' t (fun b s' c t' => c = b ∧ f.Matches underway s' t') (f.Matches False)

namespace Agree

variable {f : Twins α} {p q : Prop} {s t : SearchState α} {β γ δ : Type}

/-- Two chains agree if their first actions do and what follows does. -/
theorem bind {act act' : SearchM α β} {g g' : β → SearchM α γ} (h : f.Agree p act s act' t)
    (hg : ∀ b s' t', f.Matches p s' t' → f.Agree q (g b) s' (g' b) t') :
    f.Agree q (act >>= g) s (act' >>= g') t := by
  refine Tandem.bind h ?_
  rintro _ s' value t' ⟨rfl, hm⟩
  exact hg value s' t' hm

/-- Two choices agree if they are made alike and both branches agree. -/
theorem ite {act act' other other' : SearchM α β} {c d : Prop} [Decidable c] [Decidable d]
    (hiff : c ↔ d) (h : f.Agree p act s act' t) (h' : f.Agree p other s other' t) :
    f.Agree p (if c then act else other) s (if d then act' else other') t :=
  Tandem.ite hiff (fun _ => h) fun _ => h'

end Agree

end Twins

section Reports

variable {f : Twins α} {r r' : Report (ProgressLine α)}

/-- The reports stay related when both get a line, one with the lead. -/
theorem Twins.Reports.add (h : f.Reports r r') (kind : LineKind) (line : ProgressLine α) :
    f.Reports (r.add kind line) (r'.add kind (line.ahead f.lead)) := by
  refine ⟨?_, h.lines_eq⟩
  unfold Report.add
  rw [Array.map_push, h.pending_eq]

/-- The reports stay related when both are emitted. -/
theorem Twins.Reports.flush (h : f.Reports r r') : f.Reports r.flush.1 r'.flush.1 := by
  obtain ⟨new, hlines, hlines'⟩ := h.lines_eq
  refine ⟨Array.map_empty.symm, new ++ r.pending.toList.map Prod.snd, ?_, ?_⟩
  · simp [Report.flush, hlines]
  · simp [Report.flush, hlines', h.pending_eq]

omit [Scalar α] in
/-- A line without a lead is the line itself. -/
theorem ProgressLine.ahead_zero (line : ProgressLine α) : line.ahead 0 = line := by
  have hfigures : ∀ figures : Figures α, figures.ahead 0 = figures := fun figures => by
    simp [Figures.ahead]
  cases line <;> simp [ahead, hfigures]

/-- Two reports to begin with. -/
theorem Twins.Reports.start (hlead : f.lead = 0) (hbefore : f.before = r.lines.toList)
    (hbefore' : f.before' = r'.lines.toList) (hpending : r'.pending = r.pending) :
    f.Reports r r' := by
  refine ⟨?_, [], ?_, ?_⟩
  · simp [hpending, hlead, ProgressLine.ahead_zero]
  · rw [hbefore, List.append_nil]
  · rw [hbefore', List.map_nil, List.append_nil]

/-- Runs that are level report the same lines after those they have reported before. -/
theorem Twins.Reports.lines_level (h : f.Reports r r') (hlead : f.lead = 0) :
    ∃ new, r.lines.toList = f.before ++ new ∧ r'.lines.toList = f.before' ++ new := by
  obtain ⟨new, hlines, hlines'⟩ := h.lines_eq
  have hahead : (ProgressLine.ahead 0 : ProgressLine α → ProgressLine α) = id :=
    funext ProgressLine.ahead_zero
  rw [hlead, hahead, List.map_id] at hlines'
  exact ⟨new, hlines, hlines'⟩

/-- The runs show the same text in place of figures that are missing. -/
theorem Twins.Reports.blankAfter_eq (h : f.Reports r r') (hf : f.Fair) :
    f.second.rule.blankAfter (r'.size + 1) = f.setting.rule.blankAfter (r.size + 1) := by
  rcases hf.alike with ⟨_, hbefore⟩ | hmemoryless
  · obtain ⟨new, hlines, hlines'⟩ := h.lines_eq
    have hsize : r'.size = r.size := by
      unfold Report.size
      have hsizes : r'.lines.size = r.lines.size := by
        rw [← r'.lines.length_toList, ← r.lines.length_toList, hlines, hlines',
          List.length_append, List.length_append, List.length_map, hbefore]
      rw [hsizes, h.pending_eq, Array.size_map]
    rw [hsize]
    rfl
  · exact congrArg (Option.getD · f.setting.rule.blank) (hmemoryless.blankAt?_eq _ _)

/-- Without a lead and with the same lines before, the reports are the same. -/
theorem Twins.Reports.eq (h : f.Reports r r') (hlead : f.lead = 0)
    (hbefore : f.before' = f.before) : r' = r := by
  obtain ⟨new, hlines, hlines'⟩ := h.lines_level hlead
  have hsame : r'.lines = r.lines := by
    rw [← Array.toList_inj, hlines, hlines', hbefore]
  have hpending : r'.pending = r.pending := by
    simp [h.pending_eq, hlead, ProgressLine.ahead_zero]
  cases r
  cases r'
  simp_all

end Reports

section Underway

variable {s : SearchState α}

/-- The journal tells of another solve if the new event is one. -/
theorem solvesOf_push (journal : Array (Event α)) (event : Event α) :
    solvesOf (journal.push event).toList = solvesOf journal.toList ++ solvesOf [event] := by
  rw [Array.toList_push, solvesOf_append]

/-- The journal tells of another question if the new event is one. -/
theorem Search.consultations_push (journal : Array (Event α)) (event : Event α) :
    consultations (journal.push event) = consultations journal ++ consultations #[event] := by
  unfold consultations
  rw [Array.toList_push, List.filterMap_append]

/-- A search that has written a solve is under way. -/
theorem SearchState.underway_logged_solved (s : SearchState α) : (s.logged .solved).Underway := by
  have hsolves := solvesOf_push s.journal (.solved s.toMoment)
  unfold Underway logged
  rw [hsolves]
  exact List.append_ne_nil_of_right_ne_nil _ (List.cons_ne_nil _ _)

end Underway

namespace Twins.Matches

variable {f : Twins α} {p q : Prop} {s t : SearchState α} {β γ : Type}

/-- States that match with trial points match without. -/
theorem imp (h : f.Matches p s t) (hq : q → p) : f.Matches q s t :=
  { h with underway := fun hq' => h.underway (hq hq') }

/-- The same value agrees. -/
theorem pure (h : f.Matches p s t) (b : β) :
    f.Agree p (pure b : SearchM α β) s (pure b) t := Tandem.of_pure ⟨rfl, h⟩

/-- Once a solve was made the trial points match. -/
theorem aligned (h : f.Matches p s t) (hunderway : s.Underway) : f.Matches True s t :=
  { h with underway := fun _ => hunderway }

/-- On the same course, the runs have the same solver. -/
theorem solver_eq' (h : f.Matches True s t) : t.solver = s.solver := by
  have hsolver := h.solver_eq (h.underway trivial)
  unfold Moment.solver Engine.solverFor
  rw [hsolver, h.workspace.figures.dimension_eq]

/-- The trial points of runs under way are the same. -/
theorem trial (h : f.Matches True s t) : Workspace.SameTrial f.toPairing s.workspace t.workspace :=
  h.workspace.trial (h.underway trivial)

/-- The solvers are set up alike all along. -/
theorem setup_solver_eq (h : f.Matches p s t) : t.solver.setup = s.solver.setup := by
  unfold Moment.solver
  rw [h.workspace.figures.dimension_eq]
  exact h.setup_eq _

/-- An event that is no solve and asks nothing else of the minimizer. -/
theorem logged (h : f.Matches p s t) {event event' : Moment α → Event α}
    (hsolve : solvesOf [event s.toMoment] = [])
    (hasked :
      Search.consultations #[event' t.toMoment] = Search.consultations #[event s.toMoment]) :
    f.Matches p (s.logged event) (t.logged event') := by
  have hunderway : (s.logged event).Underway ↔ s.Underway := by
    unfold SearchState.Underway SearchState.logged
    rw [solvesOf_push, hsolve, List.append_nil]
  refine { h with
    workspace := h.workspace.imp hunderway.mp
    active_eq := fun hs => h.active_eq (hunderway.mp hs)
    solver_eq := fun hs => h.solver_eq (hunderway.mp hs)
    consultations_eq := ?_
    underway := fun hp => hunderway.mpr (h.underway hp) }
  unfold SearchState.logged
  rw [Search.consultations_push, Search.consultations_push, h.consultations_eq, hasked]

/-- A solve, after which both runs are on the same course. -/
theorem logged_solved (h : f.Matches p s t) (hactive : t.engine.active = s.engine.active)
    (hsolver : t.engine.solver = s.engine.solver)
    (hw : s.workspace.Matches f.setting.oracle f.toPairing True t.workspace) :
    f.Matches True (s.logged .solved) (t.logged .solved) := by
  refine { h with
    workspace := hw.imp fun _ => trivial
    active_eq := fun _ => hactive
    solver_eq := fun _ => hsolver
    consultations_eq := ?_
    underway := fun _ => s.underway_logged_solved }
  unfold SearchState.logged
  rw [Search.consultations_push, Search.consultations_push, h.consultations_eq]
  rfl

/-- Operations on the workspaces. -/
theorem onWorkspace (h : f.Matches p s t) {act : WorkspaceM α β} {act' : WorkspaceM α γ}
    {post : β → Workspace α → γ → Workspace α → Prop}
    (hact : Tandem act s.workspace act' t.workspace post
      (Workspace.Matches f.setting.oracle f.toPairing s.Underway))
    (hpost : ∀ b w c w', post b w c w' →
      Workspace.Matches f.setting.oracle f.toPairing s.Underway w w') :
    Tandem (Search.onWorkspace act) s (Search.onWorkspace act') t
      (fun b s' c t' => ∃ w w', s' = { s with workspace := w } ∧ t' = { t with workspace := w' } ∧
        post b w c w' ∧ f.Matches p s' t') (f.Matches False) := by
  have hwith : ∀ w w', Workspace.Matches f.setting.oracle f.toPairing s.Underway w w' →
      f.Matches p { s with workspace := w } { t with workspace := w' } :=
    fun w w' hw => { h with workspace := hw }
  unfold Tandem at hact ⊢
  unfold Search.onWorkspace
  generalize act s.workspace = result at hact ⊢
  generalize act' t.workspace = result' at hact ⊢
  cases hact with
  | ok hok => exact .ok ⟨_, _, rfl, rfl, hok, hwith _ _ (hpost _ _ _ _ hok)⟩
  | error herror => exact .error ((hwith _ _ herror).imp False.elim)

/-- Operations on the workspaces that give the same value. -/
theorem onWorkspace_agree (h : f.Matches p s t) {act act' : WorkspaceM α β} {a : Prop}
    (hact : Tandem act s.workspace act' t.workspace
      (fun b w c w' => c = b ∧ Workspace.Matches f.setting.oracle f.toPairing a w w')
      (Workspace.Matches f.setting.oracle f.toPairing s.Underway)) (ha : s.Underway → a) :
    f.Agree p (Search.onWorkspace act) s (Search.onWorkspace act') t := by
  refine (h.onWorkspace hact fun _ _ _ _ hpost => hpost.2.imp ha).mono ?_
  rintro _ _ _ _ ⟨w, w', -, -, ⟨hvalue, -⟩, hm⟩
  exact ⟨hvalue, hm⟩

/-- What the runs notice may differ. -/
theorem note (h : f.Matches p s t) (notices notices' : List (Notice α)) :
    f.Agree p (Search.note notices) s (Search.note notices') t :=
  .of_ok rfl rfl ⟨rfl, { h with workspace := h.workspace.noticing _ _ }⟩

/-- What stops one run stops the other. -/
theorem orFault_tandem (h : f.Matches p s t) (result : Except (Fault α) β) {δ : Type}
    {g : β → SearchM α γ} {g' : β → SearchM α δ}
    {final : γ → SearchState α → δ → SearchState α → Prop}
    (hg : ∀ b, result = .ok b → Tandem (g b) s (g' b) t final (f.Matches False)) :
    Tandem (Search.orFault result >>= g) s (Search.orFault result >>= g') t final
      (f.Matches False) := by
  cases result with
  | ok b => exact .read rfl rfl (hg b rfl)
  | error fault =>
    exact .of_error (bind_of_error rfl) (bind_of_error rfl) (h.imp False.elim)

/-- The runs stop at the same fault or go on with the same value. -/
theorem orFault_bind (h : f.Matches p s t) (result : Except (Fault α) β) {g g' : β → SearchM α γ}
    (hg : ∀ b, result = .ok b → f.Agree q (g b) s (g' b) t) :
    f.Agree q (Search.orFault result >>= g) s (Search.orFault result >>= g') t :=
  h.orFault_tandem result hg

/-- Reading the states. -/
theorem read {act act' : SearchM α β} {b c : β} {g g' : β → SearchM α γ} (_ : f.Matches p s t)
    (hr : act s = .ok b s) (hr' : act' t = .ok c t) (hg : f.Agree q (g b) s (g' c) t) :
    f.Agree q (act >>= g) s (act' >>= g') t := Tandem.read hr hr' hg

/-- Cuts that are loaded make the solvers the same but for the results of the last solve. -/
theorem load (h : f.Matches p s t) (cuts : List (Cut α)) (active : ActiveCuts α) :
    Tandem (Search.load cuts active) s (Search.load cuts active) t
      (fun _ s' _ t' => f.Matches p s' t' ∧ t'.engine.active = s'.engine.active ∧
        t'.solver.unsolved = s'.solver.unsolved) (f.Matches False) := by
  unfold Search.load
  refine .read (Search.workspace_run s) (Search.workspace_run t) ?_
  rw [h.workspace.points.pointAt_eq]
  refine h.orFault_tandem _ fun slopes _ => ?_
  refine .read (Search.solver_run s) (Search.solver_run t) ?_
  rcases Solver.load_setup h.setup_solver_eq slopes (cuts.map Cut.bias) with
    ⟨fault, hs, ht⟩ | ⟨r, r', hs, ht, hr⟩
  · rw [hs, ht]
    exact h.orFault_tandem (.error fault : Except (Fault α) (Solver α)) fun _ hok => by cases hok
  · have hdimension : r'.dimension = r.dimension :=
      congrArg Subproblem.dimension (Solver.subproblem_of_unsolved hr)
    refine .read (Search.orFault_ok hs) (Search.orFault_ok ht) (.of_ok rfl rfl ⟨?_, rfl, ?_⟩)
    · refine { h with active_eq := fun _ => rfl, setup_eq := ?_, solver_eq := fun hunderway => ?_ }
      · exact Engine.solverFor_congr rfl rfl hdimension (Solver.setup_of_unsolved hr)
      · rw [(h.aligned hunderway).solver_eq', hs] at ht
        cases ht
        rfl
    · change (Engine.solverFor _ t.workspace.dimension).unsolved = _
      rw [h.workspace.figures.dimension_eq]
      exact Engine.solverFor_congr rfl rfl hdimension hr _

/-- With the same result held, both runs take its step and record the solve. -/
theorem takes (h : f.Matches p s t) (hactive : t.engine.active = s.engine.active)
    (hsolver : t.engine.solver = s.engine.solver) (solver : Solver α) :
    f.Agree True
      (Search.onWorkspace (Search.takeStep solver) >>= fun _ => Search.record .solved >>=
        fun _ => Pure.pure solver.status) s
      (Search.onWorkspace (Search.takeStep solver) >>= fun _ => Search.record .solved >>=
        fun _ => Pure.pure solver.status) t := by
  have hstep := h.workspace.takeStep solver
  refine Tandem.bind (h.onWorkspace hstep fun _ _ _ _ hw => hw.imp fun _ => trivial) ?_
  rintro _ _ _ _ ⟨w, w', rfl, rfl, hw, hm⟩
  exact .of_ok rfl rfl ⟨rfl, hm.logged_solved hactive hsolver hw⟩

/-- The runs store the same result of a solve. -/
theorem store (h : f.Matches p s t) (hactive : t.engine.active = s.engine.active)
    (made : Solver.Solved α) :
    f.Agree True (Search.store made) s (Search.store made) t := by
  obtain ⟨solver, consultation, notices⟩ := made
  have hheld : f.Matches p
      ⟨⟨{ s.workspace with notices := s.workspace.notices ++ notices },
        { s.engine with solver := some solver, solves := s.engine.solves + 1 }⟩, s.journal⟩
      ⟨⟨{ t.workspace with notices := t.workspace.notices ++ notices },
        { t.engine with solver := some solver, solves := t.engine.solves + 1 }⟩, t.journal⟩ := by
    refine { h with
      workspace := h.workspace.noticing _ _
      solves_eq := ?_
      setup_eq := Engine.solverFor_congr rfl rfl rfl rfl
      solver_eq := fun _ => rfl }
    change t.engine.solves + 1 = s.engine.solves + 1 + f.lead
    rw [h.solves_eq, Nat.add_right_comm]
  cases consultation with
  | none => exact hheld.takes hactive rfl solver
  | some consultation =>
    have hasked : f.Matches p
        ⟨⟨{ s.workspace with notices := s.workspace.notices ++ notices },
          { s.engine with
            solver := some solver
            solves := s.engine.solves + 1
            consultations := s.engine.consultations + 1 }⟩, s.journal⟩
        ⟨⟨{ t.workspace with notices := t.workspace.notices ++ notices },
          { t.engine with
            solver := some solver
            solves := t.engine.solves + 1
            consultations := t.engine.consultations + 1 }⟩, t.journal⟩ :=
      { hheld with asked_eq := fun hpast => congrArg (· + 1) (h.asked_eq hpast) }
    have hlogged : f.Matches p (SearchState.logged _ fun _ => .consulted consultation)
      (SearchState.logged _ fun _ => .consulted consultation) := hasked.logged rfl rfl
    exact hlogged.takes hactive rfl solver

/-- With the same answer to come, both runs solve and take the step. -/
theorem solve (h : f.Matches p s t) {warm : Bool} (hactive : t.engine.active = s.engine.active)
    (hanswer : t.answer f.second warm = s.answer f.setting warm) :
    f.Agree True (Search.solve f.setting warm) s (Search.solve f.second warm) t := by
  have hstore := h.store hactive (s.answer f.setting warm)
  have hrun : f.Agree True (Search.store (s.answer f.setting warm)) s
      (Search.store (t.answer f.second warm)) t := hanswer ▸ hstore
  exact hrun

/-- What the minimizer is asked next gets the same answer in both runs. -/
theorem ask_eq (h : f.Matches p s t) (hf : f.Fair) :
    t.toMoment.ask f.second = s.toMoment.ask f.setting := by
  rcases hf.alike with ⟨hpast, _⟩ | hmemoryless
  · exact congrArg f.setting.minimizer (h.asked_eq hpast)
  · exact hmemoryless.minimizer_eq _ _

/-- A cold solve of solvers with the same planes. -/
theorem solve_cold (h : f.Matches p s t) (hf : f.Fair)
    (hactive : t.engine.active = s.engine.active)
    (hsolver : t.solver.unsolved = s.solver.unsolved) :
    f.Agree True (Search.solve f.setting false) s (Search.solve f.second false) t := by
  refine h.solve hactive ?_
  change t.solver.solve (t.toMoment.ask f.second) = s.solver.solve (s.toMoment.ask f.setting)
  rw [h.ask_eq hf, ← t.solver.solve_unsolved, hsolver, s.solver.solve_unsolved]

/-- Loading cuts and solving for them. -/
theorem resolve_bind (h : f.Matches p s t) (hf : f.Fair) (cuts : List (Cut α))
    (active : ActiveCuts α) {g g' : SolveStatus → SearchM α β}
    (hg : ∀ status s' t', f.Matches True s' t' → f.Agree q (g status) s' (g' status) t') :
    f.Agree q (Search.load cuts active >>= fun _ => Search.solve f.setting false >>= g) s
      (Search.load cuts active >>= fun _ => Search.solve f.second false >>= g') t := by
  refine Tandem.bind (h.load cuts active) ?_
  rintro _ _ _ _ ⟨hm, hactive, hsolver⟩
  exact (hm.solve_cold hf hactive hsolver).bind hg

/-- A warm solve on the same course. -/
theorem solve_warm (h : f.Matches True s t) (hf : f.Fair) :
    f.Agree True (Search.solve f.setting true) s (Search.solve f.second true) t := by
  refine h.solve (h.active_eq (h.underway trivial)) ?_
  change t.solver.solveWarm (t.toMoment.ask f.second) =
    s.solver.solveWarm (s.toMoment.ask f.setting)
  rw [h.ask_eq hf, h.solver_eq']

/-- The rule decides alike in both runs. -/
theorem asked (h : f.Matches True s t) (hf : f.Fair) :
    f.Matches True (s.on (s.asked f.setting)) (t.on (t.asked f.second)) ∧
      (t.asked f.second).engine.ruleRecord.fired = (s.asked f.setting).engine.ruleRecord.fired := by
  have hverdict : f.second.rule.verdict t.engine.ruleRecord.checks =
      f.setting.rule.verdict s.engine.ruleRecord.checks := by
    rcases hf.alike with ⟨hpast, _⟩ | hmemoryless
    · exact congrArg (fun r : RuleRecord => f.setting.rule.verdict r.checks) (h.ruleRecord_eq hpast)
    · exact hmemoryless.verdict_eq _ _
  have hrecord : ∀ fired, f.samePast = true →
      (⟨t.engine.ruleRecord.checks + 1, fired⟩ : RuleRecord) =
        ⟨s.engine.ruleRecord.checks + 1, fired⟩ := by
    intro fired hpast
    rw [h.ruleRecord_eq hpast]
  unfold Moment.asked RadiusRule.ask
  dsimp only
  rw [h.solver_eq', h.workspace.figures.radii_eq, hverdict]
  generalize f.setting.rule.verdict s.engine.ruleRecord.checks s.workspace.radii s.solver.status
    s.solver.combinationNormInf = verdict
  obtain ⟨fires, radii⟩ := verdict
  exact ⟨{ h with
    workspace := (h.workspace.resized radii).noticing _ _
    ruleRecord_eq := hrecord fires }, rfl⟩

/-- A step decreases the objective enough in both runs or in none. -/
theorem decreases_eq (h : f.Matches True s t) (stepsize : α) :
    Search.decreases f.second.options t.workspace t.solver stepsize =
      Search.decreases f.setting.options s.workspace s.solver stepsize := by
  have htrial := (h.workspace.trialSample (h.underway trivial)).2
  unfold Search.decreases
  rw [htrial, h.workspace.points.currentSample_eq, h.solver_eq']
  rfl

/-- Both runs accept the trial point or both do not. -/
theorem accepts (h : f.Matches True s t) (hf : f.Fair) (evaluated : Bool) (stepsize : α) :
    f.Agree True (Search.accepts f.setting evaluated stepsize) s
      (Search.accepts f.second evaluated stepsize) t := by
  obtain ⟨hasked, hfired⟩ := h.asked hf
  refine .of_ok (Search.accepts_run f.setting evaluated stepsize s)
    (Search.accepts_run f.second evaluated stepsize t) ⟨?_, hasked.logged rfl rfl⟩
  have hdecreases := hasked.decreases_eq stepsize
  unfold Moment.accepting
  rw [hfired]
  exact congrArg (fun b => (evaluated && b) || _) hdecreases

end Twins.Matches

end NonsmoothDescent

import NonsmoothDescent.Proofs.Descent.Iteration

/-!
# A descent only goes down

A descent visits the states after its complete iterations and ends in one of them, or in one
after a search that has failed. In exact arithmetic it always comes to its end. From every
state to every later one the value at the current point has not risen, and has fallen if the
point was replaced; the radii have kept their ratio and not grown; the bundle has only grown.
An iteration that keeps the current point halves the radii, and the descent ends when the
stationarity radius is small. So the number of such iterations is at most logarithmic.
-/

namespace NonsmoothDescent.Descent

section Generic

variable {α : Type} [Scalar α]

/-- The course of a descent with so many iterations left: the states after its complete
iterations, and the one in which it ends. -/
inductive Visits (setting : Setting α) (tolerance : α) :
    Nat → SearchState α → List (SearchState α) → SearchState α → Prop where
  | exhausted (s : SearchState α) : Visits setting tolerance 0 s [] s
  | stopped {fuel : Nat} {s s' : SearchState α} {outcome : Outcome}
      (hconclude : Search.conclude setting s = .ok outcome s') (houtcome : outcome ≠ .success) :
      Visits setting tolerance (fuel + 1) s [] s'
  | small {fuel : Nat} {s s' : SearchState α} (h : Iterates setting s s')
      (hsmall : s'.workspace.radii.stationarity ≤ tolerance) :
      Visits setting tolerance (fuel + 1) s [s'] s'
  | onward {fuel : Nat} {s s' final : SearchState α} {visited : List (SearchState α)}
      (h : Iterates setting s s') (hlarge : ¬ s'.workspace.radii.stationarity ≤ tolerance)
      (hrest : Visits setting tolerance fuel s' visited final) :
      Visits setting tolerance (fuel + 1) s (s' :: visited) final

/-- How many of consecutive states have the current point of the one before. -/
def kept (states : List (SearchState α)) : Nat :=
  (states.zip states.tail).countP fun pair =>
    pair.2.workspace.current = pair.1.workspace.current

/-- A state in which the current point was kept counts once. -/
theorem kept_cons (s s' : SearchState α) (rest : List (SearchState α)) :
    kept (s :: s' :: rest) =
      kept (s' :: rest) + if s'.workspace.current = s.workspace.current then 1 else 0 := by
  unfold kept
  simp only [List.tail_cons, List.zip_cons_cons, List.countP_cons, decide_eq_true_eq]

variable {setting : Setting α} {tolerance : α} {fuel : Nat} {s s' : SearchState α}

/-- What an iteration that is complete is followed by. -/
theorem iterate_of_iterates (h : Iterates setting s s') (number : Nat) :
    ∃ asked, iterate setting tolerance (fuel + 1) number s =
      if s'.workspace.radii.stationarity ≤ tolerance then
        .ok ⟨[iterationLine number s'], asked⟩ s'
      else (iterate setting tolerance fuel (number + 1) >>= fun rest =>
        pure ⟨iterationLine number s' :: rest.lines, asked ++ rest.consultations⟩) s' := by
  obtain ⟨s₁, hconclude, hmove⟩ := h
  refine ⟨Search.consultations s₁.journal, ?_⟩
  rw [iterate, bind_of_ok hconclude]
  change (Search.onWorkspace (move setting.oracle) >>= _) s₁ = _
  rw [bind_of_ok hmove]
  change (if s'.workspace.radii.stationarity ≤ tolerance then _ else _ : SearchM α _) s' = _
  split
  · rfl
  · rfl

/-- An iteration that is stopped is the last. -/
theorem iterate_of_stopped {outcome : Outcome}
    (hconclude : Search.conclude setting s = .ok outcome s') (houtcome : outcome ≠ .success)
    (number : Nat) : iterate setting tolerance (fuel + 1) number s =
      .ok ⟨[.stopped outcome], Search.consultations s'.journal⟩ s' := by
  rw [iterate, bind_of_ok hconclude]
  change (if outcome ≠ .success then _ else _ : SearchM α _) s' = _
  rw [if_pos houtcome]
  rfl

end Generic

section Exact

variable {K : Type} [Field K] [LinearOrder K] [FloorRing K] [IsStrictOrderedRing K]
  {setting : Setting K} {tolerance : K} {fuel : Nat} {s final : SearchState K}
  {visited : List (SearchState K)}

/-- A descent always comes to its end. -/
theorem iterate_leads (hrule : setting.rule = ShrinkRule.standard.toRule)
    (ho : setting.oracle.Total) (h : Ready setting.oracle s.workspace) (number : Nat) :
    Leads (iterate setting tolerance fuel number) s fun _ final =>
      ∃ visited, Visits setting tolerance fuel s visited final := by
  induction fuel generalizing s number with
  | zero => exact ⟨_, s, rfl, [], .exhausted s⟩
  | succ fuel ih =>
    obtain ⟨outcome, s₁, hconclude, hcall⟩ := conclude_leads h.wellFormed
    by_cases houtcome : outcome = .success
    · subst houtcome
      rw [if_neg (by decide)] at hcall
      obtain ⟨hready, _⟩ := sinks_of_call hrule h ho hcall
      obtain ⟨_, w, hmove, _⟩ := move_leads hready ho hcall.poised
      have hiterates : Iterates setting s { s₁ with workspace := w } :=
        ⟨s₁, hconclude, Search.onWorkspace_ok hmove⟩
      obtain ⟨asked, hrun⟩ := iterate_of_iterates hiterates number
      unfold Leads
      rw [hrun]
      by_cases hsmall : w.radii.stationarity ≤ tolerance
      · rw [if_pos hsmall]
        exact ⟨_, _, rfl, _, .small hiterates hsmall⟩
      · rw [if_neg hsmall]
        obtain ⟨hready', _⟩ := sinks_of_iteration hrule h ho hiterates
        obtain ⟨rest, final, hrest, visited, hvisits⟩ := ih hready' (number + 1)
        rw [bind_of_ok hrest]
        exact ⟨_, final, rfl, _, .onward hiterates hsmall hvisits⟩
    · exact ⟨_, s₁, iterate_of_stopped hconclude houtcome number, _,
        .stopped hconclude houtcome⟩

/-- Nothing has risen from the start to any state that is visited, or to the last one. -/
theorem Visits.sinks (hrule : setting.rule = ShrinkRule.standard.toRule)
    (ho : setting.oracle.Total) (hvisits : Visits setting tolerance fuel s visited final)
    (h : Ready setting.oracle s.workspace) : ∀ t ∈ visited ++ [final],
      Ready setting.oracle t.workspace ∧ s.workspace.Sinks setting.oracle t.workspace := by
  induction hvisits with
  | exhausted s =>
    refine List.forall_mem_singleton.mpr ⟨h, ?_⟩
    exact sinks_of_grows h ho (.refl _) h.scaled le_rfl
  | stopped hconclude houtcome =>
    have hcall := (conclude_leads h.wellFormed).of_run hconclude
    refine List.forall_mem_singleton.mpr ?_
    split at hcall <;> exact sinks_of_call hrule h ho hcall
  | small hiterates =>
    obtain ⟨hready, hsinks, _⟩ := sinks_of_iteration hrule h ho hiterates
    exact List.forall_mem_cons.mpr ⟨⟨hready, hsinks⟩,
      List.forall_mem_singleton.mpr ⟨hready, hsinks⟩⟩
  | onward hiterates _ _ ih =>
    obtain ⟨hready, hsinks, _⟩ := sinks_of_iteration hrule h ho hiterates
    refine List.forall_mem_cons.mpr ⟨⟨hready, hsinks⟩, fun t ht => ?_⟩
    obtain ⟨hready', hsinks'⟩ := ih hready t ht
    exact ⟨hready', hsinks.trans hsinks'⟩

/-- So it is from every state to every later one. -/
theorem Visits.pairwise_sinks (hrule : setting.rule = ShrinkRule.standard.toRule)
    (ho : setting.oracle.Total) (hvisits : Visits setting tolerance fuel s visited final)
    (h : Ready setting.oracle s.workspace) : (s :: (visited ++ [final])).Pairwise
      fun t t' => t.workspace.Sinks setting.oracle t'.workspace := by
  refine List.pairwise_cons.mpr ⟨fun t ht => (hvisits.sinks hrule ho h t ht).2, ?_⟩
  induction hvisits with
  | exhausted | stopped => exact List.pairwise_singleton _ _
  | small hiterates =>
    obtain ⟨hready, _⟩ := sinks_of_iteration hrule h ho hiterates
    refine List.pairwise_pair.mpr ?_
    exact sinks_of_grows hready ho (.refl _) hready.scaled le_rfl
  | onward hiterates _ hrest ih =>
    obtain ⟨hready, _⟩ := sinks_of_iteration hrule h ho hiterates
    exact List.pairwise_cons.mpr
      ⟨fun t ht => (hrest.sinks hrule ho hready t ht).2, ih hready⟩

/-- An iteration that keeps the current point halves the radii. -/
theorem Visits.isChain_halved (hrule : setting.rule = ShrinkRule.standard.toRule)
    (ho : setting.oracle.Total) (hvisits : Visits setting tolerance fuel s visited final)
    (h : Ready setting.oracle s.workspace) : (s :: visited).IsChain fun t t' =>
      t'.workspace.current = t.workspace.current →
        t.workspace.radii.Halved t'.workspace.radii := by
  induction hvisits with
  | exhausted | stopped => exact .singleton _
  | small hiterates =>
    exact .cons_cons (sinks_of_iteration hrule h ho hiterates).2.2 (.singleton _)
  | onward hiterates _ _ ih =>
    obtain ⟨hready, _, hhalved⟩ := sinks_of_iteration hrule h ho hiterates
    exact .cons_cons hhalved (ih hready)

/-- While a descent goes on its stationarity radius is above the tolerance, so the first one
was at least as many times halved as points were kept since, but one. -/
theorem Visits.kept_le (hrule : setting.rule = ShrinkRule.standard.toRule)
    (ho : setting.oracle.Total) (hvisits : Visits setting tolerance fuel s visited final)
    (h : Ready setting.oracle s.workspace) : kept (s :: visited) ≤ 1 ∨
      2 ^ (kept (s :: visited) - 1) * tolerance < s.workspace.radii.stationarity := by
  induction hvisits with
  | exhausted | stopped => exact .inl (Nat.zero_le _)
  | @small _ s s' =>
    left
    rw [kept_cons]
    split <;> simp [kept]
  | @onward fuel s s' final visited hiterates hlarge _ ih =>
    obtain ⟨hready, hsinks, hhalved⟩ := sinks_of_iteration hrule h ho hiterates
    have hlarge := not_le.mp hlarge
    rw [kept_cons]
    by_cases hkept : s'.workspace.current = s.workspace.current
    · rw [if_pos hkept, Nat.add_sub_cancel]
      cases hcount : kept (s' :: visited) with
      | zero => exact .inl le_rfl
      | succ n =>
        -- the radius was above the tolerance when the next point was kept
        have hrest : 2 ^ n * tolerance < s'.workspace.radii.stationarity := by
          rcases ih hready with hfew | hmany
          · obtain rfl : n = 0 := by omega
            rwa [pow_zero, one_mul]
          · rwa [hcount] at hmany
        have hhalf := (hhalved hkept).stationarity_le
        right
        rw [pow_succ]
        linarith
    · rw [if_neg hkept, add_zero]
      exact (ih hready).imp_right fun hmany => hmany.trans_le hsinks.stationarity_le

end Exact

section Run

variable {K : Type} [Field K] [LinearOrder K] [FloorRing K]

/-- The nonsmooth Rosenbrock function has all values and gradients. -/
theorem total_rosenbrock : (rosenbrock : Oracle K).Total := by
  intro x hx
  match x, hx with
  | [a, b], _ => exact ⟨Rosenbrock.valueAt a b, rfl⟩

variable [IsStrictOrderedRing K]

/-- A descent can start at every point of the plane. -/
theorem exists_start (clock : Nat → K) (x y : K) :
    ∃ first, Workspace.create 2 clock {} (.row [.number x, .number y]) = .ok first ∧
      Ready rosenbrock first ∧ first.radii = ⟨1 / 10, 1⟩ := by
  have hstationarity : ¬ (0.1 : K) ≤ 0 := by norm_num
  have htrust : ¬ (1.0 : K) ≤ 0 := by norm_num
  have htime : ¬ (10000.0 : K) < 0 := by norm_num
  obtain ⟨first, hcreate, hradii⟩ : ∃ first,
      Workspace.create (rosenbrock : Oracle K).dimension clock {}
        (.row [.number x, .number y]) = .ok first ∧ first.radii = ⟨0.1, 1.0⟩ :=
    ⟨_, Workspace.create_eq hstationarity htrust htime rfl, rfl⟩
  refine ⟨first, hcreate, ⟨Workspace.wellFormed_create hcreate, ?_⟩, hradii.trans (by norm_num)⟩
  rw [hradii]
  exact ⟨by norm_num, by norm_num⟩

/-- Counting halvings by logarithms. -/
theorem le_clog_of_pow_lt {n : Nat} {tolerance radius : K} (htolerance : 0 < tolerance)
    (hradius : 0 < radius) (h : n ≤ 1 ∨ 2 ^ (n - 1) * tolerance < radius) :
    (n : ℤ) ≤ max 1 (Int.clog 2 (radius / tolerance)) := by
  rcases h with hfew | hmany
  · exact le_max_of_le_left (by exact_mod_cast hfew)
  · cases n with
    | zero => exact le_max_of_le_left (by norm_num)
    | succ n =>
      have hpow : ((2 : Nat) : K) ^ (n : ℤ) < radius / tolerance := by
        rw [lt_div_iff₀ htolerance]
        exact_mod_cast hmany
      have hlog := (Int.zpow_lt_iff_lt_clog one_lt_two (div_pos hradius htolerance)).mp hpow
      exact le_max_of_le_right (by push_cast; omega)

/-- A run is the course of a descent from its start. -/
theorem exists_run (clock : Nat → K) (minimizer : Minimizer K) (x y : K) (iterations : Nat)
    (tolerance : K) : ∃ first visited final record,
      Workspace.create 2 clock {} (.row [.number x, .number y]) = .ok first ∧
      Ready rosenbrock first ∧ first.radii = ⟨1 / 10, 1⟩ ∧
      run clock minimizer (.row [.number x, .number y]) iterations tolerance =
        .ok (final, record) ∧
      Visits (setting clock minimizer) tolerance iterations { workspace := first, engine := {} }
        visited final := by
  obtain ⟨first, hcreate, hready, hradii⟩ := exists_start clock x y
  have hcourse : Leads (iterate (setting clock minimizer) tolerance iterations 0)
      { workspace := first, engine := {} } fun _ final => ∃ visited,
        Visits (setting clock minimizer) tolerance iterations { workspace := first, engine := {} }
          visited final := iterate_leads rfl total_rosenbrock hready 0
  obtain ⟨made, final, hiterate, visited, hvisits⟩ := hcourse
  obtain ⟨record, hdescend⟩ : ∃ record, descend (setting clock minimizer) iterations tolerance
      { workspace := first, engine := {} } = .ok record final := by
    unfold descend
    rw [bind_of_ok hiterate]
    exact ⟨_, rfl⟩
  refine ⟨first, visited, final, record, hcreate, hready, hradii, ?_, hvisits⟩
  unfold run
  change (Workspace.create 2 clock {} _ >>= _) = _
  rw [hcreate]
  dsimp only [bind, Except.bind]
  rw [hdescend]
  rfl

/-- Over exact arithmetic every run, from every point of the plane and with any answers of the
minimizer, comes to its end. From the start to the end the value at the current point never
rises, and falls whenever the point is replaced; the radii stay positive, never grow and keep
their ratio; the bundle only grows. A complete iteration that keeps the current point halves
the radii, and the number of such iterations is at most one, or the logarithm of the first
radius over the tolerance, rounded up. -/
theorem descent_only_goes_down (clock : Nat → K) (minimizer : Minimizer K) (x y : K)
    (iterations : Nat) {tolerance : K} (htolerance : 0 < tolerance) :
    ∃ first visited final record,
      Workspace.create 2 clock {} (.row [.number x, .number y]) = .ok first ∧
      run clock minimizer (.row [.number x, .number y]) iterations tolerance =
        .ok (final, record) ∧
      let start : SearchState K := { workspace := first, engine := {} }
      Visits (setting clock minimizer) tolerance iterations start visited final ∧
      (∀ s ∈ start :: (visited ++ [final]), s.workspace.radii.Scaled) ∧
      ((start :: (visited ++ [final])).Pairwise fun s s' =>
        s.workspace.Sinks rosenbrock s'.workspace) ∧
      ((start :: visited).IsChain fun s s' =>
        s'.workspace.current = s.workspace.current →
          s.workspace.radii.Halved s'.workspace.radii) ∧
      (kept (start :: visited) : ℤ) ≤ max 1 (Int.clog 2 (1 / 10 / tolerance)) := by
  obtain ⟨first, visited, final, record, hcreate, hready, hradii, hrun, hvisits⟩ :=
    exists_run clock minimizer x y iterations tolerance
  have hrule : (setting clock minimizer).rule = ShrinkRule.standard.toRule := rfl
  have hkept := hvisits.kept_le hrule total_rosenbrock hready
  have hlater := hvisits.sinks hrule total_rosenbrock hready
  refine ⟨first, visited, final, record, hcreate, hrun, hvisits, ?_,
    hvisits.pairwise_sinks hrule total_rosenbrock hready,
    hvisits.isChain_halved hrule total_rosenbrock hready, ?_⟩
  · exact List.forall_mem_cons.mpr ⟨hready.scaled, fun s hs => (hlater s hs).1.scaled⟩
  · refine le_clog_of_pow_lt htolerance (by norm_num) (hkept.imp_right fun hmany => ?_)
    rwa [hradii] at hmany

end Run

/-- A minimizer that gives the same weight to both of two planes. -/
def halves : Minimizer ℚ := fun _ _ => ⟨[1 / 2, 1 / 2], 0, 1, ""⟩

/-- Height and stationarity radius at the end of a descent from the origin. -/
def fromOrigin (iterations : Nat) (tolerance : ℚ) : Option (Option ℚ × ℚ) :=
  match run (fun _ => 0) halves (.row [.number 0, .number 0]) iterations tolerance with
  | .ok (s, _) => some (s.workspace.height rosenbrock, s.workspace.radii.stationarity)
  | .error _ => none

/-- From the origin a descent reaches the minimum. It then keeps the current point, and one
halving of the radii makes them as small as the tolerance. -/
theorem descent_only_goes_down_from_origin :
    (0 : ℚ) < 1 / 20 ∧ ∃ start visited final,
      Visits (setting (fun _ => 0) halves) (1 / 20) 2 start visited final ∧
      (start :: (visited ++ [final])).Pairwise (fun s s' =>
        s.workspace.Sinks rosenbrock s'.workspace) ∧
      kept (start :: visited) ≤ 1 ∧
      final.workspace.height rosenbrock = some 0 ∧
      final.workspace.radii.stationarity = 1 / 20 := by
  have htolerance : (0 : ℚ) < 1 / 20 := by norm_num
  obtain ⟨first, visited, final, record, _, hrun, hvisits, _, hsinks, _, hkept⟩ :=
    descent_only_goes_down (fun _ => 0) halves (0 : ℚ) 0 2 htolerance
  have hend : fromOrigin 2 (1 / 20) = some (some 0, 1 / 20) := by decide +kernel
  have hfinal : fromOrigin 2 (1 / 20) =
      some (final.workspace.height rosenbrock, final.workspace.radii.stationarity) := by
    unfold fromOrigin
    rw [hrun]
  obtain ⟨hheight, hradius⟩ := Prod.mk.inj (Option.some.inj (hfinal.symm.trans hend))
  have hlog : Int.clog 2 (1 / 10 / (1 / 20) : ℚ) = 1 := by
    have htwo : (1 / 10 / (1 / 20) : ℚ) = ((2 : ℕ) : ℚ) ^ (1 : ℤ) := by norm_num
    rw [htwo, Int.clog_zpow one_lt_two]
  rw [hlog, max_self] at hkept
  exact ⟨htolerance, _, visited, final, hvisits, hsinks, by exact_mod_cast hkept, hheight, hradius⟩

end NonsmoothDescent.Descent

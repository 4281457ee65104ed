import NonsmoothDescent.Proofs.Options
import NonsmoothDescent.Proofs.Search.Holdings
import NonsmoothDescent.Proofs.Search.Trial
import NonsmoothDescent.Proofs.Search.Weights

/-!
# Where the cuts come from

A step makes cuts in three ways only: at the current point, at a sampled point, and by
combining the planes that the solver has weighted. Unless far points are added or the rule
changes the radii without firing, the sampled points are near: those of the bundle lie within
the stationarity radius, the end of a full step is taken only if the step is no longer than
that, and the end of a shortened step lies within a multiple of it.
-/

namespace NonsmoothDescent

variable {K : Type} [Field K] [LinearOrder K] [FloorRing K]

/-- How far from the current point a search samples. -/
def Options.reach (options : Options K) (radius : K) : K := max 1 options.shortenedStepsize * radius

section Distance

/-- A sample is near if the largest entry of the difference is within the radius. -/
theorem isNear_iff {x : List K} {radius : K} {s : Sample K} :
    Cut.isNear x radius s = true ↔ Vec.normInf (Vec.sub x s.position) ≤ radius := by
  unfold Cut.isNear
  rw [decide_eq_true_iff]
  rfl

/-- A moved sample differs from the old one by the step. -/
theorem mem_sub_moved {s : Sample K} {t a : K} {d : List K}
    (h : a ∈ Vec.sub s.position (s.moved t d).position) : ∃ b ∈ d, a = -(t * b) := by
  unfold Sample.moved Vec.sub at h
  dsimp only at h
  generalize s.position = x at h
  induction d generalizing x with
  | nil => simp at h
  | cons b d ih =>
    cases x with
    | nil => simp at h
    | cons c x =>
      rw [List.map_cons, List.map_cons, List.zipWith_cons_cons, List.zipWith_cons_cons] at h
      rcases List.mem_cons.mp h with rfl | hrest
      · exact ⟨b, List.mem_cons_self, by ring⟩
      · obtain ⟨b', hb', rfl⟩ := ih x hrest
        exact ⟨b', List.mem_cons_of_mem b hb', rfl⟩

/-- A place that is near stays near. -/
theorem isNear_grows {w w' : Workspace K} {r : K} {id : SampleId} (hg : w.Grows w')
    (hc : w.current < w.samples.size) (hid : id < w.samples.size)
    (h : Cut.isNear w.currentSample.position r (w.sampleAt id) = true) :
    Cut.isNear w'.currentSample.position r (w'.sampleAt id) = true := by
  rw [isNear_iff] at h ⊢
  rwa [(hg.currentSample hc).position_eq, (hg.refines id hid).position_eq]

variable [IsStrictOrderedRing K]

/-- The end of a step is as far from the current point as the step is long. -/
theorem normInf_sub_moved_le (s : Sample K) {t r : K} {d : List K} (ht : 0 ≤ t)
    (hr : t * Vec.normInf d ≤ r) :
    Vec.normInf (Vec.sub s.position (s.moved t d).position) ≤ r := by
  refine Vec.normInf_le_iff.mpr ⟨?_, fun a ha => ?_⟩
  · exact (mul_nonneg ht (Vec.normInf_nonneg d)).trans hr
  · obtain ⟨b, hb, rfl⟩ := mem_sub_moved ha
    rw [abs_neg, abs_mul, abs_of_nonneg ht]
    exact (mul_le_mul_of_nonneg_left (Vec.abs_le_normInf hb) ht).trans hr

/-- A trial point is near if its step is short enough. -/
theorem isNear_of_trialAt {m : Moment K} {t r : K} (h : m.TrialAt t) (ht : 0 ≤ t)
    (hr : t * m.solver.stepNormInf ≤ r) :
    Cut.isNear m.workspace.currentSample.position r m.workspace.trialSample = true := by
  rw [isNear_iff, h]
  exact normInf_sub_moved_le _ ht hr

variable {options : Options K} {radius : K}

/-- A search reaches as far as its radius. -/
theorem le_reach (options : Options K) (hr : 0 ≤ radius) : radius ≤ options.reach radius :=
  le_mul_of_one_le_left hr (le_max_left 1 _)

/-- No shortened step goes backward. -/
theorem shortStepsize_nonneg (hs : 0 ≤ options.shortenedStepsize) (hr : 0 ≤ radius) {norm : K}
    (hn : 0 ≤ norm) : 0 ≤ shortStepsize options radius norm := by
  rw [shortStepsize, Scalar.lesser_eq_min]
  exact div_nonneg (mul_nonneg hs (le_min hr hn)) hn

/-- A shortened step stays within reach. -/
theorem shortStepsize_mul_le (hs : 0 ≤ options.shortenedStepsize) (hr : 0 ≤ radius) {norm : K}
    (hn : 0 < norm) : shortStepsize options radius norm * norm ≤ options.reach radius := by
  rw [shortStepsize, Scalar.lesser_eq_min, div_mul_cancel₀ _ hn.ne']
  exact mul_le_mul (le_max_right 1 _) (min_le_left _ _) (le_min hr hn.le)
    (hs.trans (le_max_right 1 _))

end Distance

/-- How a step from one moment to the next may have made a cut. -/
inductive Cut.Made (setting : Setting K) (radius : K) (m m' : Moment K) : Cut K → Prop where
  /-- It is the cut at the current point. -/
  | current {p : Plane K} (h : m'.workspace.CurrentPlane p) : Made setting radius m m' p.toCut
  /-- It is the cut at a sampled point, which is near unless far points are added or the
  radii change on the way. -/
  | sampled {cut : Cut K} {place : Nat} {id : SampleId} {p : Plane K}
      (h : cut.Samples setting.options.downshift m'.workspace place id p)
      (hnear : setting.options.addFarPoints = false → setting.rule.Steady → 0 ≤ radius →
        Cut.isNear m'.workspace.currentSample.position (setting.options.reach radius)
          (m'.workspace.sampleAt id) = true) : Made setting radius m m' cut
  /-- It combines the planes of the active cuts, with weights that are a weighting. -/
  | combined (haligned : m.Aligned) (hweighted : m.solver.Weighted) :
      Made setting radius m m' m.combined.toCut

section Made

variable [IsStrictOrderedRing K] {setting : Setting K} {a b : Stage K}
  {s s' start : SearchState K}

/-- A trial point within reach gives cuts at sampled points that are near. -/
theorem made_trialCut {evaluated : Bool} {radius t : K} {cuts : List (Cut K)}
    (hs : s.Sound setting.oracle) (hknown : s.TrialKnown evaluated) (hat : s.TrialAt t)
    (hreach : setting.options.addFarPoints = false → setting.rule.Steady → 0 ≤ radius →
      0 ≤ t ∧ t * s.solver.stepNormInf ≤ setting.options.reach radius)
    (hr : Search.trialCut setting evaluated s = .ok cuts s') :
    ∀ cut ∈ cuts, cut.Made setting radius s.toMoment s'.toMoment := by
  obtain ⟨hq, _, rfl | ⟨cut, plane, rfl, hsamples⟩⟩ := (Search.trialCut_leads hs hknown).of_run hr
  · exact fun cut hcut => absurd hcut List.not_mem_nil
  · intro cut' hcut
    rw [List.mem_singleton.mp hcut]
    refine .sampled hsamples fun hfar hsteady hradius => ?_
    obtain ⟨ht, hwithin⟩ := hreach hfar hsteady hradius
    exact isNear_grows hq.grows hs.wellFormed.current_lt hs.trial_lt
      (isNear_of_trialAt hat ht hwithin)

/-- The cuts collected before the first round are at the current point or near it. -/
theorem made_collectCuts {cuts : List (Cut K)} {radius : K} {m m' : Moment K}
    (hs : s.Sound setting.oracle)
    (hradii : setting.rule.Steady → s.workspace.radii.stationarity = radius)
    (hgrows : s'.workspace.Grows m'.workspace)
    (hr : Search.collectCuts setting s = .ok cuts s') :
    ∀ cut ∈ cuts, cut.Made setting radius m m' := by
  obtain ⟨hq, _, plane, hcurrent, found, rfl, hfound⟩ :=
    (Search.collectCuts_leads hs).of_run hr
  have hs' := hs.keeps hq.toKeeps
  refine List.forall_mem_cons.mpr ⟨?_, fun cut hcut => ?_⟩
  · exact .current (hcurrent.grows (hq.grows.trans hgrows) hs.wellFormed.current_lt)
  · obtain ⟨place, id, p, hsamples, hnear⟩ := hfound cut hcut
    have hid := hs'.wellFormed.bundle_lt id hsamples.mem_bundle
    refine .sampled (hsamples.grows hs'.wellFormed hgrows) fun _ hsteady hradius => ?_
    refine isNear_grows hgrows hs'.wellFormed.current_lt hid ?_
    rw [hradii hsteady] at hnear
    rw [← (hq.grows.currentSample hs.wellFormed.current_lt).position_eq] at hnear
    rw [isNear_iff] at hnear ⊢
    exact hnear.trans (le_reach _ hradius)

variable (hinv : Inv setting .ready start.toMoment) (ho : setting.options.Accepted)
include hinv ho

/-- A cut that a step brings is made in one of these ways. -/
theorem Reached.made_of_brought (h : Reached setting start a s) {cut : Cut K}
    (hbrought : cut.Brought setting a s s') :
    cut.Made setting start.workspace.radii.stationarity s.toMoment s'.toMoment := by
  have hs := (h.inv hinv).base.toSound
  have hholds := (h.inv hinv).holds
  have hplaced := h.placed hinv
  have hradii := h.radii_eq hinv
  have hweighs := h.weighs hinv
  cases hbrought with
  | current hcurrent => exact .current hcurrent
  | collected hcollect hgrows hcut =>
    exact made_collectCuts hs (fun hsteady => congrArg _ (hradii hsteady trivial)) hgrows hcollect
      cut hcut
  | combined => exact .combined hholds.1.toAligned hweighs
  | full hnear htrial hcut =>
    refine made_trialCut hs hholds.2.2 hplaced (fun hfar hsteady hradius => ?_) htrial cut hcut
    rw [one_mul]
    have hshort := hnear.resolve_left (by simp [hfar])
    rw [hradii hsteady trivial] at hshort
    exact ⟨zero_le_one, hshort.trans (le_reach _ hradius)⟩
  | short htrial hcut =>
    obtain ⟨hnorm, r, hsame, hat⟩ := hplaced
    have hshort : 0 ≤ setting.options.shortenedStepsize := ho.nonneg .shortenedStepsize
    have hpositive := not_le.mp hnorm
    refine made_trialCut hs hholds.2.2.2 hat (fun _ hsteady hradius => ?_) htrial cut hcut
    rw [hsame hsteady]
    exact ⟨shortStepsize_nonneg hshort hradius hpositive.le,
      shortStepsize_mul_le hshort hradius hpositive⟩

/-- A step makes all cuts that were not there before. -/
theorem Reached.made {Q : Cut K → Prop} (h : Reached setting start a s)
    (hstep : Step setting a s b s') (hold : a.AllCuts Q s.engine)
    (hnew : ∀ cut : Cut K,
      cut.Made setting start.workspace.radii.stationarity s.toMoment s'.toMoment → Q cut) :
    b.AllCuts Q s'.engine :=
  hstep.allCuts (h.inv hinv) hold fun cut hcut => hnew cut (h.made_of_brought hinv ho hcut)

end Made

end NonsmoothDescent

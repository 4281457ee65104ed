import NonsmoothDescent.Proofs.Descent.LineSearch
import NonsmoothDescent.Proofs.Search.Alignment
import NonsmoothDescent.Proofs.Search.Coherence
import NonsmoothDescent.Descent

/-!
# An iteration of a descent

An iteration searches for a direction, along which it then moves. The search leaves the
current point where it is and may shrink the radii. The move replaces the current point only
by a lower one, found by the line search or by the direction search, and otherwise halves the
radii. So the value at the current point never rises, and falls when the point is replaced;
the radii keep their ratio and never grow; the bundle only grows.
-/

namespace NonsmoothDescent

section Generic

variable {α : Type} [Scalar α] {o : Oracle α} {w w' : Workspace α}

/-- The objective has a value at every point. -/
def Oracle.Total (o : Oracle α) : Prop :=
  ∀ x : List α, x.length = o.dimension → ∃ value, (o.evaluateObjective x).1 = some value

/-- The objective at the current point, evaluated or not. -/
def Workspace.height (o : Oracle α) (w : Workspace α) : Option α :=
  (o.evaluateObjective w.currentSample.position).1

namespace Workspace

/-- A total objective has a value at the current point. -/
theorem WellFormed.exists_height (hw : w.WellFormed o) (ho : o.Total) :
    ∃ value, w.height o = some value :=
  ho _ ((hw.length_position _ hw.current_lt).trans hw.dimension_eq.symm)

/-- What is known at the current point is the height. -/
theorem WellFormed.height_eq (hw : w.WellFormed o) {value : α}
    (hvalue : w.currentSample.objective.value? = some value) : w.height o = some value :=
  (hw.faithful _ hw.current_lt).objective_eq hvalue

/-- The height stays as the workspace grows. -/
theorem Grows.height_eq (h : w.Grows w') (hw : w.WellFormed o) : w'.height o = w.height o := by
  rw [height, height, (h.currentSample hw.current_lt).position_eq]

end Workspace

/-- After a successful search the value at the current point is known, the direction has one
entry per variable, and there is a trial point. -/
structure Workspace.Poised (w : Workspace α) : Prop where
  objective : ∃ value, w.currentSample.objective.value? = some value
  length_direction : w.direction.length = w.dimension
  trial_lt : w.trial < w.samples.size

/-- After a success the trial point has its value. -/
theorem CallResult.poised {setting : Setting α} {entry s : SearchState α}
    (h : CallResult setting entry (.ok .success s)) : s.workspace.Poised := by
  cases h with
  | ended hopens hreached hcloses =>
    have hkeeps := (hcloses.quiet setting.oracle).toKeeps
    have hsound := (hreached.inv hopens.inv).base.toSound.keeps hkeeps
    obtain ⟨hstepped, _⟩ := hreached.taken hopens.inv
    exact ⟨hsound.objective, (hstepped.keeps hkeeps).length_direction, hsound.trial_lt⟩

/-- An iteration that is complete: a successful search, and the move after it. -/
def Descent.Iterates (setting : Setting α) (s s' : SearchState α) : Prop :=
  ∃ s₁, Search.conclude setting s = .ok .success s₁ ∧
    Search.onWorkspace (move setting.oracle) s₁ = .ok () s'

end Generic

section Ordered

variable {K : Type} [Field K] [LinearOrder K]

/-- The stationarity radius is positive, and the trust-region radius ten times as large. -/
structure Radii.Scaled (r : Radii K) : Prop where
  pos : 0 < r.stationarity
  trust_eq : r.trust = 10 * r.stationarity

/-- Both radii are at most half of what they were. -/
structure Radii.Halved (r r' : Radii K) : Prop where
  stationarity_le : r'.stationarity ≤ r.stationarity / 2
  trust_le : r'.trust ≤ r.trust / 2

/-- Radii that were scaled may be scaled again. -/
theorem Radii.Scaled.times [IsStrictOrderedRing K] {r : Radii K} (h : r.Scaled) {factor : K}
    (hfactor : 0 < factor) : Radii.Scaled ⟨r.stationarity * factor, r.trust * factor⟩ where
  pos := mul_pos h.pos hfactor
  trust_eq := by
    rw [h.trust_eq]
    ring

end Ordered

section Exact

variable {K : Type} [Field K] [LinearOrder K] [FloorRing K] {o : Oracle K}
  {w w' w'' w₁ : Workspace K}

/-- What is below a value is a value. -/
theorem exists_of_below {a : Option K} {b : K} (h : below a (some b) = true) :
    ∃ value, a = some value ∧ value < b := by
  cases a with
  | none => cases h
  | some value => exact ⟨value, rfl, of_decide_eq_true h⟩

/-- From one workspace to a later one the current point has not risen, and has fallen if it
was replaced; the radii have not grown; the bundle has lost nothing. -/
structure Workspace.Sinks (o : Oracle K) (w w' : Workspace K) : Prop where
  height : ∃ value value', w.height o = some value ∧ w'.height o = some value' ∧
    value' ≤ value ∧ (w'.current ≠ w.current → value' < value)
  stationarity_le : w'.radii.stationarity ≤ w.radii.stationarity
  trust_le : w'.radii.trust ≤ w.radii.trust
  bundle : w.bundle.toList <+: w'.bundle.toList

/-- Sinking twice is sinking. -/
theorem Workspace.Sinks.trans (h : w.Sinks o w') (h' : w'.Sinks o w'') : w.Sinks o w'' where
  height := by
    obtain ⟨value, value', hheight, hheight', hle, hlt⟩ := h.height
    obtain ⟨_, value'', hsame, hheight'', hle', hlt'⟩ := h'.height
    obtain rfl := Option.some.inj (hheight'.symm.trans hsame)
    refine ⟨value, value'', hheight, hheight'', hle'.trans hle, fun hreplaced => ?_⟩
    by_cases hcurrent : w'.current = w.current
    · rw [← hcurrent] at hreplaced
      exact (hlt' hreplaced).trans_le hle
    · exact hle'.trans_lt (hlt hcurrent)
  stationarity_le := h'.stationarity_le.trans h.stationarity_le
  trust_le := h'.trust_le.trans h.trust_le
  bundle := h.bundle.trans h'.bundle

namespace Descent

/-- Between the parts of a descent the workspace is well formed and its radii have their
ratio. -/
structure Ready (o : Oracle K) (w : Workspace K) : Prop where
  wellFormed : w.WellFormed o
  scaled : w.radii.Scaled

/-- The search of an iteration always comes to an end: no number is too large in exact
arithmetic. -/
theorem conclude_leads {setting : Setting K} {s : SearchState K}
    (hw : s.workspace.WellFormed setting.oracle) :
    Leads (Search.conclude setting) s fun outcome s' => CallResult setting s
      (if outcome = .timeLimit then .error .timeLimitReached s' else .ok outcome s') := by
  rcases Search.conclude_cases hw with hends | ⟨s', _, hcall⟩
  · exact hends
  · cases hcall with
    | overflowed _ hoverflows => cases isFinite_of_pointThreshold_error hoverflows.1

/-- A known sample below the current point may replace it. -/
theorem sinks_of_replaced (htries : LineSearch.Tries o w w₁) (h : Ready o w) {value lower : K}
    {id : SampleId} (hvalue : w.currentSample.objective.value? = some value)
    (hid : id < w₁.samples.size) (hlower : (w₁.sampleAt id).objective.value? = some lower)
    (hlt : lower < value) :
    Ready o { w₁ with current := id } ∧ w.Sinks o { w₁ with current := id } ∧ id ≠ w.current := by
  have hw := h.wellFormed
  have hw₁ := htries.wellFormed hw
  have hw' : ({ w₁ with current := id } : Workspace K).WellFormed o :=
    ⟨hw₁.dimension_eq, hw₁.length_position, hw₁.faithful, hid, hw₁.bundle_lt⟩
  have hknown := (htries.grows.currentSample hw.current_lt).objective_value? hvalue
  have hreplaced : id ≠ w.current := by
    rintro rfl
    rw [← htries.grows.current_eq] at hlower
    have hsame := Option.some.inj (hknown.symm.trans hlower)
    exact hlt.ne' hsame
  refine ⟨⟨hw', htries.radii_eq ▸ h.scaled⟩, ⟨?_, ?_, ?_, ?_⟩, hreplaced⟩
  · exact ⟨value, lower, hw.height_eq hvalue, hw'.height_eq hlower, hlt.le, fun _ => hlt⟩
  · exact (congrArg Radii.stationarity htries.radii_eq).le
  · exact (congrArg Radii.trust htries.radii_eq).le
  · exact ⟨[], (List.append_nil _).trans (congrArg Array.toList htries.bundle_eq.symm)⟩

variable [IsStrictOrderedRing K]

/-- Where the current point stays and the radii do not grow, nothing rises. -/
theorem sinks_of_grows (h : Ready o w) (ho : o.Total) (hgrows : w.Grows w')
    (hscaled : w'.radii.Scaled) (hle : w'.radii.stationarity ≤ w.radii.stationarity) :
    w.Sinks o w' where
  height := by
    obtain ⟨value, hvalue⟩ := h.wellFormed.exists_height ho
    exact ⟨value, value, hvalue, (hgrows.height_eq h.wellFormed).trans hvalue, le_rfl,
      fun hreplaced => absurd hgrows.current_eq hreplaced⟩
  stationarity_le := hle
  trust_le := by
    rw [h.scaled.trust_eq, hscaled.trust_eq]
    linarith
  bundle := by
    obtain ⟨added, hadded⟩ := hgrows.bundle
    exact ⟨added, hadded.symm⟩

/-- Without a lower point the radii are halved. -/
theorem sinks_of_halved (htries : LineSearch.Tries o w w₁) (h : Ready o w) (ho : o.Total) :
    let w' := { w₁ with radii :=
      ⟨w₁.radii.stationarity * LineSearch.ratio, w₁.radii.trust * LineSearch.ratio⟩ }
    Ready o w' ∧ w.Sinks o w' ∧ w.radii.Halved w'.radii := by
  have hw₁ := htries.wellFormed h.wellFormed
  have hratio : (LineSearch.ratio : K) = 1 / 2 := by norm_num [LineSearch.ratio]
  rw [htries.radii_eq, hratio]
  have hscaled := h.scaled.times (by norm_num : (0 : K) < 1 / 2)
  have hgrows : w.Grows { w₁ with
      radii := ⟨w.radii.stationarity * (1 / 2), w.radii.trust * (1 / 2)⟩ } :=
    htries.grows.trans (.of_eq rfl rfl rfl rfl)
  refine ⟨⟨⟨hw₁.dimension_eq, hw₁.length_position, hw₁.faithful, hw₁.current_lt,
    hw₁.bundle_lt⟩, hscaled⟩, sinks_of_grows h ho hgrows hscaled ?_, ?_, ?_⟩
  · have hpos := h.scaled.pos
    change w.radii.stationarity * (1 / 2) ≤ w.radii.stationarity
    linarith
  · exact (mul_one_div _ _).le
  · exact (mul_one_div _ _).le

/-- After a move the current point is a lower one, or both radii are half of what they were. -/
theorem move_leads (h : Ready o w) (ho : o.Total) (hpoised : w.Poised) :
    Leads (move o) w fun _ w' => Ready o w' ∧ w.Sinks o w' ∧
      (w'.current = w.current → w.radii.Halved w'.radii) := by
  obtain ⟨value, hvalue⟩ := hpoised.objective
  obtain ⟨found, w₁, hrun, htries, hfound⟩ :=
    LineSearch.backtrack_leads h.wellFormed hpoised.length_direction
  rw [hvalue] at hfound
  unfold Leads move
  change ∃ b s', (LineSearch.backtrack o >>= _) w = _ ∧ _
  rw [bind_of_ok hrun]
  cases found with
  | some id =>
    obtain ⟨lower, hlower, hlt⟩ := (hfound id rfl).lt
    obtain ⟨hready, hsinks, hreplaced⟩ :=
      sinks_of_replaced htries h hvalue (hfound id rfl).id_lt hlower hlt
    exact ⟨_, _, rfl, hready, hsinks, fun hkept => absurd hkept hreplaced⟩
  | none =>
    have hknown :=
      (htries.grows.currentSample h.wellFormed.current_lt).objective_value? hvalue
    by_cases hbelow : below (w₁.sampleAt w.trial).objective.value?
        w₁.currentSample.objective.value? = true
    · refine ⟨(), { w₁ with current := w.trial }, ?_, ?_⟩
      · change (if below _ _ = true then _ else _ : WorkspaceM K Unit) w₁ = _
        rw [if_pos hbelow]
        rfl
      · rw [hknown] at hbelow
        obtain ⟨lower, hlower, hlt⟩ := exists_of_below hbelow
        obtain ⟨hready, hsinks, hreplaced⟩ := sinks_of_replaced htries h hvalue
          (hpoised.trial_lt.trans_le htries.grows.size_le) hlower hlt
        exact ⟨hready, hsinks, fun hkept => absurd hkept hreplaced⟩
    · obtain ⟨hready, hsinks, hhalved⟩ := sinks_of_halved htries h ho
      refine ⟨(), _, ?_, hready, hsinks, fun _ => hhalved⟩
      change (if below _ _ = true then _ else _ : WorkspaceM K Unit) w₁ = _
      rw [if_neg hbelow]
      rfl

/-- The standard rule keeps the ratio of the radii and never enlarges them. -/
theorem standard_keeps (bound : K) :
    (ShrinkRule.standard : ShrinkRule K).toRule.Keeps fun r =>
      r.Scaled ∧ r.stationarity ≤ bound := by
  refine ShrinkRule.keeps fun r hr => ?_
  have hfactor : (0 : K) < 0.1 ∧ (0.1 : K) ≤ 1 := by norm_num
  obtain ⟨hscaled, hle⟩ := hr
  refine ⟨hscaled.times hfactor.1, ?_⟩
  exact (mul_le_of_le_one_right hscaled.pos.le hfactor.2).trans hle

variable {setting : Setting K} {s s₁ s' : SearchState K}

/-- What a search with the standard rule leaves behind. -/
theorem sinks_of_call (hrule : setting.rule = ShrinkRule.standard.toRule)
    (h : Ready setting.oracle s.workspace) (ho : setting.oracle.Total)
    {result : EStateM.Result (Fault K) (SearchState K) Outcome}
    (hcall : CallResult setting s result) :
    Ready setting.oracle (finalState result).workspace ∧
      s.workspace.Sinks setting.oracle (finalState result).workspace := by
  obtain ⟨hscaled, hle⟩ := hcall.keeps_radii (hrule ▸ standard_keeps s.workspace.radii.stationarity)
    ⟨h.scaled, le_rfl⟩
  exact ⟨⟨hcall.wellFormed, hscaled⟩, sinks_of_grows h ho hcall.grows hscaled hle⟩

/-- What an iteration leaves behind that is complete. -/
theorem sinks_of_iteration (hrule : setting.rule = ShrinkRule.standard.toRule)
    (h : Ready setting.oracle s.workspace) (ho : setting.oracle.Total)
    (hiterates : Iterates setting s s') :
    Ready setting.oracle s'.workspace ∧ s.workspace.Sinks setting.oracle s'.workspace ∧
      (s'.workspace.current = s.workspace.current →
        s.workspace.radii.Halved s'.workspace.radii) := by
  obtain ⟨s₁, hconclude, hmove⟩ := hiterates
  have hcall := (conclude_leads h.wellFormed).of_run hconclude
  rw [if_neg (by decide)] at hcall
  obtain ⟨hready, hsinks⟩ := sinks_of_call hrule h ho hcall
  rw [finalState_ok] at hready hsinks
  obtain ⟨_, w', hrun, hready', hsinks', hhalved⟩ := move_leads hready ho hcall.poised
  rw [Search.onWorkspace_ok hrun] at hmove
  cases hmove
  refine ⟨hready', hsinks.trans hsinks', fun hkept => ?_⟩
  obtain ⟨hstationarity, htrust⟩ := hhalved (hkept.trans hcall.grows.current_eq.symm)
  have hle := hsinks.stationarity_le
  have hle' := hsinks.trust_le
  exact ⟨by linarith, by linarith⟩

end Descent

end Exact

end NonsmoothDescent

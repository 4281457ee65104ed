import NonsmoothDescent.Proofs.Search.Budget
import NonsmoothDescent.Proofs.Search.Holdings
import NonsmoothDescent.Proofs.Search.Succession

/-!
# References into the bundle

A sampled cut keeps the place of its point in the bundle, and the bundle grows while the
cut lives. A trial point goes into the bundle only after its objective and its gradient
have become known, and it is a sample made since the last solve, so it has no place yet;
its cut is made with the place that it then gets. Places are never given to other points
and known gradients never change. So a place at which a cut was once made stays good.
-/

namespace NonsmoothDescent

variable {α : Type} [Scalar α]

/-- The bundle has got new points behind the old ones: samples that there were not, all
different, with objective and gradient known. -/
def Workspace.Adds (w w' : Workspace α) : Prop :=
  ∃ added, w'.bundle.toList = w.bundle.toList ++ added ∧ added.Nodup ∧
    ∀ id ∈ added, w.samples.size ≤ id ∧ (w'.sampleAt id).objective.isKnown = true ∧
      (w'.sampleAt id).gradient.isKnown = true

/-- If the cut refers to the bundle it samples a place there, and still does in a later
workspace: the same point is at the place, with the same gradient, and the bias of the cut
is the one at this point. -/
def Cut.Refers (downshift : α) (w later : Workspace α) (cut : Cut α) : Prop :=
  ∀ i, cut.position? = some i → ∃ place id plane,
    cut.Samples downshift w place id plane ∧ cut.Samples downshift later place id plane

/-- The places to which cuts refer. -/
def Cut.positions (cuts : List (Cut α)) : List Int := cuts.filterMap Cut.position?

/-- At the moment, with some more cuts in hand, all cuts that refer to the bundle are good
now and later, and no two of the full cuts and of those in hand refer to the same place. -/
structure Moment.Refers (downshift : α) (held : List (Cut α)) (later : Workspace α)
    (m : Moment α) : Prop where
  fullCuts : ∀ cut ∈ m.engine.fullCuts, cut.Refers downshift m.workspace later
  aggregatedCuts : ∀ cut ∈ m.engine.aggregatedCuts, cut.Refers downshift m.workspace later
  activeCuts : ∀ cut ∈ m.engine.activeCuts, cut.Refers downshift m.workspace later
  inHand : ∀ cut ∈ held, cut.Refers downshift m.workspace later
  nodup : (Cut.positions (m.engine.fullCuts ++ held)).Nodup

namespace Cut

variable {downshift : α} {o : Oracle α} {w w' w'' : Workspace α} {cut : Cut α}

/-- A cut that owns its plane refers to no place. -/
theorem refers_toCut (p : Plane α) : p.toCut.Refers downshift w w' := fun _ hi => by cases hi

/-- A cut that samples a place refers to it well. -/
theorem Samples.refers {place : Nat} {id : SampleId} {plane : Plane α}
    (h : cut.Samples downshift w place id plane) : cut.Refers downshift w w :=
  fun _ _ => ⟨place, id, plane, h, h⟩

/-- A reference that is good stays so in later workspaces. -/
theorem Refers.later (h : cut.Refers downshift w w') (hw' : w'.WellFormed o)
    (hg : w'.Grows w'') : cut.Refers downshift w w'' := by
  intro i hi
  obtain ⟨place, id, plane, hnow, hthen⟩ := h i hi
  exact ⟨place, id, plane, hnow, hthen.grows hw' hg⟩

/-- What refers later, and did before, refers from any time between on. -/
theorem Refers.grows (h : cut.Refers downshift w w) (hw : w.WellFormed o)
    (hw' : w'.WellFormed o) (hg : w.Grows w') (hg' : w'.Grows w'') :
    cut.Refers downshift w' w'' := by
  intro i hi
  obtain ⟨place, id, plane, hnow, _⟩ := h i hi
  exact ⟨place, id, plane, hnow.grows hw hg, (hnow.grows hw hg).grows hw' hg'⟩

omit [Scalar α] in
/-- The places of joined lists are joined. -/
@[simp] theorem positions_append (cuts more : List (Cut α)) :
    positions (cuts ++ more) = positions cuts ++ positions more := List.filterMap_append ..

omit [Scalar α] in
/-- Fewer cuts refer to fewer places. -/
theorem positions_sublist {cuts all : List (Cut α)} (h : cuts.Sublist all) :
    (positions cuts).Sublist (positions all) := h.filterMap _

/-- A cut that samples a place refers to this one. -/
theorem Samples.positions_eq {place : Nat} {id : SampleId} {plane : Plane α}
    (h : cut.Samples downshift w place id plane) : positions [cut] = [(place : Int)] := by
  rw [h.cut_eq]
  rfl

/-- Cuts refer to places that there are. -/
theorem lt_of_mem_positions {cuts : List (Cut α)}
    (h : ∀ cut ∈ cuts, cut.Refers downshift w w') {i : Int} (hi : i ∈ positions cuts) :
    i < w.bundle.size := by
  obtain ⟨cut, hcut, hposition⟩ := List.mem_filterMap.mp hi
  obtain ⟨place, id, plane, hsamples, _⟩ := h cut hcut i hposition
  have hlt : place < w.bundle.size := (Array.getElem?_eq_some_iff.mp hsamples.id_eq).1
  rw [hsamples.cut_eq] at hposition
  cases hposition
  exact_mod_cast hlt

/-- A cut at a new place refers to none to which others refer. -/
theorem nodup_positions_append {cuts : List (Cut α)} {id : SampleId} {plane : Plane α}
    (h : ∀ cut ∈ cuts, cut.Refers downshift w w') (hnodup : (positions cuts).Nodup)
    (hsamples : cut.Samples downshift w'' w.bundle.size id plane) :
    (positions (cuts ++ [cut])).Nodup := by
  rw [positions_append, hsamples.positions_eq]
  refine List.nodup_append.mpr ⟨hnodup, List.nodup_singleton _, fun i hi j hj => ?_⟩
  rw [List.mem_singleton.mp hj]
  exact (lt_of_mem_positions h hi).ne

end Cut

namespace Workspace

variable {o : Oracle α} {w w' w'' : Workspace α}

omit [Scalar α] in
/-- Where the bundle is the same nothing was added. -/
theorem Adds.of_bundle_eq (h : w'.bundle = w.bundle) : w.Adds w' :=
  ⟨[], by rw [h, List.append_nil], .nil, fun _ hid => absurd hid List.not_mem_nil⟩

omit [Scalar α] in
/-- What is known of a sample stays known. -/
theorem isKnown_grows (hg : w.Grows w') {id : SampleId} (hid : id < w.samples.size) :
    ((w.sampleAt id).objective.isKnown = true → (w'.sampleAt id).objective.isKnown = true) ∧
      ((w.sampleAt id).gradient.isKnown = true → (w'.sampleAt id).gradient.isKnown = true) := by
  have hrefines := hg.refines id hid
  simp only [isKnown_iff]
  exact ⟨fun ⟨value, hv⟩ => ⟨value, hrefines.objective_value? hv⟩,
    fun ⟨slope, hg⟩ => ⟨slope, hrefines.gradient_value? hg⟩⟩

/-- Later the new points are there still. -/
theorem Adds.grows (h : w.Adds w') (hw' : w'.WellFormed o) (hg : w'.Grows w'')
    (hb : w''.bundle.toList = w'.bundle.toList) : w.Adds w'' := by
  obtain ⟨added, hadded, hnodup, hnew⟩ := h
  refine ⟨added, hb.trans hadded, hnodup, fun id hid => ?_⟩
  have hlt := hw'.bundle_lt id (hadded ▸ List.mem_append_right _ hid)
  obtain ⟨hle, ho, hgradient⟩ := hnew id hid
  exact ⟨hle, (isKnown_grows hg hlt).1 ho, (isKnown_grows hg hlt).2 hgradient⟩

/-- One more point that has no place yet. -/
theorem Adds.append (h : w.Adds w') (hw' : w'.WellFormed o) (hg : w'.Grows w'') {id : SampleId}
    (hb : w''.bundle.toList = w'.bundle.toList ++ [id]) (hid : w.samples.size ≤ id)
    (hnone : id ∉ w'.bundle.toList) (ho : (w''.sampleAt id).objective.isKnown = true)
    (hgradient : (w''.sampleAt id).gradient.isKnown = true) : w.Adds w'' := by
  obtain ⟨added, hadded, hnodup, hnew⟩ := h
  have hold : ∀ i ∈ added, i ∈ w'.bundle.toList := fun i hi =>
    hadded ▸ List.mem_append_right _ hi
  refine ⟨added ++ [id], by rw [hb, hadded, List.append_assoc], ?_, ?_⟩
  · refine List.nodup_append.mpr ⟨hnodup, List.nodup_singleton _, fun i hi j hj heq => ?_⟩
    rw [List.mem_singleton.mp hj] at heq
    exact hnone (heq ▸ hold i hi)
  · refine List.forall_mem_append.mpr ⟨fun i hi => ?_, fun i hi => ?_⟩
    · have hlt := hw'.bundle_lt i (hold i hi)
      obtain ⟨hle, hi₁, hi₂⟩ := hnew i hi
      exact ⟨hle, (isKnown_grows hg hlt).1 hi₁, (isKnown_grows hg hlt).2 hi₂⟩
    · rw [List.mem_singleton.mp hi]
      exact ⟨hid, ho, hgradient⟩

end Workspace

section Operations

variable {setting : Setting α} {s s' : SearchState α}

/-- The cuts collected before the first round refer to different places: the near places
in their order, as far as they can be evaluated. -/
theorem positions_foldlM_nearCut {places : List Nat} {cuts all : List (Cut α)}
    (hs : s.Sound setting.oracle)
    (hr : (places.foldlM (fun cuts place => do
      return cuts ++ (← Search.nearCut setting place)) cuts : SearchM α _) s = .ok all s') :
    ∃ found, all = cuts ++ found ∧
      (Cut.positions found).Sublist (places.map (Nat.cast : Nat → Int)) := by
  induction places generalizing s cuts with
  | nil =>
    cases hr
    exact ⟨[], (List.append_nil _).symm, .slnil⟩
  | cons place places ih =>
    obtain ⟨new, s₁, hnear, hq, _, hnew⟩ := Search.nearCut_leads hs place
    have hfirst : (Search.nearCut setting place >>= fun new =>
        (pure (cuts ++ new) : SearchM α _)) s = .ok (cuts ++ new) s₁ := by
      rw [bind_of_ok hnear]
      rfl
    rw [List.foldlM_cons] at hr
    change ((Search.nearCut setting place >>= fun new => pure (cuts ++ new)) >>= _) s = _ at hr
    rw [bind_of_ok hfirst] at hr
    obtain ⟨found, hall, hsublist⟩ := ih (hs.keeps hq.toKeeps) hr
    refine ⟨new ++ found, by rw [hall, List.append_assoc], ?_⟩
    rw [Cut.positions_append, List.map_cons]
    rcases hnew with rfl | ⟨id, cut, plane, rfl, hsamples⟩
    · exact hsublist.cons _
    · rw [hsamples.positions_eq]
      exact hsublist.cons_cons _

/-- The cuts that are collected refer to different places. -/
theorem nodup_collectCuts {cuts : List (Cut α)} (hs : s.Sound setting.oracle)
    (hr : Search.collectCuts setting s = .ok cuts s') : (Cut.positions cuts).Nodup := by
  have hlength : ∀ p ∈ s.workspace.points,
      s.workspace.currentSample.position.length = p.position.length := by
    intro p hp
    obtain ⟨id, hid, rfl⟩ := List.mem_map.mp hp
    rw [hs.length_current, hs.wellFormed.length_position id (hs.wellFormed.bundle_lt id hid)]
  have hnear := Cut.near_eq s.workspace.radii.stationarity hlength
  obtain ⟨plane, hcurrent⟩ := hs.exists_current
  unfold Search.collectCuts at hr
  rw [bind_of_ok (Search.workspace_run s), bind_of_ok (Search.orFault_ok hcurrent.atCurrent_eq),
    bind_of_ok (Search.orFault_ok hnear)] at hr
  obtain ⟨found, rfl, hsublist⟩ := positions_foldlM_nearCut hs hr
  have hplaces : ((s.workspace.points.zipIdx.filter fun p =>
      Cut.isNear s.workspace.currentSample.position s.workspace.radii.stationarity p.1).map
        Prod.snd).Nodup := by
    refine (List.filter_sublist.map Prod.snd).nodup ?_
    rw [List.zipIdx_map_snd]
    exact List.nodup_range'
  rw [Cut.positions_append]
  exact hsublist.nodup (hplaces.map Nat.cast_injective)

/-- A cut at the trial point refers to none of the places that there were. -/
theorem nodup_trialCut {evaluated : Bool} {later : Workspace α} {held cuts : List (Cut α)}
    (hs : s.Sound setting.oracle) (hknown : s.TrialKnown evaluated)
    (hheld : ∀ cut ∈ held, cut.Refers setting.options.downshift s.workspace later)
    (hnodup : (Cut.positions held).Nodup)
    (hr : Search.trialCut setting evaluated s = .ok cuts s') :
    (Cut.positions (held ++ cuts)).Nodup := by
  obtain ⟨_, _, rfl | ⟨cut, plane, rfl, hsamples⟩⟩ := (Search.trialCut_leads hs hknown).of_run hr
  · rwa [List.append_nil]
  · exact Cut.nodup_positions_append hheld hnodup hsamples

/-- A cut at the trial point goes along with a new place for that point, where objective
and gradient are known. -/
theorem bundle_trialCut {evaluated : Bool} {cuts : List (Cut α)} (hs : s.Sound setting.oracle)
    (hknown : s.TrialKnown evaluated) (hr : Search.trialCut setting evaluated s = .ok cuts s') :
    s'.workspace.bundle.toList = s.workspace.bundle.toList ∨
      s'.workspace.bundle.toList = s.workspace.bundle.toList ++ [s.workspace.trial] ∧
        (s'.workspace.sampleAt s.workspace.trial).objective.isKnown = true ∧
        (s'.workspace.sampleAt s.workspace.trial).gradient.isKnown = true := by
  obtain ⟨hq, hsize, hcuts⟩ := (Search.trialCut_leads hs hknown).of_run hr
  obtain ⟨added, hadded, hadds⟩ := hq.grows.exists_added
  have hlength : added.length = cuts.length := Nat.add_left_cancel (hadds.symm.trans hsize)
  rcases hcuts with rfl | ⟨cut, plane, rfl, hsamples⟩
  · rw [List.eq_nil_of_length_eq_zero hlength, List.append_nil] at hadded
    exact .inl hadded
  · obtain ⟨id, rfl⟩ := List.length_eq_one_iff.mp hlength
    have hid := hsamples.id_eq
    rw [← Array.getElem?_toList, hadded, ← Array.length_toList, List.getElem?_concat_length] at hid
    cases hid
    obtain ⟨slope, value, _, hg, ho, _⟩ := Sample.plane?_eq_some_iff.mp hsamples.plane_eq
    exact .inr ⟨hadded, Workspace.isKnown_iff.mpr ⟨value, ho⟩,
      Workspace.isKnown_iff.mpr ⟨slope, hg⟩⟩

/-- A step that is tried makes a new sample. -/
theorem tryStep_trial {stepsize : α} {evaluated : Bool} (h : s.Solves setting.oracle)
    (hr : Search.tryStep setting stepsize s = .ok evaluated s') :
    s'.workspace.trial = s.workspace.samples.size ∧ s'.workspace.bundle = s.workspace.bundle := by
  have hmake := Search.onWorkspace_ok
    (Workspace.makeTrial_eq stepsize h.length_current h.length_direction)
  unfold Search.tryStep at hr
  rw [bind_of_ok hmake] at hr
  have hs : Moment.Sound setting.oracle (SearchState.toMoment
      { s with workspace := s.workspace.withTrial stepsize }) :=
    h.toSound.keeps (Quiet.of_withTrial s stepsize h.length_direction).toKeeps
  obtain ⟨_, htrial, hbundle, _⟩ := (Search.evaluateTrial_leads hs).of_run hr
  exact ⟨htrial, hbundle⟩

end Operations

/-- The trial point is a sample made at some time or later, and has no place in the
bundle yet. -/
structure Moment.TrialNew (n : Nat) (m : Moment α) : Prop where
  le_trial : n ≤ m.workspace.trial
  not_mem_bundle : m.workspace.trial ∉ m.workspace.bundle.toList

namespace Moment.TrialNew

variable {n : Nat} {m m' : Moment α} {o : Oracle α}

/-- A trial point stays new while trial point and bundle stay. -/
theorem of_eq (h : m.TrialNew n) (ht : m'.workspace.trial = m.workspace.trial)
    (hb : m'.workspace.bundle = m.workspace.bundle) : m'.TrialNew n :=
  ⟨ht ▸ h.le_trial, by rw [ht, hb]; exact h.not_mem_bundle⟩

/-- A new sample has no place. -/
theorem of_size (hw : m.workspace.WellFormed o) (hn : n ≤ m.workspace.samples.size)
    (ht : m'.workspace.trial = m.workspace.samples.size)
    (hb : m'.workspace.bundle = m.workspace.bundle) : m'.TrialNew n := by
  refine ⟨ht ▸ hn, fun hmem => ?_⟩
  rw [ht, hb] at hmem
  exact Nat.lt_irrefl _ (hw.bundle_lt _ hmem)

/-- A trial point stays new when the rule is asked. -/
theorem asked {setting : Setting α} (h : m.TrialNew n) : (m.asked setting).TrialNew n :=
  h.of_eq (Moment.asked_trial setting m) (Moment.asked_bundle setting m)

end Moment.TrialNew

/-- At the stages before a cut at the trial point may be made, this point is new. -/
def Stage.TrialNew (n : Nat) : Stage α → Moment α → Prop
  | .solved _, m | .round _, m | .begun _ _, m | .tested _ _, m | .rejected _, m
  | .sampling _ _, m | .shortTested _ _ _ _, m => m.TrialNew n
  | _, _ => True

section Steps

variable {setting : Setting α} {a b : Stage α} {s s' start : SearchState α} {n : Nat}

/-- Each step keeps the trial point new, where the next stage asks for it. -/
theorem Stage.TrialNew.step (h : a.TrialNew n s.toMoment) (hinv : Inv setting a s.toMoment)
    (hn : n ≤ s.workspace.samples.size) (hstep : Step setting a s b s') :
    b.TrialNew n s'.toMoment := by
  have hs := hinv.base.toSound
  have hholds := hinv.holds
  have hlogs : ∀ {t : SearchState α} (f : Engine α → Engine α), s.TrialNew n → Logs s t →
      (t.withEngine f).TrialNew n := fun _ hnew hl => hnew.of_eq hl.trial_eq hl.bundle_eq
  have hsolved : ∀ {t : SearchState α} {planes : List (Plane α)} {active : ActiveCuts α},
      Moment.Keeps setting.oracle s.toMoment t.toMoment →
        (t.resolved setting planes active).TrialNew n := fun {t} _ _ hk =>
    .of_size (m := t.toMoment) (hk.wellFormed hs.wellFormed) (hn.trans hk.grows.size_le) rfl rfl
  cases hstep with
  | solveGradient | solveAggregated => exact hsolved (.refl setting.oracle _)
  | solveFull hcollect hnote =>
    have hk := ((Search.collectCuts_leads hs).of_run hcollect).1.toKeeps.trans
      (keeps_of_note setting.oracle hnote)
    exact .of_size (hk.wellFormed hs.wellFormed) (hn.trans hk.grows.size_le) rfl rfl
  | fallBack _ _ _ hnote | solveSwitching _ _ hnote =>
    exact hsolved (keeps_of_note setting.oracle hnote)
  | solveWarm => exact .of_size (m := s.toMoment) hs.wellFormed hn rfl rfl
  | enterLoop | markSwitch => exact Moment.TrialNew.of_eq h rfl rfl
  | nextRound | omitAggregation => exact h
  | restart hnote => exact hlogs _ h ((Search.note_leads _ _).of_run hnote)
  | beginRound hflush hevaluate =>
    obtain ⟨_, htrial, hbundle, _⟩ := Search.begun_of_run hs hflush hevaluate
    exact h.of_eq htrial hbundle
  | testFull => exact h.asked
  | goOn _ hclock => exact hlogs id h ((Search.elapsed_leads _ _).of_run hclock)
  | aggregate hon hr =>
    obtain ⟨_, s₁, _, hl, _, rfl⟩ := (hinv.aggregate_leads hon).of_run hr
    exact hlogs _ h hl
  | testShort hon hnorm htry =>
    obtain ⟨htrial, hbundle⟩ := tryStep_trial hholds.1 htry
    exact (Moment.TrialNew.of_size hs.wellFormed hn htrial hbundle).asked
  | _ => trivial

/-- So a trial point is new at every stage at which a cut may be made of it. -/
theorem Reached.trialNew (hinv : Inv setting .ready start.toMoment)
    (hn : n ≤ start.workspace.samples.size) (h : Reached setting start b s) :
    b.TrialNew n s.toMoment := by
  induction h with
  | start => trivial
  | step hreached hstep ih =>
    exact ih.step (hreached.inv hinv) (hn.trans (hreached.grows hinv).size_le) hstep

/-- The bundle stays, or the trial point takes the next place in it. -/
theorem Step.bundle_cases (hstep : Step setting a s b s') (hinv : Inv setting a s.toMoment)
    (h : a.TrialNew n s.toMoment) :
    s'.workspace.bundle.toList = s.workspace.bundle.toList ∨
      s.TrialNew n ∧
        s'.workspace.bundle.toList = s.workspace.bundle.toList ++ [s.workspace.trial] ∧
        (s'.workspace.sampleAt s.workspace.trial).objective.isKnown = true ∧
        (s'.workspace.sampleAt s.workspace.trial).gradient.isKnown = true := by
  have hs := hinv.base.toSound
  have hholds := hinv.holds
  have hsame : b.places = 0 → s'.workspace.bundle.toList = s.workspace.bundle.toList :=
    fun hplaces => congrArg Array.toList (hstep.bundle_eq hinv hplaces)
  cases hstep with
  | sampleFull hnear hcut =>
    exact (bundle_trialCut hs hholds.2.2 hcut).imp id fun hnew => ⟨h, hnew⟩
  | sampleShort hcut =>
    exact (bundle_trialCut hs hholds.2.2.2 hcut).imp id fun hnew => ⟨h, hnew⟩
  | omitFull | omitShort => exact .inl rfl
  | _ => exact .inl (hsame rfl)

/-- At every stage the bundle has got new points only. -/
theorem Reached.adds {w : Workspace α} (hinv : Inv setting .ready start.toMoment)
    (hw : w.Adds start.workspace) (hn : w.samples.size ≤ start.workspace.samples.size)
    (h : Reached setting start b s) : w.Adds s.workspace := by
  induction h with
  | start => exact hw
  | step hreached hstep ih =>
    have hinv' := hreached.inv hinv
    have hgrows := (hstep.advances hinv').grows
    have hwf := hinv'.base.wellFormed
    rcases hstep.bundle_cases hinv' (hreached.trialNew hinv hn) with
      hsame | ⟨hnew, hpush, hobjective, hgradient⟩
    · exact ih.grows hwf hgrows hsame
    · exact ih.append hwf hgrows hpush hnew.le_trial hnew.not_mem_bundle hobjective hgradient

end Steps

namespace Moment.Refers

variable {downshift : α} {held : List (Cut α)} {m m' : Moment α} {w w' : Workspace α}
  {o : Oracle α}

/-- What is in hand may be let go. -/
theorem drop (h : m.Refers downshift held w) : m.Refers downshift [] w where
  fullCuts := h.fullCuts
  aggregatedCuts := h.aggregatedCuts
  activeCuts := h.activeCuts
  inHand := fun _ hcut => absurd hcut List.not_mem_nil
  nodup := h.nodup.sublist
    (Cut.positions_sublist ((List.append_nil _).symm ▸ List.sublist_append_left _ _))

/-- References that are good at a time are good later. -/
theorem later (h : m.Refers downshift held w) (hw : w.WellFormed o) (hg : w.Grows w') :
    m.Refers downshift held w' where
  fullCuts cut hcut := (h.fullCuts cut hcut).later hw hg
  aggregatedCuts cut hcut := (h.aggregatedCuts cut hcut).later hw hg
  activeCuts cut hcut := (h.activeCuts cut hcut).later hw hg
  inHand cut hcut := (h.inHand cut hcut).later hw hg
  nodup := h.nodup

/-- They are good as long as the lists stay. -/
theorem keeps (h : m.Refers downshift held m.workspace) (hw : m.workspace.WellFormed o)
    (hk : Keeps o m m') : m'.Refers downshift held m'.workspace := by
  have hgrows : ∀ cut : Cut α, cut.Refers downshift m.workspace m.workspace →
      cut.Refers downshift m'.workspace m'.workspace :=
    fun cut hcut => hcut.grows hw (hk.wellFormed hw) hk.grows (.refl _)
  refine ⟨?_, ?_, ?_, fun cut hcut => hgrows cut (h.inHand cut hcut), ?_⟩
  · exact hk.fullCuts_eq ▸ fun cut hcut => hgrows cut (h.fullCuts cut hcut)
  · exact hk.aggregatedCuts_eq ▸ fun cut hcut => hgrows cut (h.aggregatedCuts cut hcut)
  · exact hk.activeCuts_eq ▸ fun cut hcut => hgrows cut (h.activeCuts cut hcut)
  · exact hk.fullCuts_eq ▸ h.nodup

/-- Without cuts there are no references. -/
theorem of_empty (hfull : m.engine.fullCuts = []) (haggregated : m.engine.aggregatedCuts = [])
    (hactive : m.engine.active = .own []) : m.Refers downshift [] w := by
  have hcuts : m.engine.activeCuts = [] := by rw [Engine.activeCuts, hactive]
  constructor <;> simp [hfull, haggregated, hcuts, Cut.positions]

end Moment.Refers

section Steps

variable {setting : Setting α} {a b : Stage α} {s s' t start : SearchState α}

/-- The cuts that a step brings have a slope of their own or refer to a place. -/
theorem Cut.Brought.refers {cut : Cut α} (h : cut.Brought setting a s s')
    (hinv : Inv setting a s.toMoment) :
    cut.Refers setting.options.downshift s'.workspace s'.workspace := by
  have hs := hinv.base.toSound
  have hholds := hinv.holds
  have htrial : ∀ {evaluated : Bool} {cuts : List (Cut α)}, s.TrialKnown evaluated →
      Search.trialCut setting evaluated s = .ok cuts s' → cut ∈ cuts →
        cut.Refers setting.options.downshift s'.workspace s'.workspace := by
    intro evaluated cuts hknown hr hcut
    obtain ⟨_, _, rfl | ⟨new, plane, rfl, hsamples⟩⟩ :=
      (Search.trialCut_leads hs hknown).of_run hr
    · exact absurd hcut List.not_mem_nil
    · rw [List.mem_singleton.mp hcut]
      exact hsamples.refers
  cases h with
  | current => exact Cut.refers_toCut _
  | @collected _ s₁ _ cuts _ hcollect hgrows hcut =>
    obtain ⟨hq, _, plane, _, found, rfl, hfound⟩ := (Search.collectCuts_leads hs).of_run hcollect
    rcases List.mem_cons.mp hcut with rfl | hmem
    · exact Cut.refers_toCut _
    · obtain ⟨place, id, p, hsamples, _⟩ := hfound cut hmem
      exact (hsamples.grows (hq.wellFormed hs.wellFormed) hgrows).refers
  | combined => exact Cut.refers_toCut _
  | full hnear hr hcut => exact htrial hholds.2.2 hr hcut
  | short hr hcut => exact htrial hholds.2.2.2 hr hcut

/-- No step makes two references to one place. -/
theorem Step.nodup (hstep : Step setting a s b s') (hinv : Inv setting a s.toMoment)
    (h : s.Refers setting.options.downshift a.inHand s.workspace) :
    (Cut.positions (s'.engine.fullCuts ++ b.inHand)).Nodup := by
  have hs := hinv.base.toSound
  have hholds := hinv.holds
  have hcalm := hstep.keeps hinv
  have hsame : s'.engine.fullCuts = s.engine.fullCuts → b.inHand = [] →
      (Cut.positions (s'.engine.fullCuts ++ b.inHand)).Nodup := by
    intro hfull hnone
    rw [hfull, hnone]
    exact h.drop.nodup
  have hnote : ∀ {notices : List (Notice α)} {t : SearchState α},
      Search.note notices s = .ok () t → t.engine.fullCuts = s.engine.fullCuts :=
    fun hr => (keeps_of_note setting.oracle hr).fullCuts_eq
  cases hstep with
  | solveFull hcollect hr hplanes =>
    change (Cut.positions (_ ++ [])).Nodup
    rw [List.append_nil]
    exact nodup_collectCuts hs hcollect
  | restart hr => exact List.nodup_nil
  | augment hr =>
    have hk := (((Search.reportRound_leads setting _).of_run hr).quiet setting.oracle).toKeeps
    change (Cut.positions (_ ++ [])).Nodup
    rw [List.append_nil, hk.fullCuts_eq]
    exact h.nodup
  | sampleFull hnear hcut =>
    have hfull := (hcalm trivial).fullCuts_eq
    rw [hfull]
    exact nodup_trialCut hs hholds.2.2 h.fullCuts (List.append_nil s.engine.fullCuts ▸ h.nodup) hcut
  | sampleShort hcut =>
    have hfull := (hcalm trivial).fullCuts_eq
    change (Cut.positions (_ ++ (_ ++ _))).Nodup
    rw [hfull, ← List.append_assoc]
    exact nodup_trialCut hs hholds.2.2.2 (List.forall_mem_append.mpr ⟨h.fullCuts, h.inHand⟩)
      h.nodup hcut
  | testShort =>
    have hfull := (hcalm trivial).fullCuts_eq
    rw [hfull]
    exact h.nodup
  | omitShort => exact h.nodup
  | solveGradient | enterLoop | markSwitch | nextRound | solveAggregated | solveWarm =>
    exact hsame rfl rfl
  | fallBack _ _ _ hr | solveSwitching _ _ hr =>
    have hfull := hnote hr
    exact hsame hfull rfl
  | aggregate hon hr =>
    obtain ⟨_, s₁, _, hlogs, _, rfl⟩ := (hinv.aggregate_leads hon).of_run hr
    exact hsame (hlogs.quiet setting.oracle).fullCuts_eq rfl
  | _ => exact hsame (hcalm trivial).fullCuts_eq rfl

/-- Every step keeps all references good. -/
theorem Step.refers (hstep : Step setting a s b s') (hinv : Inv setting a s.toMoment)
    (h : s.Refers setting.options.downshift a.inHand s.workspace) :
    s'.Refers setting.options.downshift b.inHand s'.workspace := by
  have hw := hinv.base.wellFormed
  have hw' := (hinv.step hstep).base.wellFormed
  have hgrows := (hstep.advances hinv).grows
  have hold : a.AllCuts (Cut.Refers setting.options.downshift s.workspace s.workspace) s.engine :=
    ⟨h.fullCuts, h.aggregatedCuts, h.activeCuts, h.inHand⟩
  obtain ⟨hfull, haggregated, hactive, hheld⟩ := hstep.allCuts hinv
    (hold.imp fun cut hcut => hcut.grows hw hw' hgrows (.refl _))
    fun cut hcut => hcut.refers hinv
  exact ⟨hfull, haggregated, hactive, hheld, hstep.nodup hinv h⟩

end Steps

/-- The search has gone on from one stage to another. -/
abbrev Continues (setting : Setting α) :
    Stage α × SearchState α → Stage α × SearchState α → Prop :=
  Relation.ReflTransGen fun p q => Step setting p.1 p.2 q.1 q.2

/-- The references at the moment of which an event tells are good then and later. -/
def Event.Refers (downshift : α) (later : Workspace α) : Event α → Prop
  | .consulted _ => True
  | .solved m | .tested m _ | .roundBegan m => m.Refers downshift [] later

section Runs

variable {setting : Setting α} {a b : Stage α} {s t start : SearchState α}

/-- Where a search goes on, the stage is reached from the start as well, and the workspace has
grown. -/
theorem Reached.continues (hinv : Inv setting .ready start.toMoment) (h : Reached setting start a s)
    (hon : Continues setting (a, s) (b, t)) :
    Reached setting start b t ∧ s.workspace.Grows t.workspace := by
  generalize hq : (b, t) = q at hon
  induction hon generalizing b t with
  | refl =>
    cases hq
    exact ⟨h, .refl _⟩
  | @tail p _ _ hstep ih =>
    cases hq
    obtain ⟨hreached, hgrows⟩ := ih (b := p.1) (t := p.2) rfl
    exact ⟨hreached.step hstep, hgrows.trans (hstep.advances (hreached.inv hinv)).grows⟩

/-- At every stage that a search reaches all references are good. -/
theorem Reached.refers (hinv : Inv setting .ready start.toMoment)
    (hempty : start.engine.fullCuts = [] ∧ start.engine.aggregatedCuts = [] ∧
      start.engine.active = .own []) (h : Reached setting start b s) :
    s.Refers setting.options.downshift b.inHand s.workspace := by
  induction h with
  | start => exact .of_empty hempty.1 hempty.2.1 hempty.2.2
  | step hreached hstep ih => exact hstep.refers (hreached.inv hinv) ih

/-- The references of which an event tells stay good. -/
theorem Event.Refers.later {downshift : α} {event : Event α} {w w' : Workspace α} {o : Oracle α}
    (h : event.Refers downshift w) (hw : w.WellFormed o) (hg : w.Grows w') :
    event.Refers downshift w' := by
  cases event with
  | consulted => trivial
  | solved | tested | roundBegan => exact Moment.Refers.later h hw hg

/-- So they are at every moment of which the journal tells. -/
theorem Reached.events_refer (hinv : Inv setting .ready start.toMoment)
    (hempty : start.engine.fullCuts = [] ∧ start.engine.aggregatedCuts = [] ∧
      start.engine.active = .own []) (hjournal : start.journal = #[])
    (h : Reached setting start b s) :
    ∀ event ∈ s.journal.toList, event.Refers setting.options.downshift s.workspace := by
  induction h with
  | start =>
    rw [hjournal]
    exact fun event hevent => absurd hevent List.not_mem_nil
  | @step a b s t hreached hstep ih =>
    have hinv' := hreached.inv hinv
    have hgrows := (hstep.advances hinv').grows
    obtain ⟨new, happend, hfits, _⟩ := hstep.records hinv'
    have hbefore := ((hreached.refers hinv hempty).later hinv'.base.wellFormed hgrows).drop
    have hafter := ((hreached.step hstep).refers hinv hempty).drop
    rw [happend]
    refine List.forall_mem_append.mpr ⟨fun event hevent => ?_, fun event hevent => ?_⟩
    · exact (ih event hevent).later hinv'.base.wellFormed hgrows
    · have hfit := hfits event hevent
      cases event with
      | consulted => trivial
      | solved m | tested m =>
        obtain ⟨rfl, _⟩ := hfit
        exact hafter
      | roundBegan m =>
        obtain ⟨rfl, _⟩ := hfit
        exact hbefore

end Runs

/-- How a call keeps the references into the bundle. -/
structure RefersThroughout (setting : Setting α) (entry final : SearchState α) : Prop where
  /-- The bundle has got new points only, with objective and gradient known. -/
  adds : entry.workspace.Adds final.workspace
  /-- While nothing was done yet, there is nothing to refer. -/
  fresh : ∀ s, Fresh entry s → s.Refers setting.options.downshift [] s.workspace
  /-- At every stage all references are good, and they are so at every later stage. -/
  passed : ∀ start, Opens setting entry start → ∀ a s, Reached setting start a s →
    ∀ b t, Continues setting (a, s) (b, t) →
      s.Refers setting.options.downshift a.inHand t.workspace
  /-- Those at the moments of which the journal tells are good in the end. -/
  told : ∀ event ∈ final.journal.toList, event.Refers setting.options.downshift final.workspace
  /-- So are those in the end. -/
  finally_refers : final.Refers setting.options.downshift [] final.workspace

section Call

variable {setting : Setting α} {entry start s : SearchState α} {b : Stage α}

/-- A search that has done nothing has no references. -/
theorem Fresh.refers (h : Fresh entry s) (downshift : α) (w : Workspace α) :
    s.Refers downshift [] w := .of_empty h.fullCuts_eq h.aggregatedCuts_eq h.active_eq

/-- A search that has done nothing has no cuts. -/
theorem Fresh.empty (h : Fresh entry s) : s.engine.fullCuts = [] ∧
    s.engine.aggregatedCuts = [] ∧ s.engine.active = .own [] :=
  ⟨h.fullCuts_eq, h.aggregatedCuts_eq, h.active_eq⟩

/-- A search that has done nothing has added nothing to the bundle. -/
theorem Fresh.adds (h : Fresh entry s) : entry.workspace.Adds s.workspace :=
  .of_bundle_eq h.bundle_eq

/-- In every call, however it comes out, the bundle gets new points only, all different and
with objective and gradient known, and all cuts that refer to the bundle are good at every
moment and stay so: each has the place of a point whose gradient is known and never
changes, and the bias that belongs to this point. No two full cuts refer to one place. -/
theorem references_stay_good (hw : entry.workspace.WellFormed setting.oracle) :
    RefersThroughout setting entry (finalState (Search.computeDirection setting entry)) := by
  have hcall := Search.computeDirection_cases hw
  have hfresh : ∀ s, Fresh entry s → s.Refers setting.options.downshift [] s.workspace :=
    fun s h => h.refers _ _
  have hpassed : ∀ start, Opens setting entry start → ∀ a s, Reached setting start a s →
      ∀ b t, Continues setting (a, s) (b, t) →
        s.Refers setting.options.downshift a.inHand t.workspace := by
    intro start hopens a s hreached b t hon
    exact (hreached.refers hopens.inv hopens.toFresh.empty).later
      (hreached.inv hopens.inv).base.wellFormed (hreached.continues hopens.inv hon).2
  generalize Search.computeDirection setting entry = result at hcall ⊢
  obtain ⟨s, hclose, hcourse⟩ := hcall.closing
  have hquiet : Quiet setting.oracle s (finalState result) := by
    rcases hclose with hsame | hcloses
    · exact hsame ▸ .refl _ _
    · exact hcloses.quiet setting.oracle
  have hbundle : (finalState result).workspace.bundle = s.workspace.bundle := by
    rcases hclose with hsame | hcloses
    · rw [hsame]
    · exact hcloses.bundle_eq
  rcases hcourse with hnothing | ⟨start, stage, hopens, hreached⟩
  · refine ⟨.of_bundle_eq (hbundle.trans hnothing.bundle_eq), hfresh, hpassed, ?_, ?_⟩
    · rw [hquiet.journal_eq, hnothing.journal_eq]
      exact fun event hevent => absurd hevent List.not_mem_nil
    · exact .of_empty (hquiet.fullCuts_eq.trans hnothing.fullCuts_eq)
        (hquiet.aggregatedCuts_eq.trans hnothing.aggregatedCuts_eq)
        (hquiet.active_eq.trans hnothing.active_eq)
  · have hwf := (hreached.inv hopens.inv).base.wellFormed
    have hadds := hreached.adds hopens.inv hopens.toFresh.adds hopens.grows.size_le
    have hrefers := hreached.refers hopens.inv hopens.toFresh.empty
    refine ⟨hadds.grows hwf hquiet.grows (congrArg Array.toList hbundle), hfresh, hpassed, ?_,
      hrefers.drop.keeps hwf hquiet.toKeeps⟩
    rw [hquiet.journal_eq]
    exact fun event hevent => (hreached.events_refer hopens.inv hopens.toFresh.empty
      hopens.journal_eq event hevent).later hwf hquiet.grows

end Call

/-- Across the valley the bundle gets three new points; all of them and the old one have a
cut among the full cuts in the end. -/
theorem references_stay_good_across_valley :
    (finalState (Search.computeDirection condensing acrossValley)).workspace.bundle.toList =
        [1, 4, 5, 6] ∧
      Cut.positions (finalState
        (Search.computeDirection condensing acrossValley)).engine.fullCuts = [0, 1, 2, 3] ∧
      RefersThroughout condensing acrossValley
        (finalState (Search.computeDirection condensing acrossValley)) := by
  have hw : acrossValley.workspace.WellFormed condensing.oracle := wellFormed_acrossValley
  refine ⟨?_, ?_, references_stay_good hw⟩
  · decide +kernel
  · decide +kernel

end NonsmoothDescent

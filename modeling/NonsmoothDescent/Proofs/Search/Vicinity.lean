import NonsmoothDescent.Proofs.Search.Neighbours
import NonsmoothDescent.Proofs.Tandem
import NonsmoothDescent.Proofs.Workspace.Pairing

/-!
# Vicinities

The vicinity of the current point is this point itself and the near points of the bundle. Two
workspaces with the same vicinity differ in far points only, which may stand anywhere in the
bundles and of which anything may be known. So the numbers of samples are not the same in
both, nor are the places in the bundles: a renaming takes the samples of the one vicinity to
those of the other, and whatever is made later has its number behind all samples that were
there before.

Two runs from such workspaces make the same evaluations, the same trial points and the same
additions to their bundles, under other numbers, and leave the far points alone.
-/

namespace NonsmoothDescent

variable {α : Type} [Scalar α]

namespace Workspace

omit [Scalar α] in
/-- The workspace less its samples, what refers to them, and the notices. -/
def withoutPoints (w : Workspace α) : Workspace α :=
  { w with samples := #[], bundle := #[], current := 0, trial := 0, notices := #[] }

/-- The near points of the bundle, in order. -/
def nearPoints (w : Workspace α) : List SampleId := w.bundle.toList.filter w.isNear

/-- The sample is the current point or a near point of the bundle. -/
def InVicinity (w : Workspace α) (id : SampleId) : Prop := id = w.current ∨ id ∈ w.nearPoints

/-- The near points are those that are found with their distances. -/
theorem map_fst_nearby (w : Workspace α) : w.nearby.map Prod.fst = w.nearPoints := by
  have hfilter : w.nearby = w.bundle.toList.zipIdx.filter (w.isNear ∘ Prod.fst) := rfl
  rw [hfilter, ← List.filter_map, List.zipIdx_map_fst]
  rfl

/-- The workspaces differ in far points only: all else is the same, the samples of the vicinity
under other numbers. -/
structure SameVicinity (rename : SampleId → SampleId) (w w' : Workspace α) : Prop where
  rest_eq : w'.withoutPoints = w.withoutPoints
  current_eq : w'.current = rename w.current
  near_eq : w'.nearPoints = w.nearPoints.map rename
  sample_eq : ∀ id, w.InVicinity id → w'.sampleAt (rename id) = w.sampleAt id
  injective : ∀ i j, w.InVicinity i → w.InVicinity j → rename i = rename j → i = j

/-- Places of one and the same point in the bundles of two runs: of a near point, counted
among the near points only, or of a point that was appended later. -/
inductive SamePlace (w w' : Workspace α) : Nat → Nat → Prop where
  | near {i j : SampleId} {place place' : Nat} (k : Nat) (h : w.nearby[k]? = some (i, place))
      (h' : w'.nearby[k]? = some (j, place')) : SamePlace w w' place place'
  | appended (k : Nat) : SamePlace w w' (w.bundle.size + k) (w'.bundle.size + k)

variable {o : Oracle α} {w w' : Workspace α} {id : SampleId}

/-- What is in the vicinity is a sample. -/
theorem Sized.lt_of_inVicinity (h : w.Sized o) (hid : w.InVicinity id) :
    id < w.samples.size := by
  rcases hid with rfl | hmem
  · exact h.current_lt
  · exact h.bundle_lt id (List.mem_of_mem_filter hmem)

/-- The near points are found by their positions, so they are found again as long as bundle,
radii and current point are the same. -/
theorem Sized.near_of_remembers (h : w.Sized o) (hw : w.Remembers o w')
    (hbundle : w'.bundle = w.bundle) (hradii : w'.radii = w.radii)
    (hcurrent : w'.current = w.current) :
    Cut.near w'.currentSample.position w'.radii.stationarity w'.points =
      .ok (w.nearby.map Prod.snd) := by
  have hposition : ∀ id < w.samples.size, (w'.sampleAt id).position = (w.sampleAt id).position :=
    fun id hid => (hw.refines id hid).position_eq
  have hhere : w'.currentSample.position = w.currentSample.position := by
    rw [currentSample, hcurrent]
    exact hposition _ h.current_lt
  have hlength : ∀ p ∈ w'.points, w'.currentSample.position.length = p.position.length := by
    intro p hp
    rw [points, hbundle] at hp
    obtain ⟨id, hid, rfl⟩ := List.mem_map.mp hp
    have hlt := h.bundle_lt id hid
    rw [hhere, hposition id hlt]
    exact (h.length_position _ h.current_lt).trans (h.length_position id hlt).symm
  have hnear : ∀ p ∈ w.bundle.toList.zipIdx, Cut.isNear w'.currentSample.position
      w'.radii.stationarity (w'.sampleAt p.1) = w.isNear p.1 := by
    intro p hp
    have hlt := h.bundle_lt p.1 (List.fst_mem_of_mem_zipIdx hp)
    rw [isNear, Cut.isNear, Cut.isNear, hhere, hposition p.1 hlt, hradii]
  rw [Cut.near_eq _ hlength, points, nearby, ← List.filter_congr hnear, hbundle,
    List.zipIdx_map, List.filter_map, List.map_map]
  rfl

omit [Scalar α] in
/-- A place that is counted from the start is looked up directly. -/
theorem pointAt_natCast (w : Workspace α) (place : Nat) :
    w.pointAt place = w.bundle[place]?.map w.sampleAt := by
  unfold pointAt
  by_cases hplace : place < w.bundle.size
  · rw [Position.resolve?_ofNat hplace]
    rfl
  · have hnone : Position.resolve? w.bundle.size place = none := by
      cases hfound : Position.resolve? w.bundle.size place with
      | none => rfl
      | some found =>
        simp only [Position.resolve?, Option.ite_none_right_eq_some, Option.some.injEq] at hfound
        omega
    rw [hnone, Array.getElem?_eq_none (not_lt.mp hplace)]
    rfl

omit [Scalar α] in
/-- A new sample stands behind the old ones, which stay. -/
theorem sampleAt_withSample (s : Sample α) (w : Workspace α) (i : Nat) :
    (w.withSample s).sampleAt i = if i = w.samples.size then s else w.sampleAt i := by
  rcases Nat.lt_trichotomy i w.samples.size with hlt | rfl | hgt
  · rw [if_neg hlt.ne]
    exact sampleAt_push_of_lt hlt
  · rw [if_pos rfl]
    exact sampleAt_push_size w s
  · have hbehind : ¬i < (w.withSample s).samples.size := by
      rw [withSample, Array.size_push]
      exact not_lt.mpr hgt
    rw [if_neg hgt.ne', sampleAt_of_not_lt hbehind, sampleAt_of_not_lt hgt.le.not_gt]

/-- Far points that are put between the points of the bundle leave the vicinity as it is. -/
theorem sameVicinity_of_inserted {added : Array (Sample α)} {bundle : Array SampleId}
    (hcurrent : w.current < w.samples.size)
    (hbundle : bundle.toList.filter (fun id => decide (id < w.samples.size)) = w.bundle.toList)
    (hfar : ∀ id ∈ bundle.toList, w.samples.size ≤ id →
      ({ w with samples := w.samples ++ added, bundle } : Workspace α).isNear id = false) :
    SameVicinity (fun i => i) w { w with samples := w.samples ++ added, bundle } := by
  let w' : Workspace α := { w with samples := w.samples ++ added, bundle }
  have hat : ∀ i < w.samples.size, w'.sampleAt i = w.sampleAt i := by
    intro i hi
    rw [sampleAt_eq, sampleAt_eq]
    exact congrArg (Option.getD · _) (Array.getElem?_append_left hi)
  have hnear : ∀ i < w.samples.size, w'.isNear i = w.isNear i := by
    intro i hi
    have hhere : w'.currentSample = w.currentSample := hat _ hcurrent
    rw [isNear, isNear, hhere, hat i hi]
  have hold : ∀ i ∈ w.bundle.toList, i < w.samples.size := by
    intro i hi
    rw [← hbundle] at hi
    exact of_decide_eq_true (List.mem_filter.mp hi).2
  refine ⟨rfl, rfl, ?_, fun i hi => hat i ?_, fun _ _ _ _ hij => hij⟩
  · have hfilter : w'.nearPoints = (bundle.toList.filter
        fun i => decide (i < w.samples.size)).filter w.isNear := by
      rw [List.filter_filter]
      refine List.filter_congr fun i hi => ?_
      by_cases hlt : i < w.samples.size
      · rw [hnear i hlt, decide_eq_true hlt, Bool.and_true]
      · rw [decide_eq_false hlt, Bool.and_false]
        exact hfar i hi (not_lt.mp hlt)
    rw [List.map_id', hfilter, hbundle]
    rfl
  · rcases hi with rfl | hmem
    · exact hcurrent
    · exact hold i (List.mem_of_mem_filter hmem)

end Workspace

/-- Two workspaces that have the same vicinity, and the renaming between them. -/
structure Vicinity (o : Oracle α) where
  /-- The workspace of the first run. -/
  first : Workspace α
  /-- The workspace of the second run. -/
  second : Workspace α
  /-- The number in the second workspace of a sample of the vicinity. -/
  rename : SampleId → SampleId
  sized : first.Sized o
  sized' : second.Sized o
  same : Workspace.SameVicinity rename first second

namespace Vicinity

variable {o : Oracle α} (v : Vicinity o)

/-- The sample is one that both runs have: of the vicinity, or made later. -/
def Shares (id : Nat) : Prop := v.first.samples.size ≤ id ∨ v.first.InVicinity id

/-- The number that a sample has in the second run. -/
def image (id : Nat) : Nat :=
  if id < v.first.samples.size then v.rename id
  else v.second.samples.size + (id - v.first.samples.size)

variable {v} {i j id : Nat}

/-- In the vicinity the number in the second run is given by the renaming. -/
theorem image_of_inVicinity (hid : v.first.InVicinity id) : v.image id = v.rename id :=
  if_pos (v.sized.lt_of_inVicinity hid)

/-- Samples that are made later have numbers behind those of the start in both runs. -/
theorem image_of_le (hid : v.first.samples.size ≤ id) :
    v.image id = v.second.samples.size + (id - v.first.samples.size) := if_neg (not_lt.mpr hid)

/-- Samples that are made one after the other are numbered so in both runs. -/
theorem image_succ (hid : v.first.samples.size ≤ id) : v.image (id + 1) = v.image id + 1 := by
  rw [image_of_le hid, image_of_le (Nat.le_succ_of_le hid)]
  omega

/-- The current point of the one is that of the other. -/
theorem image_current : v.image v.first.current = v.second.current := by
  rw [image_of_inVicinity (.inl rfl), v.same.current_eq]

/-- Both runs have the current point. -/
theorem shares_current : v.Shares v.first.current := .inr (.inl rfl)

/-- The renaming leads from the one vicinity to the other. -/
theorem inVicinity_image (hid : v.first.InVicinity id) : v.second.InVicinity (v.image id) := by
  rw [image_of_inVicinity hid]
  rcases hid with rfl | hmem
  · exact .inl v.same.current_eq.symm
  · right
    rw [v.same.near_eq]
    exact List.mem_map_of_mem hmem

/-- It leads to samples. -/
theorem image_lt (hid : v.first.InVicinity id) : v.image id < v.second.samples.size :=
  v.sized'.lt_of_inVicinity (inVicinity_image hid)

/-- Samples that both runs have are told apart in both. -/
theorem image_inj (hi : v.Shares i) (hj : v.Shares j) : v.image i = v.image j ↔ i = j := by
  refine ⟨fun heq => ?_, congrArg v.image⟩
  rcases hi with hi | hi <;> rcases hj with hj | hj
  · rw [image_of_le hi, image_of_le hj] at heq
    omega
  · have hlt := image_lt hj
    rw [← heq, image_of_le hi] at hlt
    omega
  · have hlt := image_lt hi
    rw [heq, image_of_le hj] at hlt
    omega
  · rw [image_of_inVicinity hi, image_of_inVicinity hj] at heq
    exact v.same.injective i j hi hj heq

/-- The near points of the two bundles are the same, one by one. -/
theorem rename_of_nearby {k place place' : Nat} (h : v.first.nearby[k]? = some (i, place))
    (h' : v.second.nearby[k]? = some (j, place')) : j = v.image i ∧ v.Shares i := by
  have hmem : i ∈ v.first.nearPoints := by
    rw [← Workspace.map_fst_nearby]
    exact List.mem_map_of_mem (List.mem_of_getElem? h)
  have hlists : v.second.nearPoints[k]? = (v.first.nearPoints.map v.rename)[k]? := by
    rw [v.same.near_eq]
  rw [← Workspace.map_fst_nearby, ← Workspace.map_fst_nearby, List.map_map, List.getElem?_map,
    List.getElem?_map, h, h'] at hlists
  refine ⟨?_, .inr (.inr hmem)⟩
  rw [image_of_inVicinity (.inr hmem)]
  exact Option.some.inj hlists

variable (v) in
/-- The workspaces of the two runs match. Bundles and radii are still those of the start as
long as the flag says so. -/
structure Matches (untouched : Prop) (w w' : Workspace α) : Prop where
  rest_eq : w'.withoutPoints = w.withoutPoints
  size_le : v.first.samples.size ≤ w.samples.size
  size_eq : w'.samples.size = v.image w.samples.size
  current_eq : w.current = v.first.current
  current_eq' : w'.current = v.second.current
  shares_trial : v.Shares w.trial
  trial_eq : w'.trial = v.image w.trial
  sample_eq : ∀ id, v.Shares id → w'.sampleAt (v.image id) = w.sampleAt id
  spared : ∀ id, ¬v.Shares id → w.sampleAt id = v.first.sampleAt id
  spared' : ∀ id', (∀ id, v.Shares id → v.image id ≠ id') →
    w'.sampleAt id' = v.second.sampleAt id'
  bundle : ∃ added : List Nat, w.bundle.toList = v.first.bundle.toList ++ added ∧
    w'.bundle.toList = v.second.bundle.toList ++ added.map v.image ∧ ∀ id ∈ added, v.Shares id
  untouched : untouched →
    w.bundle = v.first.bundle ∧ w'.bundle = v.second.bundle ∧ w.radii = v.first.radii

/-- Samples that both have are the same at the start. -/
theorem sampleAt_image (hid : v.Shares id) :
    v.second.sampleAt (v.image id) = v.first.sampleAt id := by
  rcases hid with hid | hid
  · have hbehind : ¬v.image id < v.second.samples.size := by
      rw [image_of_le hid]
      omega
    rw [Workspace.sampleAt_of_not_lt hbehind, Workspace.sampleAt_of_not_lt (not_lt.mpr hid)]
  · rw [image_of_inVicinity hid, v.same.sample_eq id hid]

/-- The workspaces match to begin with, once the trial points are the current ones. -/
theorem matches_reset : v.Matches True { v.first with trial := v.first.current }
    { v.second with trial := v.second.current } where
  rest_eq := v.same.rest_eq
  size_le := Nat.le_refl _
  size_eq := by
    dsimp only
    rw [image_of_le (Nat.le_refl _), Nat.sub_self, Nat.add_zero]
  current_eq := rfl
  current_eq' := rfl
  shares_trial := shares_current
  trial_eq := image_current.symm
  sample_eq _ hid := sampleAt_image hid
  spared _ _ := rfl
  spared' _ _ := rfl
  bundle := ⟨[], (List.append_nil _).symm, (List.append_nil _).symm, by simp⟩
  untouched _ := ⟨rfl, rfl, rfl⟩

variable (v) in
/-- The runs have the same value, and their workspaces match. -/
def Alike {β : Type} (untouched : Prop) (b : β) (w : Workspace α) (c : β) (w' : Workspace α) :
    Prop := c = b ∧ v.Matches untouched w w'

namespace Matches

variable {p q : Prop} {w w' u u' : Workspace α} {e : Sample α}

/-- Workspaces that match with bundles and radii of the start match without. -/
theorem imp (h : v.Matches p w w') (hq : q → p) : v.Matches q w w' :=
  { h with untouched := fun hq' => h.untouched (hq hq') }

/-- The runs have as many variables. -/
theorem dimension_eq (h : v.Matches p w w') : w'.dimension = w.dimension :=
  (congrArg Workspace.dimension h.rest_eq :)

/-- The runs have the same radii. -/
theorem radii_eq (h : v.Matches p w w') : w'.radii = w.radii :=
  (congrArg Workspace.radii h.rest_eq :)

/-- The runs have the same direction. -/
theorem direction_eq (h : v.Matches p w w') : w'.direction = w.direction :=
  (congrArg Workspace.direction h.rest_eq :)

/-- The runs have the same current point. -/
theorem currentSample_eq (h : v.Matches p w w') : w'.currentSample = w.currentSample := by
  have hsame := h.sample_eq _ shares_current
  rw [image_current, ← h.current_eq, ← h.current_eq'] at hsame
  exact hsame

/-- The runs have the same trial point. -/
theorem trialSample_eq (h : v.Matches p w w') : w'.trialSample = w.trialSample := by
  have hsame := h.sample_eq _ h.shares_trial
  rw [← h.trial_eq] at hsame
  exact hsame

/-- At places of the same point the bundles have this point. -/
theorem bundle_getElem? (h : v.Matches p w w') {place place' : Nat}
    (hplace : Workspace.SamePlace v.first v.second place place') :
    w'.bundle[place']? = w.bundle[place]?.map v.image ∧
      ∀ id, w.bundle[place]? = some id → v.Shares id := by
  obtain ⟨added, hadded, hadded', hshares⟩ := h.bundle
  rw [← Array.getElem?_toList, ← Array.getElem?_toList, hadded, hadded']
  cases hplace with
  | near k hk hk' =>
    obtain ⟨himage, hi⟩ := rename_of_nearby hk hk'
    obtain ⟨hat, -⟩ := Workspace.mem_nearby_iff.mp (List.mem_of_getElem? hk)
    obtain ⟨hat', -⟩ := Workspace.mem_nearby_iff.mp (List.mem_of_getElem? hk')
    rw [← Array.getElem?_toList] at hat hat'
    rw [List.getElem?_append_left (List.getElem?_eq_some_iff.mp hat).1,
      List.getElem?_append_left (List.getElem?_eq_some_iff.mp hat').1, hat, hat', himage]
    exact ⟨rfl, fun id hid => Option.some.inj hid ▸ hi⟩
  | appended k =>
    rw [List.getElem?_append_right (by simp), List.getElem?_append_right (by simp),
      Array.length_toList, Array.length_toList, Nat.add_sub_cancel_left, Nat.add_sub_cancel_left,
      List.getElem?_map]
    exact ⟨rfl, fun id hid => hshares id (List.mem_of_getElem? hid)⟩

/-- Places of the same point stand for the same sample. -/
theorem pointAt_eq (h : v.Matches p w w') {place place' : Nat}
    (hplace : Workspace.SamePlace v.first v.second place place') :
    w'.pointAt place' = w.pointAt place := by
  obtain ⟨hat, hshares⟩ := h.bundle_getElem? hplace
  rw [Workspace.pointAt_natCast, Workspace.pointAt_natCast, hat]
  cases hid : w.bundle[place]? with
  | none => rfl
  | some id => exact congrArg some (h.sample_eq id (hshares id hid))

/-- The same sample in place of one that both runs have, or behind all samples. -/
theorem update (h : v.Matches p w w') (hid : v.Shares id)
    (hat : ∀ i, u.sampleAt i = if i = id then e else w.sampleAt i)
    (hat' : ∀ i, u'.sampleAt i = if i = v.image id then e else w'.sampleAt i) :
    (∀ i, v.Shares i → u'.sampleAt (v.image i) = u.sampleAt i) ∧
      (∀ i, ¬v.Shares i → u.sampleAt i = v.first.sampleAt i) ∧
      ∀ i', (∀ i, v.Shares i → v.image i ≠ i') → u'.sampleAt i' = v.second.sampleAt i' := by
  refine ⟨fun i hi => ?_, fun i hi => ?_, fun i' hi' => ?_⟩
  · rw [hat, hat']
    simp only [image_inj hi hid]
    split
    · rfl
    · exact h.sample_eq i hi
  · have hne : i ≠ id := fun heq => hi (heq ▸ hid)
    rw [hat, if_neg hne, h.spared i hi]
  · rw [hat', if_neg (hi' id hid).symm, h.spared' i' hi']

/-- Replacing a sample that both have by the same one keeps the workspaces matched. -/
theorem replace (h : v.Matches p w w') (hid : v.Shares id)
    (hrest : u'.withoutPoints = u.withoutPoints) (hradii : u.radii = w.radii)
    (hu : Workspace.Replaces w u id e) (hu' : Workspace.Replaces w' u' (v.image id) e) :
    v.Matches p u u' := by
  obtain ⟨hsample, hspared, hspared'⟩ := h.update hid hu.sampleAt_eq hu'.sampleAt_eq
  obtain ⟨-, hsize, -, hbundle, hcurrent, htrial, -⟩ := hu
  obtain ⟨-, hsize', -, hbundle', hcurrent', htrial', -⟩ := hu'
  refine ⟨hrest, hsize ▸ h.size_le, ?_, hcurrent.trans h.current_eq,
    hcurrent'.trans h.current_eq', htrial ▸ h.shares_trial, ?_, hsample, hspared, hspared', ?_, ?_⟩
  · rw [hsize, hsize', h.size_eq]
  · rw [htrial, htrial', h.trial_eq]
  · rw [hbundle, hbundle']
    exact h.bundle
  · rw [hbundle, hbundle', hradii]
    exact h.untouched

/-- Evaluating the objective of a sample that both have keeps them matched. -/
theorem withObjective (h : v.Matches p w w') (hid : v.Shares id) :
    v.Matches p (w.withObjective o id) (w'.withObjective o (v.image id)) := by
  have hsame := h.sample_eq id hid
  have hreplaces : ∀ (w : Workspace α) (id : SampleId), Workspace.Replaces w
      (w.withObjective o id) id ((w.sampleAt id).evaluateObjective o).1 := fun w id =>
    ⟨rfl, Array.size_setIfInBounds, Workspace.sampleAt_withObjective o id w, rfl, rfl, rfl, rfl⟩
  refine h.replace hid ?_ rfl (hreplaces w id) (hsame ▸ hreplaces w' (v.image id))
  unfold Workspace.withObjective Workspace.withoutPoints
  rw [hsame]
  generalize (w.sampleAt id).objective.isPending = pending
  exact congrArg (fun w : Workspace α =>
    { w with objectiveEvaluations := if pending then w.objectiveEvaluations + 1
        else w.objectiveEvaluations }) h.rest_eq

/-- Evaluating the gradient of a sample that both have keeps them matched. -/
theorem withGradient (h : v.Matches p w w') (hid : v.Shares id) :
    v.Matches p (w.withGradient o id) (w'.withGradient o (v.image id)) := by
  have hsame := h.sample_eq id hid
  have hreplaces : ∀ (w : Workspace α) (id : SampleId), Workspace.Replaces w
      (w.withGradient o id) id ((w.sampleAt id).evaluateGradient o).1 := fun w id =>
    ⟨rfl, Array.size_setIfInBounds, Workspace.sampleAt_withGradient o id w, rfl, rfl, rfl, rfl⟩
  refine h.replace hid ?_ rfl (hreplaces w id) (hsame ▸ hreplaces w' (v.image id))
  unfold Workspace.withGradient Workspace.withoutPoints
  rw [hsame]
  generalize (w.sampleAt id).gradient.isPending = pending
  exact congrArg (fun w : Workspace α =>
    { w with gradientEvaluations := if pending then w.gradientEvaluations + 1
        else w.gradientEvaluations }) h.rest_eq

/-- Both runs have one more sample, the same one, and it is their trial point. -/
theorem withSample (h : v.Matches p w w') (s : Sample α) :
    v.Matches p (w.withSample s) (w'.withSample s) := by
  have hnew : v.Shares w.samples.size := .inl h.size_le
  have hsize : (w.withSample s).samples.size = w.samples.size + 1 := Array.size_push _
  have hsize' : (w'.withSample s).samples.size = w'.samples.size + 1 := Array.size_push _
  have hat' := Workspace.sampleAt_withSample s w'
  rw [h.size_eq] at hat'
  obtain ⟨hsample, hspared, hspared'⟩ := h.update hnew (Workspace.sampleAt_withSample s w) hat'
  refine { h with
    size_le := hsize ▸ Nat.le_succ_of_le h.size_le
    size_eq := ?_
    shares_trial := hnew
    trial_eq := h.size_eq
    sample_eq := hsample
    spared := hspared
    spared' := hspared' }
  rw [hsize, hsize', h.size_eq, image_succ h.size_le]

/-- Both runs put a sample that they have behind their bundles. -/
theorem bundled (h : v.Matches p w w') (hid : v.Shares id) :
    v.Matches False (w.bundled id) (w'.bundled (v.image id)) := by
  refine { h with bundle := ?_, untouched := False.elim }
  obtain ⟨added, hadded, hadded', hshares⟩ := h.bundle
  refine ⟨added ++ [id], ?_, ?_, ?_⟩
  · rw [Workspace.bundled, Array.toList_push, hadded, List.append_assoc]
  · rw [Workspace.bundled, Array.toList_push, hadded', List.map_append, List.append_assoc]
    rfl
  · intro i hi
    rcases List.mem_append.mp hi with hold | hnew
    · exact hshares i hold
    · exact List.mem_singleton.mp hnew ▸ hid

end Matches

end Vicinity

end NonsmoothDescent

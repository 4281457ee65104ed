import NonsmoothDescent.Proofs.Subproblem.Outcome

/-!
# Batches of planes

Planes come in batches of slopes and biases. A batch fits if there are as many of one as
of the other and every slope has one entry per variable; any other is refused, for the
first of these reasons that applies. A refused batch leaves no trace in the solver, so a
session with refused batches is the session without them.

What a solver holds is then the last batch that replaced the planes, followed by those
added since. Slopes and biases stay in step, and one replacement by all of them together
holds the same planes.
-/

namespace NonsmoothDescent.Solver

/-- Slopes and biases as they are given. -/
structure Batch (α : Type) where
  /-- The slopes, of any lengths. -/
  slopes : List (List α)
  /-- The biases. -/
  biases : List α

variable {α : Type}

namespace Batch

/-- There is one bias per slope, and one entry per variable in every slope. -/
structure Fits (dimension : Nat) (b : Batch α) : Prop where
  counts : b.slopes.length = b.biases.length
  sizes : ∀ slope ∈ b.slopes, slope.length = dimension

instance (dimension : Nat) (b : Batch α) : Decidable (b.Fits dimension) :=
  decidable_of_iff
    (b.slopes.length = b.biases.length ∧ ∀ slope ∈ b.slopes, slope.length = dimension)
    ⟨fun h => ⟨h.1, h.2⟩, fun h => ⟨h.counts, h.sizes⟩⟩

/-- Why a batch is refused. Slopes of several lengths count before their common length
does, and neither is looked at if the numbers of slopes and biases differ. -/
inductive Refusal (dimension : Nat) (b : Batch α) : Fault α → Prop where
  | counts (h : b.slopes.length ≠ b.biases.length) :
      Refusal dimension b (.biasCount b.slopes.length b.biases.length)
  | uneven (h : b.slopes.length = b.biases.length) {v w : List α} (hv : v ∈ b.slopes)
      (hw : w ∈ b.slopes) (hne : v.length ≠ w.length) : Refusal dimension b .sizeMismatch
  | size (h : b.slopes.length = b.biases.length) {n : Nat} (hsome : b.slopes ≠ [])
      (hall : ∀ slope ∈ b.slopes, slope.length = n) (hne : n ≠ dimension) :
      Refusal dimension b (.coefficientSize n dimension)

variable {dimension : Nat} {b : Batch α}

/-- What there is reason to refuse does not fit. -/
theorem Refusal.not_fits {fault : Fault α} (h : b.Refusal dimension fault) :
    ¬b.Fits dimension := by
  intro hfits
  cases h with
  | counts hne => exact hne hfits.counts
  | uneven _ hv hw hne => exact hne ((hfits.sizes _ hv).trans (hfits.sizes _ hw).symm)
  | size _ hsome hall hne =>
    obtain ⟨slope, hslope⟩ := List.exists_mem_of_ne_nil _ hsome
    exact hne ((hall slope hslope).symm.trans (hfits.sizes slope hslope))

/-- A batch is refused for one reason only. -/
theorem Refusal.unique {fault other : Fault α} (h : b.Refusal dimension fault)
    (h' : b.Refusal dimension other) : fault = other := by
  cases h with
  | counts hne =>
    cases h' with
    | counts => rfl
    | uneven heq | size heq => exact absurd heq hne
  | uneven heq hv hw hne =>
    cases h' with
    | counts hcounts => exact absurd heq hcounts
    | uneven => rfl
    | size _ _ hall => exact absurd ((hall _ hv).trans (hall _ hw).symm) hne
  | size heq hsome hall =>
    cases h' with
    | counts hcounts => exact absurd heq hcounts
    | uneven _ hv hw hne => exact absurd ((hall _ hv).trans (hall _ hw).symm) hne
    | size _ _ hall' =>
      obtain ⟨slope, hslope⟩ := List.exists_mem_of_ne_nil _ hsome
      rw [← hall slope hslope, ← hall' slope hslope]

/-- What comes of a batch: its planes if it fits, and else the reason to refuse it. -/
theorem outcome (dimension : Nat) (b : Batch α) :
    (b.Fits dimension ∧
      batch dimension b.slopes b.biases = .ok (List.zipWith Plane.mk b.slopes b.biases)) ∨
    ∃ fault, b.Refusal dimension fault ∧ batch dimension b.slopes b.biases = .error fault := by
  obtain ⟨slopes, biases⟩ := b
  unfold batch
  by_cases hcounts : slopes.length = biases.length
  case neg => exact .inr ⟨_, .counts hcounts, if_pos hcounts⟩
  rw [if_neg (not_not_intro hcounts)]
  cases slopes with
  | nil => exact .inl ⟨⟨hcounts, nofun⟩, rfl⟩
  | cons first rest =>
    dsimp only
    by_cases huneven : rest.any (·.length ≠ first.length)
    · obtain ⟨slope, hslope, hne⟩ := List.any_eq_true.mp huneven
      refine .inr ⟨.sizeMismatch, ?_, if_pos huneven⟩
      exact .uneven hcounts (List.mem_cons_of_mem _ hslope) List.mem_cons_self
        (of_decide_eq_true hne)
    rw [if_neg huneven]
    have heven : ∀ slope ∈ first :: rest, slope.length = first.length := by
      simpa using huneven
    by_cases hsize : first.length = dimension
    · rw [if_neg (not_not_intro hsize)]
      exact .inl ⟨⟨hcounts, fun slope hslope => (heven slope hslope).trans hsize⟩, rfl⟩
    · exact .inr ⟨_, .size hcounts (List.cons_ne_nil _ _) heven hsize, if_pos hsize⟩

/-- A batch that fits becomes the planes of its slopes and biases. -/
theorem batch_of_fits (h : b.Fits dimension) :
    batch dimension b.slopes b.biases = .ok (List.zipWith Plane.mk b.slopes b.biases) := by
  rcases b.outcome dimension with ⟨-, hok⟩ | ⟨_, hrefusal, -⟩
  · exact hok
  · exact absurd h hrefusal.not_fits

/-- A batch is refused for the reasons there are, and for no others. -/
theorem batch_eq_error_iff {fault : Fault α} :
    batch dimension b.slopes b.biases = .error fault ↔ b.Refusal dimension fault := by
  rcases b.outcome dimension with ⟨hfits, hok⟩ | ⟨_, hrefusal, herror⟩
  · rw [hok]
    exact ⟨nofun, fun h => absurd hfits h.not_fits⟩
  · rw [herror, Except.error.injEq]
    exact ⟨fun h => h ▸ hrefusal, fun h => hrefusal.unique h⟩

/-- A batch fits if it is accepted. -/
theorem fits_iff :
    b.Fits dimension ↔ ∃ planes, batch dimension b.slopes b.biases = .ok planes := by
  refine ⟨fun h => ⟨_, batch_of_fits h⟩, fun ⟨_, hok⟩ => ?_⟩
  rcases b.outcome dimension with ⟨hfits, -⟩ | ⟨_, -, herror⟩
  · exact hfits
  · cases hok.symm.trans herror

/-- A batch that does not fit is refused for a reason. -/
theorem exists_refusal_iff : (∃ fault, b.Refusal dimension fault) ↔ ¬b.Fits dimension := by
  refine ⟨fun ⟨_, h⟩ => h.not_fits, fun hnot => ?_⟩
  rcases b.outcome dimension with ⟨hfits, -⟩ | ⟨fault, hrefusal, -⟩
  · exact absurd hfits hnot
  · exact ⟨fault, hrefusal⟩

/-- One batch behind another. -/
instance : Append (Batch α) := ⟨fun b c => ⟨b.slopes ++ c.slopes, b.biases ++ c.biases⟩⟩

/-- The slopes of joined batches are joined. -/
@[simp] theorem slopes_append (b c : Batch α) : (b ++ c).slopes = b.slopes ++ c.slopes := rfl

/-- The biases of joined batches are joined. -/
@[simp] theorem biases_append (b c : Batch α) : (b ++ c).biases = b.biases ++ c.biases := rfl

/-- Batches one behind the other, as one batch. -/
def joined (batches : List (Batch α)) : Batch α :=
  ⟨batches.flatMap slopes, batches.flatMap biases⟩

/-- Nothing behind a batch leaves it as it is. -/
theorem append_joined_nil (b : Batch α) : b ++ joined [] = b :=
  congrArg₂ Batch.mk (List.append_nil _) (List.append_nil _)

/-- Batches may be joined in any grouping. -/
theorem append_assoc (b c d : Batch α) : b ++ c ++ d = b ++ (c ++ d) :=
  congrArg₂ Batch.mk (List.append_assoc ..) (List.append_assoc ..)

/-- One batch is joined already. -/
theorem joined_singleton (b : Batch α) : joined [b] = b :=
  congrArg₂ Batch.mk (List.append_nil _) (List.append_nil _)

/-- Lists of batches are joined part by part. -/
theorem joined_append (early late : List (Batch α)) :
    joined (early ++ late) = joined early ++ joined late := by
  simp only [joined, List.flatMap_append]
  rfl

/-- Batches that fit do so one behind the other. -/
theorem Fits.append {c : Batch α} (h : b.Fits dimension) (h' : c.Fits dimension) :
    (b ++ c).Fits dimension := by
  refine ⟨?_, List.forall_mem_append.mpr ⟨h.sizes, h'.sizes⟩⟩
  rw [slopes_append, biases_append, List.length_append, List.length_append, h.counts, h'.counts]

/-- Batches that all fit do so as one. -/
theorem fits_joined {batches : List (Batch α)} (h : ∀ b ∈ batches, b.Fits dimension) :
    (joined batches).Fits dimension := by
  induction batches with
  | nil => exact ⟨rfl, nofun⟩
  | cons b batches ih =>
    obtain ⟨hb, hrest⟩ := List.forall_mem_cons.mp h
    exact hb.append (ih hrest)

/-- Planes taken apart. -/
def ofPlanes (planes : List (Plane α)) : Batch α :=
  ⟨planes.map Plane.slope, planes.map Plane.bias⟩

/-- Planes are taken apart list by list. -/
theorem ofPlanes_append (early late : List (Plane α)) :
    ofPlanes (early ++ late) = ofPlanes early ++ ofPlanes late := by
  simp only [ofPlanes, List.map_append]
  rfl

/-- Nothing is lost when the slopes and biases of a batch that fits are put together. -/
theorem Fits.ofPlanes_zipWith (h : b.Fits dimension) :
    ofPlanes (List.zipWith Plane.mk b.slopes b.biases) = b := by
  simp only [ofPlanes, ← List.map_uncurry_zip_eq_zipWith, List.map_map]
  exact congrArg₂ Batch.mk (List.map_fst_zip h.counts.le) (List.map_snd_zip h.counts.ge)

/-- The planes that a batch became give the batch back. -/
theorem ofPlanes_of_batch {planes : List (Plane α)}
    (h : batch dimension b.slopes b.biases = .ok planes) : ofPlanes planes = b := by
  have hfits : b.Fits dimension := fits_iff.mpr ⟨planes, h⟩
  cases (batch_of_fits hfits).symm.trans h
  exact hfits.ofPlanes_zipWith

end Batch

section Sessions

variable [Scalar α]

/-- The slopes and biases of the planes that the solver holds. -/
def data (s : Solver α) : Batch α := .ofPlanes s.subproblem.planes

namespace Use

/-- The batch that a use carries. -/
def batch? : Use α → Option (Batch α)
  | .load slopes biases | .extend slopes biases => some ⟨slopes, biases⟩
  | _ => none

/-- The batch that a use carries, if it is accepted, as a list of at most one. -/
def accepted (dimension : Nat) (u : Use α) : List (Batch α) :=
  (u.batch?.filter fun b => b.Fits dimension).toList

/-- The use carries a batch that does not fit. -/
def IsRefused (dimension : Nat) (u : Use α) : Prop := ∃ b ∈ u.batch?, ¬b.Fits dimension

instance (dimension : Nat) (u : Use α) : Decidable (u.IsRefused dimension) :=
  match h : u.batch? with
  | none => .isFalse fun ⟨_, hb, _⟩ => nomatch h.symm.trans hb
  | some b => decidable_of_iff (¬b.Fits dimension)
      ⟨fun hnot => ⟨b, h, hnot⟩, fun ⟨_, hb, hnot⟩ => Option.some.inj (h.symm.trans hb) ▸ hnot⟩

end Use

/-- A use as the solver answers it, with the fault if it is refused. -/
def attempt (s : Solver α) : Use α → Except (Fault α) (Solver α)
  | .load slopes biases => s.load slopes biases
  | .extend slopes biases => s.extend slopes biases
  | .solve warm ask => .ok (s.solveBy warm ask).solver
  | .setRadius radius => .ok (s.setRadius radius)
  | .setInexactness tolerance => .ok (s.setInexactness tolerance)
  | .clearStep => .ok s.clearStep

variable {s : Solver α} {u : Use α} {dimension : Nat}

/-- The session takes what is answered and stays where it is if that is a fault. -/
theorem apply_eq_attempt (s : Solver α) (u : Use α) :
    s.apply u = (s.attempt u).toOption.getD s := by
  cases u <;> rfl

omit [Scalar α] in
/-- What is done with a batch once it is read cannot fail. -/
theorem bind_pure_eq_error_iff {β γ : Type} {x : Except (Fault α) β} {f : β → γ}
    {fault : Fault α} : (x >>= fun b => pure (f b)) = .error fault ↔ x = .error fault := by
  cases x with
  | error reason => exact ⟨fun h => by cases h; rfl, fun h => by cases h; rfl⟩
  | ok b => exact ⟨nofun, nofun⟩

/-- Only a batch is ever refused, and for what is wrong with it. -/
theorem attempt_eq_error_iff {fault : Fault α} :
    s.attempt u = .error fault ↔ ∃ b ∈ u.batch?, b.Refusal s.dimension fault := by
  cases u with
  | load slopes biases | extend slopes biases =>
    simp only [Use.batch?, Option.mem_some_iff, exists_eq_left', ← Batch.batch_eq_error_iff]
    exact bind_pure_eq_error_iff
  | solve | setRadius | setInexactness | clearStep => exact ⟨nofun, fun ⟨_, hb, _⟩ => nomatch hb⟩

/-- A use is refused if it carries a batch that does not fit. -/
theorem exists_attempt_eq_error_iff :
    (∃ fault, s.attempt u = .error fault) ↔ u.IsRefused s.dimension := by
  simp only [attempt_eq_error_iff, Use.IsRefused, ← Batch.exists_refusal_iff]
  exact ⟨fun ⟨fault, b, hb, h⟩ => ⟨b, hb, fault, h⟩, fun ⟨b, hb, fault, h⟩ => ⟨fault, b, hb, h⟩⟩

/-- A refused use changes nothing at all. -/
theorem apply_of_isRefused (h : u.IsRefused s.dimension) : s.apply u = s := by
  obtain ⟨fault, herror⟩ := exists_attempt_eq_error_iff.mpr h
  rw [apply_eq_attempt, herror]
  rfl

/-- A session may as well be made without its refused uses. -/
theorem after_filter_not_isRefused (s : Solver α) (uses : List (Use α)) :
    s.after (uses.filter fun u => ¬u.IsRefused s.dimension) = s.after uses := by
  induction uses generalizing s with
  | nil => rfl
  | cons u uses ih =>
    have hrest := ih (s.apply u)
    rw [apply_dimension] at hrest
    by_cases hu : u.IsRefused s.dimension
    · rw [List.filter_cons_of_neg (by simpa using hu), after_cons, ← hrest, apply_of_isRefused hu]
    · rw [List.filter_cons_of_pos (by simpa using hu), after_cons, after_cons, hrest]

/-- A batch that fits is accepted. -/
theorem Use.accepted_of_fits {b : Batch α} (hb : u.batch? = some b) (h : b.Fits dimension) :
    u.accepted dimension = [b] := by
  rw [accepted, hb, Option.filter_some, if_pos (decide_eq_true h), Option.toList_some]

/-- A batch that is refused is not accepted. -/
theorem Use.accepted_of_isRefused (h : u.IsRefused dimension) : u.accepted dimension = [] := by
  obtain ⟨b, hb, hnot⟩ := h
  rw [accepted, hb, Option.filter_some, if_neg (by simpa using hnot), Option.toList_none]

/-- Only what fits is accepted. -/
theorem Use.fits_of_mem_accepted {b : Batch α} (h : b ∈ u.accepted dimension) :
    b.Fits dimension :=
  of_decide_eq_true (Option.mem_filter_iff.mp (Option.mem_toList.mp h)).2

/-- A replacement leaves the planes of its own batch. -/
theorem data_apply_of_replaces (h : u.Replaces s.dimension) :
    (s.apply u).data = .joined (u.accepted s.dimension) := by
  cases u with
  | load slopes biases =>
    obtain ⟨planes, hbatch⟩ := h
    rw [Use.accepted_of_fits rfl (Batch.fits_iff.mpr ⟨planes, hbatch⟩), Batch.joined_singleton,
      apply, load, hbatch]
    exact Batch.ofPlanes_of_batch (b := ⟨slopes, biases⟩) hbatch
  | extend | solve | setRadius | setInexactness | clearStep => exact h.elim

/-- Any other use leaves the planes and puts behind them those of the batch it adds. -/
theorem data_apply (h : ¬u.Replaces s.dimension) :
    (s.apply u).data = s.data ++ .joined (u.accepted s.dimension) := by
  by_cases hrefused : u.IsRefused s.dimension
  · rw [apply_of_isRefused hrefused, Use.accepted_of_isRefused hrefused, Batch.append_joined_nil]
  cases u with
  | load slopes biases => exact absurd ⟨_, rfl, mt Batch.fits_iff.mp h⟩ hrefused
  | extend slopes biases =>
    have hfits : Batch.Fits s.dimension ⟨slopes, biases⟩ :=
      not_not.mp fun hnot => hrefused ⟨_, rfl, hnot⟩
    obtain ⟨planes, hbatch⟩ := Batch.fits_iff.mp hfits
    rw [Use.accepted_of_fits rfl hfits, Batch.joined_singleton, apply, extend, hbatch]
    refine (Batch.ofPlanes_append s.subproblem.planes planes).trans ?_
    rw [Batch.ofPlanes_of_batch (b := ⟨slopes, biases⟩) hbatch]
    rfl
  | solve warm ask =>
    refine Eq.trans ?_ (Batch.append_joined_nil s.data).symm
    rw [data, apply, solveBy_subproblem]
    rfl
  | setRadius | setInexactness | clearStep => exact (Batch.append_joined_nil s.data).symm

/-- Without a replacement the accepted batches are put behind what was there. -/
theorem data_after {uses : List (Use α)} (h : ∀ u ∈ uses, ¬u.Replaces s.dimension) :
    (s.after uses).data = s.data ++ .joined (uses.flatMap (Use.accepted s.dimension)) := by
  induction uses generalizing s with
  | nil => exact (Batch.append_joined_nil s.data).symm
  | cons u uses ih =>
    obtain ⟨hu, hrest⟩ := List.forall_mem_cons.mp h
    rw [after_cons, ih (by simpa using hrest), data_apply hu, apply_dimension, List.flatMap_cons,
      Batch.joined_append, Batch.append_assoc]

/-! ## What the planes are -/

/-- The batches that the planes come from after a session: those accepted since the planes
were last replaced, or all that were accepted if they never were. -/
inductive Gathered (dimension : Nat) : List (Use α) → List (Batch α) → Prop where
  | replaced {early late : List (Use α)} {u : Use α} (hu : u.Replaces dimension)
      (hlate : ∀ v ∈ late, ¬v.Replaces dimension) :
      Gathered dimension (early ++ u :: late) ((u :: late).flatMap (Use.accepted dimension))
  | unreplaced {uses : List (Use α)} (h : ∀ v ∈ uses, ¬v.Replaces dimension) :
      Gathered dimension uses (uses.flatMap (Use.accepted dimension))

/-- For every session there are such batches. -/
theorem exists_gathered (dimension : Nat) (uses : List (Use α)) :
    ∃ batches, Gathered dimension uses batches := by
  rcases forall_not_or_exists_last (Use.Replaces dimension) uses with
    hnone | ⟨early, u, late, rfl, hu, hlate⟩
  · exact ⟨_, .unreplaced hnone⟩
  · exact ⟨_, .replaced hu hlate⟩

/-- All batches that the planes come from fit. -/
theorem Gathered.fits {uses : List (Use α)} {batches : List (Batch α)}
    (h : Gathered dimension uses batches) : ∀ b ∈ batches, b.Fits dimension := by
  intro b hb
  cases h with
  | replaced | unreplaced =>
    obtain ⟨u, -, hu⟩ := List.mem_flatMap.mp hb
    exact Use.fits_of_mem_accepted hu

/-- The planes of a solver that had none come from the gathered batches, in order. -/
theorem Gathered.data_eq {first : Solver α} {uses : List (Use α)} {batches : List (Batch α)}
    (h : Gathered first.dimension uses batches) (hfirst : first.subproblem.planes = []) :
    (first.after uses).data = .joined batches := by
  cases h with
  | @replaced early late u hu hlate =>
    have hu' : u.Replaces (first.after early).dimension := by simpa using hu
    rw [after_append, after_cons, data_after (by simpa using hlate), data_apply_of_replaces hu',
      List.flatMap_cons, Batch.joined_append, apply_dimension, after_dimension]
  | unreplaced hnone =>
    rw [data_after hnone, data, hfirst]
    rfl

/-- Planes with slopes of the right length can be put back in one go. -/
theorem load_data {other : Solver α} (hfits : s.data.Fits other.dimension) :
    other.load s.data.slopes s.data.biases = .ok (other.loaded s.subproblem.planes) :=
  load_eq fun _ hp => hfits.sizes _ (List.mem_map_of_mem hp)

/-- What a session with a new solver makes of the batches it is given. A batch is refused
exactly if it does not fit, for the first thing that is wrong with it, and nothing else is
refused. A refused use leaves the solver as it is, so the session may be made without all
of them. The planes are those of the batches gathered last, in order; their slopes and
biases stay in step, and any solver that is given them as one batch, in place of what it
holds, accepts it and then has the same planes. -/
theorem session_data (dimension : Nat) (settings : Settings α) (drill : Option Drill)
    (uses : List (Use α)) :
    let s := (create dimension settings drill : Solver α).after uses
    (∀ u, (∃ fault, s.attempt u = .error fault) ↔ u.IsRefused dimension) ∧
    (∀ u fault, s.attempt u = .error fault ↔ ∃ b ∈ u.batch?, b.Refusal dimension fault) ∧
    (∀ u, u.IsRefused dimension → s.apply u = s) ∧
    s = (create dimension settings drill).after (uses.filter fun u => ¬u.IsRefused dimension) ∧
    ∃ batches, Gathered dimension uses batches ∧ (∀ b ∈ batches, b.Fits dimension) ∧
      s.data = .joined batches ∧ s.data.Fits dimension ∧
      ∀ other : Solver α, other.dimension = dimension →
        other.load s.data.slopes s.data.biases = .ok (other.loaded s.subproblem.planes) := by
  intro s
  have hdimension : s.dimension = dimension := after_dimension
  refine ⟨fun u => ?_, fun u fault => ?_, fun u hu => ?_, ?_, ?_⟩
  · rw [exists_attempt_eq_error_iff, hdimension]
  · rw [attempt_eq_error_iff, hdimension]
  · exact apply_of_isRefused (hdimension.symm ▸ hu)
  · exact (after_filter_not_isRefused (create dimension settings drill) uses).symm
  · obtain ⟨batches, hgathered⟩ := exists_gathered dimension uses
    have hstart : Gathered (create dimension settings drill : Solver α).dimension uses batches :=
      hgathered
    have hdata : s.data = .joined batches := hstart.data_eq rfl
    have hfits : s.data.Fits dimension := hdata ▸ Batch.fits_joined hgathered.fits
    exact ⟨batches, hgathered, hgathered.fits, hdata, hfits, fun other hother =>
      load_data (hother.symm ▸ hfits)⟩

end Sessions

/-- A batch with slopes of two lengths is passed over; the next one is added. -/
example :
    let s := (create 1 {} none : Solver ℚ).after
      [.load [[1]] [0], .extend [[1], [1, 2]] [3, 4], .extend [[-1]] [2]]
    s.data.slopes = [[1], [-1]] ∧ s.data.biases = [0, 2] := by
  decide +kernel

end NonsmoothDescent.Solver

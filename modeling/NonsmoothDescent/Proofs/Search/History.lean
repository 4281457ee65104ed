import NonsmoothDescent.Proofs.Search.Radii

/-!
# Histories of calls

A workspace outlives the calls that are made on it. Its history is a list of calls, each
on the workspace as the one before has left it, but for changes that are made in between.
Engines, options, rules, clocks and minimizers may be others for every call; the objective
is the same throughout. A workspace that is well formed at first stays so, and what calls
and changes keep of it holds at the start of every call.
-/

namespace NonsmoothDescent

variable {α : Type} [Scalar α]

/-- A call that comes to its end, possibly at the time limit, is accounted for. -/
theorem CallResult.accounted {setting : Setting α} {entry : SearchState α}
    {result : EStateM.Result (Fault α) (SearchState α) Outcome}
    (h : CallResult setting entry result)
    (hcompleted : ∀ fault s, result = .error fault s → fault = .timeLimitReached) :
    ∃ outcome, Accounted setting entry outcome (finalState result) := by
  cases h with
  | unevaluated _ _ _ haccounted => exact ⟨_, haccounted⟩
  | ended _ _ _ _ haccounted => exact ⟨_, haccounted⟩
  | timeUp _ _ _ haccounted => exact ⟨_, haccounted⟩
  | overflowed => cases hcompleted _ _ rfl

/-- A call: what stays fixed during it, and the state in which it begins. -/
structure Call (α : Type) [Scalar α] where
  /-- What stays fixed. -/
  setting : Setting α
  /-- Workspace and engine at entry. -/
  entry : SearchState α

namespace Call

/-- How the call comes out. Nothing should run a search by unfolding this unasked. -/
@[irreducible] def result (c : Call α) : EStateM.Result (Fault α) (SearchState α) Outcome :=
  Search.computeDirection c.setting c.entry

/-- The state in which the call leaves workspace and engine. -/
def final (c : Call α) : SearchState α := finalState c.result

/-- The call comes to its end, possibly at the time limit. -/
def Completed (c : Call α) : Prop :=
  ∀ fault s, c.result = .error fault s → fault = .timeLimitReached

/-- Whether the call comes to its end. -/
def completes (c : Call α) : Bool :=
  match c.result with
  | .ok _ _ | .error .timeLimitReached _ => true
  | .error _ _ => false

/-- Calls that are found to be completed are. -/
theorem completed_of_all {calls : List (Call α)} (h : calls.all completes = true) :
    ∀ call ∈ calls, call.Completed := by
  intro call hc fault s hresult
  have hcompletes := List.all_eq_true.mp h call hc
  unfold completes at hcompletes
  rw [hresult] at hcompletes
  cases fault <;> first | rfl | cases hcompletes

/-- The solves of the call, in order. -/
def solves (c : Call α) : List (Moment α) := solvesOf c.final.journal.toList

/-- The call that follows with the same workspace and the same engine. -/
def next (c : Call α) (setting : Setting α) : Call α := ⟨setting, c.final⟩

variable {c : Call α} (hw : c.entry.workspace.WellFormed c.setting.oracle)
include hw

/-- A call has one of the results that calls have. -/
theorem cases : CallResult c.setting c.entry c.result := by
  unfold result
  exact Search.computeDirection_cases hw

/-- A call ends with a well-formed workspace. -/
theorem wellFormed_final : c.final.workspace.WellFormed c.setting.oracle := (cases hw).wellFormed

/-- A call that comes to its end is accounted for. -/
theorem accounted (hcompleted : c.Completed) :
    ∃ outcome, Accounted c.setting c.entry outcome c.final :=
  (cases hw).accounted hcompleted

end Call

/-- What has become of a workspace by calls, and by changes between them. -/
inductive History (o : Oracle α) (between : Workspace α → Workspace α → Prop)
    (first : Workspace α) : List (Call α) → Workspace α → Prop where
  | start : History o between first [] first
  | changed {calls : List (Call α)} {w w' : Workspace α} (h : History o between first calls w)
      (hchange : between w w') (hw : w'.WellFormed o) : History o between first calls w'
  | called {calls : List (Call α)} {call : Call α}
      (h : History o between first calls call.entry.workspace) (ho : call.setting.oracle = o) :
      History o between first (calls ++ [call]) call.final.workspace

namespace History

variable {o : Oracle α} {between : Workspace α → Workspace α → Prop} {first w : Workspace α}
  {calls : List (Call α)} {P : Workspace α → Prop}

/-- A history goes on with the next call. -/
theorem next {c : Call α} (h : History o between first calls c.entry.workspace)
    (ho : c.setting.oracle = o) (setting : Setting α) :
    History o between first (calls ++ [c]) (c.next setting).entry.workspace :=
  h.called ho

/-- What holds at first, and is kept by changes and calls, holds at every entry and in the
end. -/
theorem keeps (h : History o between first calls w) (hw : first.WellFormed o) (hfirst : P first)
    (hbetween : ∀ w w', between w w' → P w → P w')
    (hcall : ∀ call ∈ calls, call.entry.workspace.WellFormed call.setting.oracle →
      P call.entry.workspace → P call.final.workspace) :
    (w.WellFormed o ∧ P w) ∧ ∀ call ∈ calls,
      call.entry.workspace.WellFormed call.setting.oracle ∧ P call.entry.workspace := by
  induction h with
  | start => exact ⟨⟨hw, hfirst⟩, fun _ hc => absurd hc List.not_mem_nil⟩
  | changed _ hchange hw' ih =>
    obtain ⟨⟨_, hP⟩, hentries⟩ := ih hcall
    exact ⟨⟨hw', hbetween _ _ hchange hP⟩, hentries⟩
  | @called before call _ ho ih =>
    obtain ⟨⟨hw', hP⟩, hentries⟩ := ih fun c hc => hcall c (List.mem_append_left _ hc)
    rw [← ho] at hw'
    refine ⟨⟨ho ▸ Call.wellFormed_final hw', ?_⟩, ?_⟩
    · exact hcall call (List.mem_append_right _ (List.mem_singleton_self _)) hw' hP
    · exact List.forall_mem_append.mpr ⟨hentries, List.forall_mem_singleton.mpr ⟨hw', hP⟩⟩

/-- Every call of a history begins with a well-formed workspace. -/
theorem wellFormed (h : History o between first calls w) (hw : first.WellFormed o) :
    ∀ call ∈ calls, call.entry.workspace.WellFormed call.setting.oracle :=
  fun call hc =>
    ((h.keeps (P := fun _ => True) hw trivial (fun _ _ _ h => h) fun _ _ _ h => h).2 call hc).1

end History

section Radii

variable {P : Radii α → Prop}

/-- What a rule keeps of the radii, a call keeps. -/
theorem CallResult.keeps_radii {setting : Setting α} {entry : SearchState α}
    {result : EStateM.Result (Fault α) (SearchState α) Outcome}
    (h : CallResult setting entry result) (hrule : setting.rule.Keeps P)
    (hentry : P entry.workspace.radii) :
    P (finalState result).workspace.radii := by
  obtain ⟨s, hquiet, hfresh | ⟨start, stage, hopens, hreached⟩⟩ := h.course
  · rw [hquiet.radii_eq, hfresh.radii_eq]
    exact hentry
  · rw [hquiet.radii_eq]
    exact hreached.keeps_radii hopens.inv hrule (hopens.radii_eq ▸ hentry)

/-- So does a call as a whole. -/
theorem Call.keeps_radii {c : Call α} (hw : c.entry.workspace.WellFormed c.setting.oracle)
    (hrule : c.setting.rule.Keeps P) (h : P c.entry.workspace.radii) :
    P c.final.workspace.radii := (Call.cases hw).keeps_radii hrule h

variable {o : Oracle α} {between : Workspace α → Workspace α → Prop} {first w : Workspace α}
  {calls : List (Call α)}

/-- What all rules and all changes in between keep of the radii holds throughout. -/
theorem History.radii (h : History o between first calls w) (hw : first.WellFormed o)
    (hfirst : P first.radii) (hbetween : ∀ w w', between w w' → P w.radii → P w'.radii)
    (hrules : ∀ call ∈ calls, call.setting.rule.Keeps P) :
    P w.radii ∧ ∀ call ∈ calls, P call.entry.workspace.radii := by
  obtain ⟨⟨_, hlast⟩, hentries⟩ := h.keeps (P := fun w => P w.radii) hw hfirst hbetween
    fun call hc hentry => Call.keeps_radii hentry (hrules call hc)
  exact ⟨hlast, fun call hc => (hentries call hc).2⟩

end Radii

end NonsmoothDescent

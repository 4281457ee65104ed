import NonsmoothDescent.Proofs.Search.Journal

/-!
# The order of the journal

Between two events of the journal a search takes steps that write nothing. A law of the
order says what the last event tells of the stages after it, and which event may come
next. If the steps of a search obey such a law, the whole journal does.
-/

namespace NonsmoothDescent

variable {α : Type} [Scalar α]

/-- A law of the journal's order: what holds at a stage by the last event, and which event
may follow which. -/
structure OrderLaw (setting : Setting α) (start : SearchState α)
    (told : Event α → Stage α → SearchState α → Prop) (next : Event α → Event α → Prop) :
    Prop where
  /-- While nothing is written, what the last event tells stays true. -/
  kept : ∀ {a b : Stage α} {s s' : SearchState α} {event : Event α}, Reached setting start a s →
    Step setting a s b s' → ¬ b.Tells → told event a s → told event b s'
  /-- What is written last is true. -/
  written : ∀ {a b : Stage α} {s s' : SearchState α} {new : List (Event α)},
    Reached setting start a s → Step setting a s b s' → Writes setting a s b s' new →
    ∀ event ∈ new.getLast?, told event b s'
  /-- What is written may follow what was written before. -/
  follows : ∀ {a b : Stage α} {s s' : SearchState α} {new : List (Event α)},
    Reached setting start a s → Step setting a s b s' → Writes setting a s b s' new →
    new.IsChain next ∧ ∀ event, told event a s → ∀ event' ∈ new.head?, next event event'

section Order

variable {setting : Setting α} {start s : SearchState α} {b : Stage α}
  {told : Event α → Stage α → SearchState α → Prop} {next : Event α → Event α → Prop}

/-- A step to a stage that tells something writes something. -/
theorem Writes.ne_nil {a : Stage α} {t s' : SearchState α} {new : List (Event α)}
    (h : Writes setting a t b s' new) (hb : b.Tells) : new ≠ [] := by
  cases h with
  | nothing hnot => exact absurd hb hnot
  | solved => exact List.append_ne_nil_of_right_ne_nil _ (List.cons_ne_nil _ _)
  | tested | began => exact List.cons_ne_nil _ _

/-- A solve is written alone or behind what was asked for it. -/
theorem Writes.of_gain {a : Stage α} {t s' : SearchState α} {new : List (Event α)}
    (h : Writes setting a t b s' new) (hb : b.gain = 1) :
    new = [.solved s'.toMoment] ∨ ∃ c, new = [.consulted c, .solved s'.toMoment] := by
  cases h with
  | nothing hnot => exact absurd (Stage.tells_of_gain hb) hnot
  | tested htested => cases htested <;> cases hb
  | began => cases hb
  | @solved _ _ t _ warm =>
    cases (t.answer setting warm).consultation with
    | none => exact .inl rfl
    | some c => exact .inr ⟨c, rfl⟩

/-- The journal obeys a law of its order, and its last event tells the truth. -/
theorem OrderLaw.isChain (law : OrderLaw setting start told next)
    (hinv : Inv setting .ready start.toMoment) (hempty : start.journal = #[])
    (h : Reached setting start b s) :
    s.journal.toList.IsChain next ∧ ∀ event ∈ s.journal.toList.getLast?, told event b s := by
  induction h with
  | start =>
    rw [hempty]
    exact ⟨.nil, fun event hevent => by cases hevent⟩
  | step hreached hstep ih =>
    obtain ⟨hchain, hlast⟩ := ih
    obtain ⟨new, hjournal, hwrites⟩ := hstep.writes (hreached.inv hinv)
    obtain ⟨hnew, hfollows⟩ := law.follows hreached hstep hwrites
    have hwritten := law.written hreached hstep hwrites
    rw [hjournal]
    refine ⟨List.isChain_append.mpr ⟨hchain, hnew, fun event hevent =>
      hfollows event (hlast event hevent)⟩, fun event hevent => ?_⟩
    rw [List.getLast?_append] at hevent
    cases hend : new.getLast? with
    | some last =>
      rw [hend] at hevent
      exact hwritten event (hend.trans hevent)
    | none =>
      rw [hend] at hevent
      obtain rfl := List.getLast?_eq_none_iff.mp hend
      have hsilent := fun hb => hwrites.ne_nil hb rfl
      exact law.kept hreached hstep hsilent (hlast event hevent)

/-- The last event of a call tells the truth of the stage at which the search stops. -/
theorem OrderLaw.told_last {entry s' : SearchState α} (law : OrderLaw setting start told next)
    (hopens : Opens setting entry start) (h : Reached setting start b s)
    (hquiet : Quiet setting.oracle s s') {event : Event α}
    (hlast : s'.journal.toList.getLast? = some event) : told event b s :=
  (law.isChain hopens.inv hopens.journal_eq h).2 event (hquiet.journal_eq ▸ hlast)

/-- Of two events one after the other, the second may follow the first. -/
theorem next_of_pair {events : List (Event α)} {event event' : Event α}
    (h : events.IsChain next) (hpair : [event, event'] <:+: events) : next event event' := by
  obtain ⟨before, after, rfl⟩ := hpair
  rw [List.append_assoc] at h
  exact (List.isChain_append_cons_cons.mp h).2.1

/-- What comes before the last event is followed by something. -/
theorem exists_next {before : List (Event α)} {event last : Event α}
    (h : (before ++ [last]).IsChain next) (hevent : event ∈ before) :
    ∃ event', next event event' := by
  obtain ⟨first, rest, rfl⟩ := List.append_of_mem hevent
  rw [List.append_assoc] at h
  cases rest with
  | nil => exact ⟨last, (List.isChain_append_cons_cons.mp h).2.1⟩
  | cons event' rest => exact ⟨event', (List.isChain_append_cons_cons.mp h).2.1⟩

end Order

section Call

variable {setting : Setting α} {entry : SearchState α}
  {result : EStateM.Result (Fault α) (SearchState α) Outcome}

/-- After a call the journal obeys the laws of its order. -/
theorem CallResult.isChain {told : Event α → Stage α → SearchState α → Prop}
    {next : Event α → Event α → Prop} (h : CallResult setting entry result)
    (hlaw : ∀ start, Opens setting entry start → OrderLaw setting start told next) :
    (finalState result).journal.toList.IsChain next := by
  obtain ⟨s, hquiet, hfresh | ⟨start, stage, hopens, hreached⟩⟩ := h.course
  · rw [hquiet.journal_eq, hfresh.journal_eq]
    exact .nil
  · rw [hquiet.journal_eq]
    exact ((hlaw start hopens).isChain hopens.inv hopens.journal_eq hreached).1

end Call

end NonsmoothDescent

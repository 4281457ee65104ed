import NonsmoothDescent.Proofs.Search.References

/-!
# The journal cut at an event

Where the journal of a search tells of an event, the search took a step that wrote it: the
journal ended with it just after the step, and the search went on from there. So what an
event says of the search before it is read off the step, and what it says of the search
after it is proved by induction along the steps that follow.
-/

namespace NonsmoothDescent

variable {α : Type} [Scalar α]

/-- The moment that an event tells of. A question to the minimizer tells of none. -/
def Event.moment? : Event α → Option (Moment α)
  | .consulted _ => none
  | .solved m | .tested m _ | .roundBegan m => some m

/-- What holds at one stage, and what every further step keeps, holds wherever the search has
gone on to. -/
theorem Continues.induct {setting : Setting α} {a b : Stage α} {s t : SearchState α}
    {P : Stage α → SearchState α → Prop} (h : Continues setting (a, s) (b, t)) (first : P a s)
    (kept : ∀ {c d : Stage α} {u v : SearchState α}, Continues setting (a, s) (c, u) →
      Step setting c u d v → P c u → P d v) : P b t := by
  generalize hq : (b, t) = q at h
  induction h generalizing b t with
  | refl =>
    cases hq
    exact first
  | @tail p _ hbefore hstep ih =>
    cases hq
    exact kept hbefore hstep (ih rfl)

section Split

variable {setting : Setting α} {a b : Stage α} {start s s' : SearchState α}
  {new before after earlier : List (Event α)} {event : Event α} {m : Moment α}

/-- What is found in a list, but not before its last element, is the last element. -/
theorem eq_nil_of_append_cons_eq {β : Type} {pre earlier after : List β} {x last : β}
    (hx : x ∉ pre) (h : earlier ++ x :: after = pre ++ [last]) : after = [] := by
  rcases List.eq_nil_or_concat after with rfl | ⟨init, y, rfl⟩
  · rfl
  · rw [List.concat_eq_append, ← List.cons_append, ← List.append_assoc] at h
    obtain ⟨rfl, _⟩ := List.append_inj' h rfl
    exact absurd (by simp) hx

/-- What a step writes ends with the event that tells of a moment. -/
theorem Writes.after_eq_nil (h : Writes setting a s b s' new) (hevent : event.moment? = some m)
    (hnew : new = earlier ++ event :: after) : after = [] := by
  cases h with
  | nothing => exact absurd hnew.symm (List.append_ne_nil_of_right_ne_nil _ (List.cons_ne_nil _ _))
  | tested | began =>
    have hnone : event ∉ ([] : List (Event α)) := List.not_mem_nil
    exact eq_nil_of_append_cons_eq hnone hnew.symm
  | solved =>
    refine eq_nil_of_append_cons_eq (fun hasked => ?_) hnew.symm
    obtain ⟨c, _, rfl⟩ := Option.map_eq_some_iff.mp (Option.mem_toList.mp hasked)
    cases hevent

/-- Nothing is written before an event that is not a solve. -/
theorem Writes.eq_nil_of_unsolved {asked : List (Event α)}
    (h : Writes setting a s b s' (asked ++ [event])) (hevent : ∀ m, event ≠ .solved m) :
    asked = [] := by
  generalize hnew : asked ++ [event] = new at h
  cases h with
  | nothing => exact absurd hnew (List.append_ne_nil_of_right_ne_nil _ (List.cons_ne_nil _ _))
  | tested | began => exact (List.append_inj' (hnew.trans (List.nil_append _).symm) rfl).1
  | solved =>
    obtain ⟨_, hsolved⟩ := List.append_inj' hnew rfl
    exact absurd (List.cons.inj hsolved).1 (hevent _)

/-- Before a solve only the question to the minimizer is written. -/
theorem Writes.quiet_of_solved {asked : List (Event α)}
    (h : Writes setting a s b s' (asked ++ [.solved m])) :
    roundsOf asked = [] ∧ solvesOf asked = [] := by
  generalize hnew : asked ++ [Event.solved m] = new at h
  cases h with
  | nothing => exact absurd hnew (List.append_ne_nil_of_right_ne_nil _ (List.cons_ne_nil _ _))
  | tested | began =>
    rw [(List.append_inj' (hnew.trans (List.nil_append _).symm) rfl).1]
    exact ⟨rfl, rfl⟩
  | @solved _ _ t _ warm =>
    obtain ⟨rfl, _⟩ := List.append_inj' hnew rfl
    cases (t.answer setting warm).consultation <;> exact ⟨rfl, rfl⟩

/-- The step that writes an event behind a journal. -/
structure Writing (setting : Setting α) (start : SearchState α) (before : List (Event α))
    (event : Event α) (a : Stage α) (t : SearchState α) (c : Stage α) (u : SearchState α) :
    Prop where
  reached : Reached setting start a t
  step : Step setting a t c u
  writes : ∃ asked, before = t.journal.toList ++ asked ∧ Writes setting a t c u (asked ++ [event])
  journal_eq : u.journal.toList = before ++ [event]

/-- An event in the journal that tells of a moment was written by a step of the search, which
went on from there. -/
theorem Reached.of_split (hinv : Inv setting .ready start.toMoment) (hempty : start.journal = #[])
    (h : Reached setting start b s) (hevent : event.moment? = some m)
    (hsplit : s.journal.toList = before ++ event :: after) :
    ∃ (a c : Stage α) (t u : SearchState α), Writing setting start before event a t c u ∧
      Continues setting (c, u) (b, s) := by
  induction h generalizing after with
  | start =>
    rw [hempty] at hsplit
    exact absurd hsplit.symm (List.append_ne_nil_of_right_ne_nil _ (List.cons_ne_nil _ _))
  | @step a b t s hreached hstep ih =>
    obtain ⟨new, hjournal, hwrites⟩ := hstep.writes (hreached.inv hinv)
    have hnew : ∀ earlier, before = t.journal.toList ++ earlier → new = earlier ++ event :: after →
        ∃ (a' c : Stage α) (t' u : SearchState α),
          Writing setting start before event a' t' c u ∧ Continues setting (c, u) (b, s) := by
      intro earlier hbefore hnew
      obtain rfl := hwrites.after_eq_nil hevent hnew
      refine ⟨a, b, t, s, ⟨hreached, hstep, ⟨earlier, hbefore, hnew ▸ hwrites⟩, ?_⟩, .refl⟩
      rw [hjournal, hbefore, hnew, List.append_assoc]
    rw [hjournal] at hsplit
    rcases List.append_eq_append_iff.mp hsplit with
      ⟨earlier, hbefore, hlater⟩ | ⟨rest, hold, hlater⟩
    · exact hnew earlier hbefore hlater
    · cases rest with
      | nil => exact hnew [] (by rw [hold, List.append_nil, List.append_nil]) hlater.symm
      | cons e rest =>
        obtain ⟨rfl, _⟩ := List.cons.inj hlater
        obtain ⟨a', c, t', u, hwriting, hcontinues⟩ := ih hold
        exact ⟨a', c, t', u, hwriting, hcontinues.tail hstep⟩

end Split

namespace Writing

variable {setting : Setting α} {a c : Stage α} {start t u : SearchState α}
  {before : List (Event α)} {m : Moment α}

/-- An event that is not a solve is written behind the journal with which its step begins. -/
theorem journal_eq_before {event : Event α} (h : Writing setting start before event a t c u)
    (hevent : ∀ m, event ≠ .solved m) : t.journal.toList = before := by
  obtain ⟨asked, hbefore, hwrites⟩ := h.writes
  rw [hbefore, hwrites.eq_nil_of_unsolved hevent, List.append_nil]

/-- The beginning of a round is written from the moment it tells of. -/
theorem of_roundBegan (h : Writing setting start before (.roundBegan m) a t c u) :
    t.toMoment = m ∧ ∃ first evaluated, a = .round first ∧ c = .begun first evaluated := by
  obtain ⟨asked, _, hwrites⟩ := h.writes
  obtain ⟨rfl, first, rfl⟩ := hwrites.fits (.roundBegan m) (by simp)
  have hstep := h.step
  cases hstep with
  | beginRound hflush hevaluate => exact ⟨rfl, first, _, rfl, rfl⟩

/-- A test is written at the moment it tells of. -/
theorem of_tested {evaluated : Bool}
    (h : Writing setting start before (.tested m evaluated) a t c u) :
    u.toMoment = m ∧ c.TestedAt evaluated := by
  obtain ⟨asked, _, hwrites⟩ := h.writes
  obtain ⟨rfl, htested⟩ := hwrites.fits (.tested m evaluated) (by simp)
  exact ⟨rfl, htested⟩

/-- A solve is written behind the question that was asked for it. -/
theorem of_solved (h : Writing setting start before (.solved m) a t c u) :
    u.toMoment = m ∧ c.gain = 1 ∧ (∃ kind, c = .solved kind) ∧
      ∃ asked, before = t.journal.toList ++ asked ∧ roundsOf asked = [] ∧ solvesOf asked = [] := by
  obtain ⟨asked, hbefore, hwrites⟩ := h.writes
  obtain ⟨rfl, hkind⟩ := hwrites.fits (.solved m) (by simp)
  refine ⟨rfl, ?_, hkind, asked, hbefore, hwrites.quiet_of_solved⟩
  by_contra hgain
  have hnone := hwrites.solvesOf_eq
  rw [if_neg hgain, solvesOf_append] at hnone
  exact List.append_ne_nil_of_right_ne_nil _ (List.cons_ne_nil _ _) hnone

end Writing

end NonsmoothDescent

import NonsmoothDescent.Proofs.Options
import NonsmoothDescent.Proofs.Options.Spelling

/-!
# Values of options

An option takes any entry as its truth value, a number in range, or a number equal to a
natural one, according to its kind, and has it as its value from then on. Options are known
by their values. They are made one after another, each from what a source has for it, and an
option for which there is nothing keeps its value. So what is made does not depend on the
order, and it is made exactly if every option takes what it is given.
-/

namespace NonsmoothDescent

namespace Entry

variable {α : Type} [Scalar α]

/-- The entry is a number, and equal to a whole number. -/
def EqualsWhole : Entry α → Int → Prop
  | .flag b, i => i = if b then 1 else 0
  | .whole j, i => i = j
  | .real x, i => Scalar.isFinite x = true ∧ i = Scalar.truncate x ∧
      Scalar.same x (Scalar.ofInt i) = true
  | .nothing, _ | .text _, _ | .list _, _ => False

/-- An entry is read as a whole number if it equals one. -/
theorem whole?_eq_ok_iff {given : Entry α} {i : Int} :
    given.whole? = .ok i ↔ given.EqualsWhole i := by
  cases given with
  | nothing | list => exact ⟨nofun, False.elim⟩
  | flag b | whole j =>
    simp only [whole?, EqualsWhole, Except.ok.injEq]
    exact eq_comm
  | text s =>
    simp only [whole?, EqualsWhole, iff_false]
    split <;> exact nofun
  | real x =>
    simp only [whole?, EqualsWhole]
    by_cases hfinite : Scalar.isFinite x = true
    · rw [if_pos hfinite]
      by_cases hsame : Scalar.same x (Scalar.ofInt (Scalar.truncate x)) = true
      · rw [if_pos hsame, Except.ok.injEq]
        exact ⟨fun h => h ▸ ⟨hfinite, rfl, hsame⟩, fun h => h.2.1.symm⟩
      · rw [if_neg hsame]
        exact ⟨nofun, fun ⟨_, hi, h⟩ => absurd (hi ▸ h) hsame⟩
    · rw [if_neg hfinite]
      refine ⟨fun h => ?_, fun h => absurd h.1 hfinite⟩
      split at h <;> cases h

end Entry

namespace Options

open OptionName (spellings canonical read? ofPlain?)

variable {α : Type} [Scalar α]

/-! ## The value of each option -/

/-- The value of an option. -/
def entry (o : Options α) : OptionName → Entry α
  | .toggle t => .flag (o.isOn t)
  | .amount a => .real (o.get a)
  | .iterationLimit => .whole o.iterationLimit

/-- Written out, each option stands with its value. -/
theorem mem_toEntries_iff {o : Options α} {name : OptionName} {value : Entry α} :
    (name, value) ∈ o.toEntries ↔ value = o.entry name := by
  have hentry : o.toEntries = OptionName.all.map fun name => (name, o.entry name) :=
    List.map_congr_left fun name _ => by cases name <;> rfl
  rw [hentry, List.mem_map]
  constructor
  · rintro ⟨other, -, heq⟩
    cases heq
    rfl
  · rintro rfl
    exact ⟨name, name.mem_all, rfl⟩

/-- Options are known by their values. -/
theorem eq_of_entry_eq {o o' : Options α} (h : ∀ name, o.entry name = o'.entry name) :
    o = o' := by
  have htoggle : ∀ t, o.isOn t = o'.isOn t := fun t => Entry.flag.inj (h (.toggle t))
  have hamount : ∀ a, o.get a = o'.get a := fun a => Entry.real.inj (h (.amount a))
  have hlimit : o.iterationLimit = o'.iterationLimit :=
    Int.ofNat.inj (Entry.whole.inj (h .iterationLimit))
  cases o
  cases o'
  rw [Options.mk.injEq]
  exact ⟨htoggle .addFarPoints, htoggle .failOnIterationLimit, htoggle .failOnSolverFailure,
    htoggle .tryAggregation, htoggle .tryGradientStep, htoggle .tryShortenedStep,
    hamount .aggregationThreshold, hamount .downshift, hamount .gradientStepsize,
    hamount .shortenedStepsize, hamount .acceptanceTolerance, hlimit⟩

/-- Switching a flag sets this option and no other. -/
theorem entry_switch (o : Options α) (on : Bool) (t : Toggle) (name : OptionName) :
    (o.switch on t).entry name = if name = .toggle t then .flag on else o.entry name := by
  cases t <;> cases name with
  | toggle s => cases s <;> rfl
  | amount | iterationLimit => rfl

/-- Setting an amount sets this option and no other. -/
theorem entry_set (o : Options α) (value : α) (a : Amount) (name : OptionName) :
    (o.set value a).entry name = if name = .amount a then .real value else o.entry name := by
  cases a <;> cases name with
  | toggle | iterationLimit => rfl
  | amount b => cases b <;> rfl

/-- Setting the limit sets this option and no other. -/
theorem entry_withLimit (o : Options α) (limit : Nat) (name : OptionName) :
    ({ o with iterationLimit := limit } : Options α).entry name =
      if name = .iterationLimit then .whole limit else o.entry name := by
  cases name with
  | toggle t => cases t <;> rfl
  | amount a => cases a <;> rfl
  | iterationLimit => rfl

/-- The value lies in the range of the option. -/
theorem inRange_iff {a : Amount} {value : α} : inRange a value = true ↔
    0 ≤ value ∧ ∀ bound ∈ (a.upperBound? : Option α), value ≤ bound := by
  unfold inRange
  cases (a.upperBound? : Option α) <;> simp

variable [ScalarReader α]

/-- The option takes the entry that is given, as this value. -/
def Takes : OptionName → Entry α → Entry α → Prop
  | .toggle _, given, value => value = .flag given.truth
  | .amount a, given, value => ∃ x, given.real? = .ok x ∧ inRange a x = true ∧ value = .real x
  | .iterationLimit, given, value => ∃ limit : Nat, given.EqualsWhole limit ∧ value = .whole limit

/-- A flag takes the truth of its entry. -/
theorem takes_toggle_iff {o : Options α} {t : Toggle} {entry : Entry α} :
    Takes (.toggle t) entry (o.entry (.toggle t)) ↔ o.isOn t = entry.truth := by
  simp [Takes, Options.entry]

/-- An amount takes its entry as a number in its range. -/
theorem takes_amount_iff {o : Options α} {a : Amount} {entry : Entry α} :
    Takes (.amount a) entry (o.entry (.amount a)) ↔ entry.real? = .ok (o.get a) ∧
      0 ≤ o.get a ∧ ∀ bound ∈ (a.upperBound? : Option α), o.get a ≤ bound := by
  rw [← inRange_iff]
  constructor
  · rintro ⟨x, hx, hrange, heq⟩
    rw [Entry.real.inj heq]
    exact ⟨hx, hrange⟩
  · exact fun ⟨hx, hrange⟩ => ⟨o.get a, hx, hrange, rfl⟩

/-- The limit takes an entry that equals a whole number. -/
theorem takes_iterationLimit_iff {o : Options α} {entry : Entry α} :
    Takes .iterationLimit entry (o.entry .iterationLimit) ↔
      entry.EqualsWhole o.iterationLimit := by
  constructor
  · rintro ⟨limit, hlimit, heq⟩
    rw [Entry.whole.inj heq]
    exact hlimit
  · exact fun hlimit => ⟨o.iterationLimit, hlimit, rfl⟩

/-- An option takes an entry as one value only. -/
theorem Takes.unique {name : OptionName} {given value value' : Entry α}
    (h : Takes name given value) (h' : Takes name given value') : value = value' := by
  cases name with
  | toggle t => exact Eq.trans h (Eq.symm h')
  | amount a =>
    obtain ⟨x, hx, -, rfl⟩ := h
    obtain ⟨x', hx', -, rfl⟩ := h'
    cases hx.symm.trans hx'
    rfl
  | iterationLimit =>
    obtain ⟨limit, hlimit, rfl⟩ := h
    obtain ⟨limit', hlimit', rfl⟩ := h'
    cases (Entry.whole?_eq_ok_iff.mpr hlimit).symm.trans (Entry.whole?_eq_ok_iff.mpr hlimit')
    rfl

/-- The fault is not that of an unknown name. -/
def OfValue (fault : Fault α) : Prop := ∀ text, fault ≠ .unknownOption text

/-- An entry that is no number is a fault of its value. -/
theorem ofValue_of_real? {given : Entry α} {fault : Fault α} (h : given.real? = .error fault) :
    OfValue fault := by
  rintro text rfl
  cases given with
  | whole | text =>
    simp only [Entry.real?] at h
    split at h <;> cases h
  | nothing | flag | real | list => cases h

omit [ScalarReader α] in
/-- An entry that is no whole number is a fault of its value. -/
theorem ofValue_of_whole? {given : Entry α} {fault : Fault α} (h : given.whole? = .error fault) :
    OfValue fault := by
  rintro text rfl
  cases given with
  | text =>
    simp only [Entry.whole?] at h
    split at h <;> cases h
  | real =>
    simp only [Entry.whole?] at h
    repeat' split at h
    all_goals cases h
  | nothing | flag | whole | list => cases h

/-- A number is assigned if it is in range, and refused with the number else. -/
theorem assign_amount {given : Entry α} {value : α} (o : Options α) (a : Amount)
    (h : given.real? = .ok value) : o.assign (.amount a) given =
      if inRange a value then .ok (o.set value a) else .error (.amountOutOfRange a value) := by
  rw [assign, h]
  rfl

/-- A whole number is assigned if it is not negative, and refused with the number else. -/
theorem assign_iterationLimit {given : Entry α} {value : Int} (o : Options α)
    (h : given.whole? = .ok value) : o.assign .iterationLimit given =
      if value < 0 then .error (.limitNegative value)
      else .ok { o with iterationLimit := value.toNat } := by
  rw [assign, h]
  rfl

/-- An entry that is taken replaces the value of its option and no other, and one that is
not taken is a fault of its value. -/
theorem assign_cases (o : Options α) (name : OptionName) (given : Entry α) :
    (∃ o' value, o.assign name given = .ok o' ∧ Takes name given value ∧
      ∀ other, o'.entry other = if other = name then value else o.entry other) ∨
    ∃ fault, o.assign name given = .error fault ∧ OfValue fault ∧
      ∀ value, ¬Takes name given value := by
  cases name with
  | toggle t => exact .inl ⟨_, _, rfl, rfl, o.entry_switch given.truth t⟩
  | amount a =>
    cases hvalue : given.real? with
    | error fault =>
      refine .inr ⟨fault, by rw [assign, hvalue]; rfl, ofValue_of_real? hvalue, ?_⟩
      rintro _ ⟨x, hx, -⟩
      cases hvalue.symm.trans hx
    | ok value =>
      rw [assign_amount o a hvalue]
      by_cases hrange : inRange a value = true
      · rw [if_pos hrange]
        exact .inl ⟨_, _, rfl, ⟨value, hvalue, hrange, rfl⟩, o.entry_set value a⟩
      · rw [if_neg hrange]
        refine .inr ⟨_, rfl, (fun _ h => by cases h), ?_⟩
        rintro _ ⟨x, hx, hrange', -⟩
        cases hvalue.symm.trans hx
        exact hrange hrange'
  | iterationLimit =>
    cases hvalue : given.whole? with
    | error fault =>
      refine .inr ⟨fault, by rw [assign, hvalue]; rfl, ofValue_of_whole? hvalue, ?_⟩
      rintro _ ⟨limit, hlimit, -⟩
      cases hvalue.symm.trans (Entry.whole?_eq_ok_iff.mpr hlimit)
    | ok value =>
      rw [assign_iterationLimit o hvalue]
      by_cases hneg : value < 0
      · rw [if_pos hneg]
        refine .inr ⟨_, rfl, (fun _ h => by cases h), ?_⟩
        rintro _ ⟨limit, hlimit, -⟩
        cases hvalue.symm.trans (Entry.whole?_eq_ok_iff.mpr hlimit)
        exact absurd hneg (by omega)
      · rw [if_neg hneg]
        have hlimit : given.EqualsWhole value.toNat := by
          rw [Int.toNat_of_nonneg (not_lt.mp hneg)]
          exact Entry.whole?_eq_ok_iff.mp hvalue
        exact .inl ⟨_, _, rfl, ⟨value.toNat, hlimit, rfl⟩, o.entry_withLimit value.toNat⟩

/-! ## All options at once -/

/-- Gives an option what a source has for it, if anything. -/
def settle (source : OptionName → Option (Entry α)) (o : Options α) (name : OptionName) :
    Except (Fault α) (Options α) :=
  match source name with
  | some given => o.assign name given
  | none => .ok o

/-- Reading goes through the options in their order and gives each what was given last. -/
theorem ofNamed_eq (given : List (OptionName × Entry α)) :
    ofNamed given = OptionName.all.foldlM (settle (lastGiven? given)) {} := rfl

/-- The value of an option that is given something, or nothing and then keeps its value. -/
def Settles (o : Options α) (name : OptionName) : Option (Entry α) → Entry α → Prop
  | some given, value => Takes name given value
  | none, value => value = o.entry name

/-- An option has what was given for it, or keeps its value if nothing was. -/
theorem settles_iff {o : Options α} {name : OptionName} {given : Option (Entry α)}
    {value : Entry α} : o.Settles name given value ↔
      (∀ entry, given = some entry → Takes name entry value) ∧
      (given = none → value = o.entry name) := by
  cases given <;> simp [Settles]

/-- What is given for an option settles one value only. -/
theorem Settles.unique {o : Options α} {name : OptionName} {given : Option (Entry α)}
    {value value' : Entry α} (h : o.Settles name given value) (h' : o.Settles name given value') :
    value = value' := by
  cases given with
  | none => exact Eq.trans h (Eq.symm h')
  | some given => exact Takes.unique h h'

/-- Where nothing is given only the value before counts. -/
theorem Settles.of_entry_eq {o o' : Options α} {name : OptionName} {given : Option (Entry α)}
    {value : Entry α} (h : o.Settles name given value) (heq : o'.entry name = o.entry name) :
    o'.Settles name given value := by
  cases given with
  | none => exact Eq.trans h heq.symm
  | some given => exact h

/-- A step settles the option it is about, if that can be done, and leaves the others. -/
theorem settle_cases (source : OptionName → Option (Entry α)) (o : Options α)
    (name : OptionName) :
    (∃ o', settle source o name = .ok o' ∧ o.Settles name (source name) (o'.entry name) ∧
      ∀ other, other ≠ name → o'.entry other = o.entry other) ∨
    ∃ fault, settle source o name = .error fault ∧ OfValue fault ∧
      ∀ value, ¬o.Settles name (source name) value := by
  unfold settle
  cases source name with
  | none => exact .inl ⟨o, rfl, rfl, fun _ _ => rfl⟩
  | some given =>
    rcases o.assign_cases name given with ⟨o', value, hok, htakes, hentry⟩ | herror
    · refine .inl ⟨o', hok, ?_, fun other hne => ?_⟩
      · rwa [hentry, if_pos rfl]
      · rw [hentry, if_neg hne]
    · exact .inr herror

/-- All options of a list are settled, or one of them cannot be. -/
theorem foldlM_settle_cases (source : OptionName → Option (Entry α)) {names : List OptionName}
    (hnodup : names.Nodup) (o : Options α) :
    (∃ o', names.foldlM (settle source) o = .ok o' ∧
      (∀ name ∈ names, o.Settles name (source name) (o'.entry name)) ∧
      ∀ name ∉ names, o'.entry name = o.entry name) ∨
    ∃ fault, names.foldlM (settle source) o = .error fault ∧ OfValue fault ∧
      ∃ name ∈ names, ∀ value, ¬o.Settles name (source name) value := by
  induction names generalizing o with
  | nil => exact .inl ⟨o, rfl, nofun, fun _ _ => rfl⟩
  | cons name names ih =>
    obtain ⟨hname, hrest⟩ := List.nodup_cons.mp hnodup
    rw [List.foldlM_cons]
    rcases settle_cases source o name with
      ⟨o₁, hstep, hsettles, hframe⟩ | ⟨fault, hstep, hfault, hnone⟩
    · have hkept : ∀ other ∈ names, o₁.entry other = o.entry other :=
        fun other hmem => hframe other fun heq => hname (heq ▸ hmem)
      rw [hstep]
      rcases ih hrest o₁ with
        ⟨o', hok, hnames, hothers⟩ | ⟨fault, herror, hfault, other, hmem, hnone⟩
      · refine .inl ⟨o', hok, List.forall_mem_cons.mpr ⟨?_, fun other hmem => ?_⟩,
          fun other hnot => ?_⟩
        · rwa [hothers name hname]
        · exact (hnames other hmem).of_entry_eq (hkept other hmem).symm
        · obtain ⟨hne, hnot⟩ := not_or.mp (mt List.mem_cons.mpr hnot)
          rw [hothers other hnot, hframe other hne]
      · refine .inr ⟨fault, herror, hfault, other, List.mem_cons_of_mem _ hmem, fun value h => ?_⟩
        exact hnone value (h.of_entry_eq (hkept other hmem))
    · rw [hstep]
      exact .inr ⟨fault, rfl, hfault, name, List.mem_cons_self, hnone⟩

/-- Options are made exactly if each one can be settled, and then each one is. -/
theorem foldlM_settle_eq_ok_iff {source : OptionName → Option (Entry α)} {o o' : Options α} :
    OptionName.all.foldlM (settle source) o = .ok o' ↔
      ∀ name, o.Settles name (source name) (o'.entry name) := by
  rcases foldlM_settle_cases source OptionName.nodup_all o with
    ⟨made, hok, hnames, -⟩ | ⟨fault, herror, -, name, -, hnone⟩
  · rw [hok, Except.ok.injEq]
    refine ⟨fun h name => h ▸ hnames name name.mem_all, fun h => ?_⟩
    exact eq_of_entry_eq fun name => (hnames name name.mem_all).unique (h name)
  · rw [herror]
    exact ⟨nofun, fun h => absurd (h name) (hnone _)⟩

/-- Settling options fails for values only, never for a name. -/
theorem ofValue_of_foldlM_settle {source : OptionName → Option (Entry α)} {o : Options α}
    {fault : Fault α} (h : OptionName.all.foldlM (settle source) o = .error fault) :
    OfValue fault := by
  rcases foldlM_settle_cases source OptionName.nodup_all o with
    ⟨made, hok, -⟩ | ⟨fault', herror, hfault, -⟩
  · cases h.symm.trans hok
  · cases h.symm.trans herror
    exact hfault

end Options

end NonsmoothDescent

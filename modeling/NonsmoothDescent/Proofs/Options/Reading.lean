import NonsmoothDescent.Proofs.Double
import NonsmoothDescent.Proofs.Options.Mapping
import NonsmoothDescent.Proofs.Options.Spelling
import NonsmoothDescent.Proofs.Options.Values

/-!
# Options read by name

Options are given as entries under names in any spelling. A name that cannot be read is told
before any entry is looked at, and the first such name is. If all can be read, each option is
made from the last entry under one of its spellings, so that the result is the same if the
list is written as a mapping from plain names first. Options that are written out again, under
any mixture of spellings, are read as the same options.
-/

namespace NonsmoothDescent.Options

open OptionName (canonical read? ofPlain?)

variable {α : Type}

/-! ## Names -/

/-- The entry is the last one under a spelling of the option. -/
def LastSpelled (given : List (String × Entry α)) (name : OptionName) (entry : Entry α) : Prop :=
  ∃ before text after, given = before ++ (text, entry) :: after ∧ text ∈ name.spellings ∧
    ∀ pair ∈ after, pair.1 ∉ name.spellings

/-- The given entries as a mapping from plain names. -/
def renamed (given : List (String × Entry α)) : List (String × Entry α) :=
  mapping (given.map fun pair => (canonical pair.1, pair.2))

/-- What is given last for each option under the names that are read as that option. -/
def lastRead (read : String → Option OptionName) (given : List (String × Entry α))
    (name : OptionName) : Option (Entry α) :=
  lastWhere (fun text => read text == some name) given

/-- What is read last for an option is what its last spelling gives. -/
theorem lastRead_eq_some_iff {given : List (String × Entry α)} {name : OptionName}
    {entry : Entry α} : lastRead read? given name = some entry ↔ LastSpelled given name entry := by
  simp only [lastRead, lastWhere_eq_some_iff, LastSpelled, beq_iff_eq, beq_eq_false_iff_ne, ne_eq,
    OptionName.read?_eq_some_iff]

/-- Nothing is read for an option that is not spelled. -/
theorem lastRead_eq_none_iff {given : List (String × Entry α)} {name : OptionName} :
    lastRead read? given name = none ↔ ∀ pair ∈ given, pair.1 ∉ name.spellings := by
  simp only [lastRead, lastWhere_eq_none_iff, beq_eq_false_iff_ne, ne_eq,
    OptionName.read?_eq_some_iff]

/-- The last entry under a canonical form is the last whose text has this form. -/
theorem lastWhere_canonical (given : List (String × Entry α)) (text : String) :
    lastWhere (· == text) (given.map fun pair => (canonical pair.1, pair.2)) =
      lastWhere (canonical · == text) given :=
  lastWhere_map _ canonical given

/-- Under plain names the mapping has for each option what was given last for it. -/
theorem lastRead_renamed (given : List (String × Entry α)) (name : OptionName) :
    lastRead ofPlain? (renamed given) name = lastRead read? given name := by
  have hplain : (fun text => ofPlain? text == some name) = (· == name.plain) := by
    funext text
    rw [Bool.eq_iff_iff, beq_iff_eq, beq_iff_eq, OptionName.ofPlain?_eq_some_iff]
  have hcanonical : (fun text => read? text == some name) = (canonical · == name.plain) := by
    funext text
    rw [Bool.eq_iff_iff, beq_iff_eq, beq_iff_eq, OptionName.read?_eq,
      OptionName.ofPlain?_eq_some_iff]
  rw [lastRead, hplain, renamed, lastWhere_mapping, lastWhere_canonical, lastRead, hcanonical]

/-- Each pair of the mapping comes from the last entry under a spelling of its option. -/
theorem mem_renamed_iff {given : List (String × Entry α)}
    (h : ∀ pair ∈ given, ∃ name : OptionName, pair.1 ∈ name.spellings)
    {text : String} {entry : Entry α} : (text, entry) ∈ renamed given ↔
      ∃ name : OptionName, text = name.plain ∧ LastSpelled given name entry := by
  rw [renamed, mem_mapping_iff, lastWhere_canonical]
  constructor
  · intro hlast
    obtain ⟨before, key, after, rfl, hkey, hafter⟩ := lastWhere_eq_some_iff.mp hlast
    obtain ⟨name, hname⟩ := h (key, entry) (List.mem_append_right _ List.mem_cons_self)
    have hplain : text = name.plain := by
      rw [← beq_iff_eq.mp hkey]
      exact OptionName.canonical_eq_plain_iff_mem.mpr hname
    refine ⟨name, hplain, before, key, after, rfl, hname, fun pair hpair hmem => ?_⟩
    have hne := hafter pair hpair
    rw [hplain, OptionName.canonical_eq_plain_iff_mem.mpr hmem, beq_self_eq_true] at hne
    cases hne
  · rintro ⟨name, rfl, before, key, after, rfl, hkey, hafter⟩
    refine lastWhere_eq_some_iff.mpr ⟨before, key, after, rfl, ?_, fun pair hpair => ?_⟩
    · exact beq_iff_eq.mpr (OptionName.canonical_eq_plain_iff_mem.mpr hkey)
    · rw [beq_eq_false_iff_ne]
      exact mt OptionName.canonical_eq_plain_iff_mem.mp (hafter pair hpair)

/-- The key can be read. -/
def Readable (read : String → Option OptionName) (pair : String × Entry α) : Prop :=
  (read pair.1).isSome

/-- A pair can be read if its text spells an option. -/
theorem readable_iff {pair : String × Entry α} :
    Readable read? pair ↔ ∃ name : OptionName, pair.1 ∈ name.spellings := by
  simp only [Readable, Option.isSome_iff_exists, OptionName.read?_eq_some_iff]

/-- All keys can be read, or there is a first one that cannot. -/
theorem forall_readable_or_exists_first (read : String → Option OptionName)
    (given : List (String × Entry α)) :
    (∀ pair ∈ given, Readable read pair) ∨ ∃ before text entry after,
      given = before ++ (text, entry) :: after ∧ read text = none ∧
        ∀ pair ∈ before, Readable read pair := by
  cases hfound : given.find? fun pair => (read pair.1).isNone with
  | none =>
    refine .inl fun pair hpair => ?_
    simpa [Readable, Option.isSome_iff_ne_none] using List.find?_eq_none.mp hfound pair hpair
  | some pair =>
    obtain ⟨hpair, before, after, rfl, hbefore⟩ := List.find?_eq_some_iff_append.mp hfound
    refine .inr ⟨before, pair.1, pair.2, after, rfl, Option.isNone_iff_eq_none.mp hpair, ?_⟩
    intro earlier hmem
    simpa [Readable] using hbefore earlier hmem

/-- Reads the key of each pair, and stops at the first that cannot be read. -/
def readKeys (read : String → Option OptionName) (fault : String → Fault α)
    (given : List (String × Entry α)) : Except (Fault α) (List (OptionName × Entry α)) :=
  given.mapM fun (text, entry) =>
    match read text with
    | some name => .ok (name, entry)
    | none => .error (fault text)

section Keys

variable {read : String → Option OptionName} {fault : String → Fault α}
  {given before after : List (String × Entry α)} {text : String} {entry : Entry α}

/-- A text that is read comes before the others. -/
theorem readKeys_cons_of_some {name : OptionName} (h : read text = some name) :
    readKeys read fault ((text, entry) :: given) =
      readKeys read fault given >>= fun named => .ok ((name, entry) :: named) := by
  rw [readKeys, List.mapM_cons]
  simp only [h]
  rfl

/-- Reading stops at a text that cannot be read. -/
theorem readKeys_cons_of_none (h : read text = none) :
    readKeys read fault ((text, entry) :: given) = .error (fault text) := by
  rw [readKeys, List.mapM_cons]
  simp only [h]
  rfl

/-- What is given first counts where nothing is given later. -/
theorem lastGiven?_cons (first name : OptionName) (entry : Entry α)
    (named : List (OptionName × Entry α)) : lastGiven? ((first, entry) :: named) name =
      (lastGiven? named name).or (if first = name then some entry else none) := by
  rw [lastGiven?, List.reverse_cons, List.find?_append, Option.map_or, lastGiven?]
  congr 1
  by_cases h : first = name <;> simp [h]

/-- Of keys that can all be read, the same entries count before and after. -/
theorem readKeys_of_readable (h : ∀ pair ∈ given, Readable read pair) :
    ∃ named, readKeys read fault given = .ok named ∧ lastGiven? named = lastRead read given := by
  induction given with
  | nil => exact ⟨[], rfl, rfl⟩
  | cons pair given ih =>
    obtain ⟨hpair, hrest⟩ := List.forall_mem_cons.mp h
    obtain ⟨name, hname⟩ := Option.isSome_iff_exists.mp hpair
    obtain ⟨named, hok, hlast⟩ := ih hrest
    refine ⟨(name, pair.2) :: named, ?_, ?_⟩
    · rw [readKeys_cons_of_some hname, hok]
      rfl
    · funext other
      rw [lastGiven?_cons, hlast, lastRead, lastRead, lastWhere_cons, hname]
      congr 1
      by_cases hother : name = other <;> simp [hother]

/-- Reading stops at the first text that cannot be read. -/
theorem readKeys_of_unreadable (hbefore : ∀ pair ∈ before, Readable read pair)
    (htext : read text = none) :
    readKeys read fault (before ++ (text, entry) :: after) = .error (fault text) := by
  induction before with
  | nil => exact readKeys_cons_of_none htext
  | cons pair before ih =>
    obtain ⟨hpair, hrest⟩ := List.forall_mem_cons.mp hbefore
    obtain ⟨name, hname⟩ := Option.isSome_iff_exists.mp hpair
    rw [List.cons_append, readKeys_cons_of_some hname, ih hrest]
    rfl

end Keys

/-! ## Options -/

variable [Scalar α] [ScalarReader α]

/-- A mapping is read by its names, and then by its values. -/
theorem ofMapping_eq (given : List (String × Entry α)) :
    ofMapping given = readKeys read? .unknownOption given >>= ofNamed := rfl

/-- Plain options are read by their names, and then by their values. -/
theorem ofPlain_eq (given : List (String × Entry α)) :
    ofPlain given = readKeys ofPlain? .unexpectedName given >>= ofNamed := rfl

/-- If all keys can be read, each option is made from what is given last for it. -/
theorem readKeys_bind_ofNamed {read : String → Option OptionName} {fault : String → Fault α}
    {given : List (String × Entry α)} (h : ∀ pair ∈ given, Readable read pair) :
    (readKeys read fault given >>= ofNamed) =
      OptionName.all.foldlM (settle (lastRead read given)) {} := by
  obtain ⟨named, hok, hlast⟩ : ∃ named, readKeys read fault given = .ok named ∧
      lastGiven? named = lastRead read given := readKeys_of_readable h
  rw [hok, ← hlast]
  exact ofNamed_eq named

variable {given : List (String × Entry α)} {o : Options α}

/-- A name that cannot be read is a fault of the reading, and never one of a value. -/
theorem ofMapping_eq_unknownOption_iff {text : String} :
    ofMapping given = .error (.unknownOption text) ↔ ∃ before entry after,
      given = before ++ (text, entry) :: after ∧ (∀ name : OptionName, text ∉ name.spellings) ∧
        ∀ pair ∈ before, ∃ name : OptionName, pair.1 ∈ name.spellings := by
  simp only [← readable_iff, ← OptionName.read?_eq_none_iff]
  constructor
  · intro h
    rcases forall_readable_or_exists_first read? given with
      hreadable | ⟨before, first, entry, after, rfl, hfirst, hbefore⟩
    · rw [ofMapping_eq, readKeys_bind_ofNamed hreadable] at h
      exact absurd rfl (ofValue_of_foldlM_settle h text)
    · rw [ofMapping_eq, readKeys_of_unreadable hbefore hfirst] at h
      cases h
      exact ⟨before, entry, after, rfl, hfirst, hbefore⟩
  · rintro ⟨before, entry, after, rfl, htext, hbefore⟩
    rw [ofMapping_eq, readKeys_of_unreadable hbefore htext]
    rfl

/-- A mapping is refused for a name if some text spells no option. -/
theorem exists_ofMapping_eq_unknownOption_iff :
    (∃ text, ofMapping given = .error (.unknownOption text)) ↔
      ∃ pair ∈ given, ∀ name : OptionName, pair.1 ∉ name.spellings := by
  simp only [← OptionName.read?_eq_none_iff]
  constructor
  · rintro ⟨text, h⟩
    obtain ⟨before, entry, after, rfl, htext, -⟩ := ofMapping_eq_unknownOption_iff.mp h
    exact ⟨(text, entry), List.mem_append_right _ List.mem_cons_self,
      OptionName.read?_eq_none_iff.mpr htext⟩
  · rintro ⟨pair, hpair, hnone⟩
    rcases forall_readable_or_exists_first read? given with
      hreadable | ⟨before, text, entry, after, rfl, htext, hbefore⟩
    · have hsome := hreadable pair hpair
      rw [Readable, hnone] at hsome
      cases hsome
    · refine ⟨text, ?_⟩
      rw [ofMapping_eq, readKeys_of_unreadable hbefore htext]
      rfl

/-! ## Plain names -/

/-- Names in any spelling are read as the plain names that they stand for. -/
theorem ofMapping_eq_ofPlain_renamed
    (h : ∀ pair ∈ given, ∃ name : OptionName, pair.1 ∈ name.spellings) :
    ofMapping given = ofPlain (renamed given) := by
  have hplain : ∀ pair ∈ renamed given, Readable ofPlain? pair := by
    intro pair hpair
    obtain ⟨name, hname, -⟩ := (mem_renamed_iff h).mp hpair
    rw [Readable, hname, OptionName.ofPlain?_plain, Option.isSome_some]
  rw [ofMapping_eq, readKeys_bind_ofNamed fun pair hpair => readable_iff.mpr (h pair hpair),
    ofPlain_eq, readKeys_bind_ofNamed hplain, funext (lastRead_renamed given)]

/-- What is made from plain names is made from them as spellings too. -/
theorem ofMapping_of_ofPlain (h : ofPlain given = .ok o) : ofMapping given = .ok o := by
  rcases forall_readable_or_exists_first ofPlain? given with
    hplain | ⟨before, text, entry, after, rfl, htext, hbefore⟩
  · have hsame : ∀ pair ∈ given, read? pair.1 = ofPlain? pair.1 := by
      intro pair hpair
      obtain ⟨name, hname⟩ := Option.isSome_iff_exists.mp (hplain pair hpair)
      rw [hname, OptionName.read?_of_ofPlain? hname]
    have hread : ∀ pair ∈ given, Readable read? pair := by
      intro pair hpair
      rw [Readable, hsame pair hpair]
      exact hplain pair hpair
    have hlast : lastRead read? given = lastRead ofPlain? given :=
      funext fun name => lastWhere_congr fun pair hpair => by rw [hsame pair hpair]
    rw [ofMapping_eq, readKeys_bind_ofNamed hread, hlast, ← readKeys_bind_ofNamed hplain]
    exact h
  · rw [ofPlain_eq, readKeys_of_unreadable hbefore htext] at h
    cases h

/-! ## What is made -/

/-- Options made from given entries: of each option that is spelled at all, the last entry
under one of its spellings, and of any other the default. -/
structure MadeFrom (given : List (String × Entry α)) (o : Options α) : Prop where
  spelled : ∀ pair ∈ given, ∃ name : OptionName, pair.1 ∈ name.spellings
  toggle : ∀ t entry, LastSpelled given (.toggle t) entry → o.isOn t = entry.truth
  amount : ∀ a entry, LastSpelled given (.amount a) entry → entry.real? = .ok (o.get a) ∧
    0 ≤ o.get a ∧ ∀ bound ∈ (a.upperBound? : Option α), o.get a ≤ bound
  iterationLimit : ∀ entry, LastSpelled given .iterationLimit entry →
    entry.EqualsWhole o.iterationLimit
  default : ∀ name, (∀ pair ∈ given, pair.1 ∉ name.spellings) →
    o.entry name = ({} : Options α).entry name

/-- Reading succeeds exactly with the options made from what is given. -/
theorem ofMapping_eq_ok_iff : ofMapping given = .ok o ↔ MadeFrom given o := by
  have hmade (hspelled : ∀ pair ∈ given, ∃ name : OptionName, pair.1 ∈ name.spellings) :
      ofMapping given = .ok o ↔ ∀ name,
        (∀ entry, LastSpelled given name entry → Takes name entry (o.entry name)) ∧
        ((∀ pair ∈ given, pair.1 ∉ name.spellings) →
          o.entry name = ({} : Options α).entry name) := by
    have hreadable : ∀ pair ∈ given, Readable read? pair :=
      fun pair hpair => readable_iff.mpr (hspelled pair hpair)
    rw [ofMapping_eq, readKeys_bind_ofNamed hreadable, foldlM_settle_eq_ok_iff]
    simp only [settles_iff, lastRead_eq_some_iff, lastRead_eq_none_iff]
  constructor
  · intro h
    have hspelled : ∀ pair ∈ given, ∃ name : OptionName, pair.1 ∈ name.spellings := by
      by_contra hnot
      push Not at hnot
      obtain ⟨text, herror⟩ := exists_ofMapping_eq_unknownOption_iff.mpr hnot
      cases h.symm.trans herror
    have hall := (hmade hspelled).mp h
    exact ⟨hspelled, fun t entry hlast => takes_toggle_iff.mp ((hall _).1 entry hlast),
      fun a entry hlast => takes_amount_iff.mp ((hall _).1 entry hlast),
      fun entry hlast => takes_iterationLimit_iff.mp ((hall _).1 entry hlast),
      fun name => (hall name).2⟩
  · intro h
    refine (hmade h.spelled).mpr fun name => ⟨fun entry hlast => ?_, h.default name⟩
    cases name with
    | toggle t => exact takes_toggle_iff.mpr (h.toggle t entry hlast)
    | amount a => exact takes_amount_iff.mpr (h.amount a entry hlast)
    | iterationLimit => exact takes_iterationLimit_iff.mpr (h.iterationLimit entry hlast)

/-- Options that were made from accepted defaults are accepted. -/
theorem MadeFrom.accepted (h : MadeFrom given o) (hdefault : ({} : Options α).Accepted) :
    o.Accepted := by
  intro a
  cases hlast : lastRead read? given (.amount a) with
  | none =>
    have hentry := h.default (.amount a) (lastRead_eq_none_iff.mp hlast)
    rw [Entry.real.inj hentry]
    exact hdefault a
  | some entry => exact inRange_iff.mpr (h.amount a entry (lastRead_eq_some_iff.mp hlast)).2

/-- The values of all options, each at least once, in any order and under any spellings. -/
structure WrittenOut (o : Options α) (given : List (String × Entry α)) : Prop where
  value : ∀ pair ∈ given, ∃ name : OptionName, pair.1 ∈ name.spellings ∧
    (name, pair.2) ∈ o.toEntries
  complete : ∀ name : OptionName, ∃ pair ∈ given, pair.1 ∈ name.spellings

omit [ScalarReader α] in
/-- The last entry for an option that was written out is its value. -/
theorem WrittenOut.eq_entry {name : OptionName} {entry : Entry α} (h : o.WrittenOut given)
    (hlast : LastSpelled given name entry) : entry = o.entry name := by
  obtain ⟨before, text, after, rfl, htext, -⟩ := hlast
  obtain ⟨other, hother, hmem⟩ := h.value (text, entry) (List.mem_append_right _ List.mem_cons_self)
  have hsame : other = name := Option.some.inj
    ((OptionName.read?_eq_some_iff.mpr hother).symm.trans (OptionName.read?_eq_some_iff.mpr htext))
  exact hsame ▸ mem_toEntries_iff.mp hmem

/-- Accepted options that are written out are made again. -/
theorem WrittenOut.madeFrom (h : o.WrittenOut given) (haccepted : o.Accepted) :
    MadeFrom given o where
  spelled pair hpair := (h.value pair hpair).imp fun _ hname => hname.1
  toggle t entry hlast := by
    rw [h.eq_entry hlast]
    rfl
  amount a entry hlast := by
    rw [h.eq_entry hlast]
    exact ⟨rfl, inRange_iff.mp (haccepted a)⟩
  iterationLimit entry hlast := by
    rw [h.eq_entry hlast]
    rfl
  default name hnone := by
    obtain ⟨pair, hpair, hmem⟩ := h.complete name
    exact absurd hmem (hnone pair hpair)

omit [ScalarReader α] in
/-- A solver writes options out under marked names. -/
theorem writtenOut_marked (o : Options α) :
    o.WrittenOut (o.toEntries.map fun pair => (pair.1.marked, pair.2)) where
  value pair hpair := by
    obtain ⟨⟨name, value⟩, hmem, rfl⟩ := List.mem_map.mp hpair
    exact ⟨name, name.marked_mem_spellings, hmem⟩
  complete name := ⟨_, List.mem_map_of_mem (mem_toEntries_iff.mpr rfl), name.marked_mem_spellings⟩

/-! ## Doubles -/

/-- Over doubles all defaults are in their ranges. -/
theorem accepted_default_double : ({} : Options Float).Accepted := by
  intro a
  cases a <;> decide +kernel

/-- Reading stops at the first name that is no spelling of an option, whatever the entries
are. If there is none, reading is as from plain names, under each of which stands the last
entry for its option. All numbers that are read lie in their ranges, and none is NaN; the
limit equals the number that was given for it, so texts, infinite numbers and numbers with a
fraction are refused there. Options that were read and are written out again, under any
spellings, are read as the same options. -/
theorem last_spelling_counts (given : List (String × Entry Float)) :
    ((∃ text, ofMapping given = .error (.unknownOption text)) ↔
      ∃ pair ∈ given, ∀ name : OptionName, pair.1 ∉ name.spellings) ∧
    (∀ text, ofMapping given = .error (.unknownOption text) ↔ ∃ before entry after,
      given = before ++ (text, entry) :: after ∧ (∀ name : OptionName, text ∉ name.spellings) ∧
        ∀ pair ∈ before, ∃ name : OptionName, pair.1 ∈ name.spellings) ∧
    ((∀ pair ∈ given, ∃ name : OptionName, pair.1 ∈ name.spellings) →
      ofMapping given = ofPlain (renamed given) ∧
      ((renamed given).map Prod.fst).Nodup ∧
      ∀ text entry, (text, entry) ∈ renamed given ↔
        ∃ name : OptionName, text = name.plain ∧ LastSpelled given name entry) ∧
    (∀ o, ofMapping given = .ok o ↔ MadeFrom given o) ∧
    (∀ o, ofPlain given = .ok o → ofMapping given = .ok o) ∧
    (∀ o, ofMapping given = .ok o →
      (∀ a, (o.get a).isNaN = false ∧ 0 ≤ o.get a ∧
        ∀ bound ∈ (a.upperBound? : Option Float), o.get a ≤ bound) ∧
      ∀ again, o.WrittenOut again → ofMapping again = .ok o) ∧
    ∀ entry : Entry Float, LastSpelled given .iterationLimit entry →
      ((∃ text, entry = .text text) ∨ ∃ x, entry = .real x ∧ (Scalar.isFinite x = false ∨
        Scalar.same x (Scalar.ofInt (Scalar.truncate x)) = false)) →
      ∀ o, ofMapping given ≠ .ok o := by
  refine ⟨exists_ofMapping_eq_unknownOption_iff, fun _ => ofMapping_eq_unknownOption_iff,
    fun hspelled => ⟨ofMapping_eq_ofPlain_renamed hspelled, nodup_keys_mapping _,
      fun _ _ => mem_renamed_iff hspelled⟩, fun _ => ofMapping_eq_ok_iff,
    fun _ => ofMapping_of_ofPlain, fun o hok => ?_, fun entry hlast hentry o hok => ?_⟩
  · have hmade := ofMapping_eq_ok_iff.mp hok
    have haccepted := hmade.accepted accepted_default_double
    refine ⟨fun a => ?_, fun again hagain =>
      ofMapping_eq_ok_iff.mpr (hagain.madeFrom haccepted)⟩
    have hrange := inRange_iff.mp (haccepted a)
    exact ⟨Double.isNaN_eq_false_of_nonneg hrange.1, hrange⟩
  · have hlimit := (ofMapping_eq_ok_iff.mp hok).iterationLimit entry hlast
    rcases hentry with ⟨text, rfl⟩ | ⟨x, rfl, hrefused⟩
    · exact hlimit
    · obtain ⟨hfinite, htruncate, hsame⟩ := hlimit
      rw [htruncate] at hsame
      rcases hrefused with hinfinite | hfraction
      · cases hfinite.symm.trans hinfinite
      · cases hsame.symm.trans hfraction

/-- Two options under two spellings each, and one under one. -/
def mixedSpellings : List (String × Entry Float) :=
  [("DCCP_fail_on_QP_failure", .whole 1), ("inner_iteration_limit", .flag true),
   ("downshift_constant", .text "0.5"), ("fail_on_qp_failure", .list []),
   ("DCCP_inner_iteration_limit", .real 7)]

/-- The later entries count, and what is read is read again under marked names. A limit with
a fraction is refused, and a name that is marked twice is not known. -/
theorem mixed_spellings_counted :
    (∃ o, ofMapping mixedSpellings = .ok o ∧ o.failOnSolverFailure = false ∧
      Entry.EqualsWhole (.real (7 : Float)) o.iterationLimit ∧ (o.get .downshift).isNaN = false ∧
      ofMapping (o.toEntries.map fun pair => (pair.1.marked, pair.2)) = .ok o) ∧
    (∀ pair ∈ mixedSpellings, ∃ name : OptionName, pair.1 ∈ name.spellings) ∧
    ofMapping mixedSpellings = ofPlain (renamed mixedSpellings) ∧
    (∀ o, ofMapping (mixedSpellings ++ [("inner_iteration_limit", .real 2.5)]) ≠ .ok o) ∧
    ∃ text, ofMapping (("DCCP_DCCP_downshift_constant", .nothing) :: mixedSpellings) =
      .error (.unknownOption text) := by
  obtain ⟨-, -, hplain, hmade, -, hbuilt, -⟩ := last_spelling_counts mixedSpellings
  have hspelled : ∀ pair ∈ mixedSpellings, ∃ name : OptionName, pair.1 ∈ name.spellings := by
    have hread : ∀ pair ∈ mixedSpellings, (read? pair.1).isSome = true := by decide +kernel
    exact fun pair hpair => readable_iff.mp (hread pair hpair)
  have hfailure : LastSpelled mixedSpellings (.toggle .failOnSolverFailure) (.list []) :=
    ⟨mixedSpellings.take 3, "fail_on_qp_failure", mixedSpellings.drop 4, rfl,
      by decide +kernel, by decide +kernel⟩
  have hlimit : LastSpelled mixedSpellings .iterationLimit (.real 7) :=
    ⟨mixedSpellings.take 4, "DCCP_inner_iteration_limit", [], rfl, by decide +kernel, nofun⟩
  refine ⟨?_, hspelled, (hplain hspelled).1, ?_, ?_⟩
  · have hok : (ofMapping mixedSpellings).isOk = true := by decide +kernel
    cases hread : ofMapping mixedSpellings with
    | error fault =>
      rw [hread] at hok
      cases hok
    | ok o =>
      obtain ⟨hnumbers, hagain⟩ := hbuilt o hread
      have hfrom := (hmade o).mp hread
      exact ⟨o, rfl, hfrom.toggle _ _ hfailure, hfrom.iterationLimit _ hlimit,
        (hnumbers .downshift).1, hagain _ o.writtenOut_marked⟩
  · have hfraction : LastSpelled (mixedSpellings ++ [("inner_iteration_limit", .real 2.5)])
        .iterationLimit (.real 2.5) :=
      ⟨mixedSpellings, "inner_iteration_limit", [], rfl, by decide +kernel, nofun⟩
    obtain ⟨-, -, -, -, -, -, hrefused⟩ := last_spelling_counts
      (mixedSpellings ++ [("inner_iteration_limit", .real 2.5)])
    exact hrefused _ hfraction (.inr ⟨2.5, rfl, .inr (by decide +kernel)⟩)
  · obtain ⟨hunknown, -⟩ := last_spelling_counts
      (("DCCP_DCCP_downshift_constant", .nothing) :: mixedSpellings)
    have hnone : read? "DCCP_DCCP_downshift_constant" = none := by decide +kernel
    exact hunknown.mpr ⟨_, List.mem_cons_self, OptionName.read?_eq_none_iff.mp hnone⟩

end NonsmoothDescent.Options

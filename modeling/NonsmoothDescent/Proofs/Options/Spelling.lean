import NonsmoothDescent.Options.Name

/-!
# Spellings of option names

An option is written plain or with the mark of a solver in front, and one option may also
be written with capitals, either way. These spellings are read, each as its own option, and
no other text is. The mark is dropped once only, so a text that is marked twice names nothing.
-/

namespace NonsmoothDescent.OptionName

/-- The texts that stand for an option where no mark is in front. -/
def unmarkedSpellings (name : OptionName) : List String :=
  if name = .toggle .failOnSolverFailure then [name.plain, capitalSpelling] else [name.plain]

/-- The texts that stand for an option. -/
def spellings (name : OptionName) : List String :=
  name.unmarkedSpellings ++ name.unmarkedSpellings.map (mark ++ ·)

/-- A text without the mark, and with the plain name in place of the spelling with capitals. -/
def canonical (text : String) : String :=
  if unmarked text = capitalSpelling then plain (.toggle .failOnSolverFailure)
  else unmarked text

/-- A text is read as the plain name of its canonical form. -/
theorem read?_eq (text : String) : read? text = ofPlain? (canonical text) := rfl

/-- The list of options is complete. -/
theorem mem_all (name : OptionName) : name ∈ all := by
  cases name with
  | toggle t => cases t <;> decide
  | amount a => cases a <;> decide
  | iterationLimit => decide

/-- The list of options has none twice. -/
theorem nodup_all : all.Nodup := by decide

/-- A plain name is that of its option. -/
theorem ofPlain?_plain (name : OptionName) : ofPlain? name.plain = some name := by
  cases name with
  | toggle t => cases t <;> rfl
  | amount a => cases a <;> rfl
  | iterationLimit => rfl

/-- Only its plain name stands for an option where no other spelling is allowed. -/
theorem ofPlain?_eq_some_iff {text : String} {name : OptionName} :
    ofPlain? text = some name ↔ text = name.plain := by
  refine ⟨fun h => ?_, fun h => h ▸ ofPlain?_plain name⟩
  have hsame := List.find?_some h
  exact (beq_iff_eq.mp hsame).symm

/-- Options have different plain names. -/
theorem plain_injective {name other : OptionName} (h : name.plain = other.plain) :
    name = other :=
  Option.some.inj ((ofPlain?_plain name).symm.trans (h ▸ ofPlain?_plain other))

/-- A marked text loses its mark, and any other text stays as it is. -/
theorem unmarked_cases (text : String) :
    (∃ rest, text = mark ++ rest ∧ unmarked text = rest) ∨
      ((∀ rest, text ≠ mark ++ rest) ∧ unmarked text = text) := by
  unfold unmarked
  by_cases h : mark.toList.isPrefixOf text.toList
  · rw [if_pos h]
    obtain ⟨rest, hrest⟩ := List.isPrefixOf_iff_prefix.mp h
    refine .inl ⟨String.ofList rest, ?_, ?_⟩
    · rw [← String.toList_inj, String.toList_append, String.toList_ofList, hrest]
    · rw [← hrest]
      exact congrArg String.ofList (List.drop_left' rfl)
  · rw [if_neg h]
    refine .inr ⟨fun rest hrest => h ?_, rfl⟩
    rw [hrest, String.toList_append]
    exact List.isPrefixOf_iff_prefix.mpr (List.prefix_append _ _)

/-- Taking the mark off undoes putting it on. -/
theorem unmarked_mark_append (rest : String) : unmarked (mark ++ rest) = rest := by
  rcases unmarked_cases (mark ++ rest) with ⟨other, heq, hunmarked⟩ | ⟨hnone, -⟩
  · rw [hunmarked]
    exact (String.append_right_inj mark).mp heq.symm
  · exact absurd rfl (hnone rest)

/-- No plain name begins with the mark, nor does the spelling with capitals. -/
theorem unmarked_plain (name : OptionName) : unmarked name.plain = name.plain := by
  cases name with
  | toggle t => cases t <;> rfl
  | amount a => cases a <;> rfl
  | iterationLimit => rfl

/-- The spelling with a capital has no mark. -/
theorem unmarked_capitalSpelling : unmarked capitalSpelling = capitalSpelling := rfl

/-- The spelling with a capital is no plain name. -/
theorem plain_ne_capitalSpelling (name : OptionName) : name.plain ≠ capitalSpelling := by
  cases name with
  | toggle t => cases t <;> decide
  | amount a => cases a <;> decide
  | iterationLimit => decide

/-- Without a mark an option is spelled by its plain name, and one by another besides. -/
theorem mem_unmarkedSpellings_iff {text : String} {name : OptionName} :
    text ∈ name.unmarkedSpellings ↔
      text = name.plain ∨ name = .toggle .failOnSolverFailure ∧ text = capitalSpelling := by
  unfold unmarkedSpellings
  by_cases h : name = .toggle .failOnSolverFailure
  · simp [h]
  · simp [h]

/-- The spellings of an option are those without a mark, with and without it. -/
theorem mem_spellings_iff {text : String} {name : OptionName} :
    text ∈ name.spellings ↔ ∃ rest ∈ name.unmarkedSpellings, text = rest ∨ text = mark ++ rest := by
  simp only [spellings, List.mem_append, List.mem_map, and_or_left, exists_or, exists_eq_right',
    eq_comm]

/-- A spelling without a mark has none to take off. -/
theorem unmarked_of_mem_unmarkedSpellings {text : String} {name : OptionName}
    (h : text ∈ name.unmarkedSpellings) : unmarked text = text := by
  rcases mem_unmarkedSpellings_iff.mp h with rfl | ⟨-, rfl⟩
  · exact unmarked_plain name
  · exact unmarked_capitalSpelling

/-- A text has the canonical form of an option if it spells it once the mark is off. -/
theorem canonical_eq_plain_iff {text : String} {name : OptionName} :
    canonical text = name.plain ↔ unmarked text ∈ name.unmarkedSpellings := by
  rw [mem_unmarkedSpellings_iff]
  unfold canonical
  by_cases h : unmarked text = capitalSpelling
  · rw [if_pos h]
    refine ⟨fun heq => .inr ⟨(plain_injective heq).symm, h⟩, ?_⟩
    rintro (hplain | ⟨rfl, -⟩)
    · exact absurd (hplain.symm.trans h) (plain_ne_capitalSpelling name)
    · rfl
  · rw [if_neg h]
    exact ⟨.inl, fun hor => hor.resolve_right fun hcapitals => h hcapitals.2⟩

/-- A text stands for an option exactly if it is one of the spellings of that option. -/
theorem canonical_eq_plain_iff_mem {text : String} {name : OptionName} :
    canonical text = name.plain ↔ text ∈ name.spellings := by
  rw [canonical_eq_plain_iff, mem_spellings_iff]
  constructor
  · intro h
    rcases unmarked_cases text with ⟨rest, htext, hrest⟩ | ⟨-, hsame⟩
    · exact ⟨rest, hrest ▸ h, .inr htext⟩
    · exact ⟨text, hsame ▸ h, .inl rfl⟩
  · rintro ⟨rest, hmem, rfl | rfl⟩
    · rwa [unmarked_of_mem_unmarkedSpellings hmem]
    · rwa [unmarked_mark_append]

/-- A text is read as the option that it spells. -/
theorem read?_eq_some_iff {text : String} {name : OptionName} :
    read? text = some name ↔ text ∈ name.spellings := by
  rw [read?_eq, ofPlain?_eq_some_iff, canonical_eq_plain_iff_mem]

/-- Every text that is not a spelling is refused. -/
theorem read?_eq_none_iff {text : String} :
    read? text = none ↔ ∀ name : OptionName, text ∉ name.spellings := by
  simp only [Option.eq_none_iff_forall_ne_some, ne_eq, read?_eq_some_iff]

/-- The plain name is a spelling. -/
theorem plain_mem_spellings (name : OptionName) : name.plain ∈ name.spellings :=
  mem_spellings_iff.mpr ⟨name.plain, mem_unmarkedSpellings_iff.mpr (.inl rfl), .inl rfl⟩

/-- The marked name is a spelling. -/
theorem marked_mem_spellings (name : OptionName) : name.marked ∈ name.spellings :=
  mem_spellings_iff.mpr ⟨name.plain, mem_unmarkedSpellings_iff.mpr (.inl rfl), .inr rfl⟩

/-- A plain name is read as what it names. -/
theorem read?_of_ofPlain? {text : String} {name : OptionName} (h : ofPlain? text = some name) :
    read? text = some name := by
  rw [ofPlain?_eq_some_iff.mp h]
  exact read?_eq_some_iff.mpr (plain_mem_spellings name)

/-- The mark is dropped once. -/
example : read? "DCCP_fail_on_QP_failure" = some (.toggle .failOnSolverFailure) ∧
    read? "DCCP_DCCP_downshift_constant" = none := by
  decide +kernel

end NonsmoothDescent.OptionName

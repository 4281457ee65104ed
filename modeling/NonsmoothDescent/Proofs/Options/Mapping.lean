import Mathlib.Data.List.Induction
import Mathlib.Data.List.Nodup
import NonsmoothDescent.Options.Reader

/-!
# Last values

In a list of keys with values, the last value counts whose key has a property. A list as a
mapping has each key once, with the value that counts for it in the list.
-/

namespace NonsmoothDescent.Options

variable {β : Type}

/-- The last value whose key has a property. -/
def lastWhere (p : String → Bool) (given : List (String × β)) : Option β :=
  (given.reverse.find? fun pair => p pair.1).map Prod.snd

/-- A pair behind the others is the last one if it fits. -/
theorem lastWhere_concat (p : String → Bool) (given : List (String × β)) (pair : String × β) :
    lastWhere p (given ++ [pair]) = if p pair.1 then some pair.2 else lastWhere p given := by
  rw [lastWhere, List.reverse_concat, List.find?_cons]
  cases p pair.1 <;> rfl

/-- A pair before the others counts where none of them fits. -/
theorem lastWhere_cons (p : String → Bool) (pair : String × β) (given : List (String × β)) :
    lastWhere p (pair :: given) =
      (lastWhere p given).or (if p pair.1 then some pair.2 else none) := by
  rw [lastWhere, List.reverse_cons, List.find?_append, Option.map_or, lastWhere]
  congr 1
  cases h : p pair.1 <;> simp [h]

/-- Behind the last value no key has the property. -/
theorem lastWhere_eq_some_iff {p : String → Bool} {given : List (String × β)} {value : β} :
    lastWhere p given = some value ↔ ∃ before text after,
      given = before ++ (text, value) :: after ∧ p text = true ∧
        ∀ pair ∈ after, p pair.1 = false := by
  constructor
  · intro h
    obtain ⟨⟨text, _⟩, hfind, rfl⟩ := Option.map_eq_some_iff.mp h
    obtain ⟨htext, after, before, hsplit, hafter⟩ := List.find?_eq_some_iff_append.mp hfind
    refine ⟨before.reverse, text, after.reverse, ?_, htext, fun pair hpair => ?_⟩
    · rw [← List.reverse_reverse given, hsplit]
      simp
    · simpa using hafter pair (List.mem_reverse.mp hpair)
  · rintro ⟨before, text, after, rfl, htext, hafter⟩
    refine Option.map_eq_some_iff.mpr ⟨(text, value), List.find?_eq_some_iff_append.mpr
      ⟨htext, after.reverse, before.reverse, by simp, fun pair hpair => ?_⟩, rfl⟩
    simpa using hafter pair (List.mem_reverse.mp hpair)

/-- There is no last pair where none fits. -/
theorem lastWhere_eq_none_iff {p : String → Bool} {given : List (String × β)} :
    lastWhere p given = none ↔ ∀ pair ∈ given, p pair.1 = false := by
  simp [lastWhere]

/-- Only the keys that are there matter. -/
theorem lastWhere_congr {p q : String → Bool} {given : List (String × β)}
    (h : ∀ pair ∈ given, p pair.1 = q pair.1) : lastWhere p given = lastWhere q given := by
  induction given with
  | nil => rfl
  | cons pair given ih =>
    obtain ⟨hpair, hrest⟩ := List.forall_mem_cons.mp h
    rw [lastWhere_cons, lastWhere_cons, ih hrest, hpair]

/-- Keys may as well be renamed first. -/
theorem lastWhere_map (p : String → Bool) (rename : String → String)
    (given : List (String × β)) :
    lastWhere p (given.map fun pair => (rename pair.1, pair.2)) =
      lastWhere (fun text => p (rename text)) given := by
  rw [lastWhere, ← List.map_reverse, List.find?_map, Option.map_map]
  rfl

/-- A mapping with one more pair: a key that is there gets a new value, and a new key comes
last. -/
def put (made : List (String × β)) (pair : String × β) : List (String × β) :=
  if made.any (·.1 == pair.1) then
    made.map fun old => if old.1 == pair.1 then (old.1, pair.2) else old
  else made ++ [pair]

/-- A mapping is made pair by pair. -/
theorem mapping_concat (pairs : List (String × β)) (pair : String × β) :
    mapping (pairs ++ [pair]) = put (mapping pairs) pair := by
  rw [mapping, List.foldl_append]
  rfl

/-- A key is found if it is one of the keys. -/
theorem any_key_iff {made : List (String × β)} {key : String} :
    made.any (·.1 == key) = true ↔ key ∈ made.map Prod.fst := by
  simp only [List.any_eq_true, beq_iff_eq, List.mem_map]

/-- A new value for a key that is there leaves the keys as they are. -/
theorem put_of_mem {made : List (String × β)} {pair : String × β}
    (h : pair.1 ∈ made.map Prod.fst) : put made pair =
      made.map fun old => (old.1, if old.1 = pair.1 then pair.2 else old.2) := by
  rw [put, if_pos (any_key_iff.mpr h)]
  refine List.map_congr_left fun old _ => ?_
  by_cases hold : old.1 = pair.1 <;> simp [hold]

/-- A new key comes behind the others. -/
theorem put_of_not_mem {made : List (String × β)} {pair : String × β}
    (h : pair.1 ∉ made.map Prod.fst) : put made pair = made ++ [pair] :=
  if_neg (mt any_key_iff.mp h)

/-- What was put under a key is found there, and nothing else changes. -/
theorem lastWhere_put (key : String) (made : List (String × β)) (pair : String × β) :
    lastWhere (· == key) (put made pair) =
      if pair.1 == key then some pair.2 else lastWhere (· == key) made := by
  by_cases hmem : pair.1 ∈ made.map Prod.fst
  · rw [put_of_mem hmem, lastWhere, ← List.map_reverse, List.find?_map, Option.map_map, lastWhere]
    change ((made.reverse.find? fun old => old.1 == key).map _) = _
    cases hfound : made.reverse.find? fun old => old.1 == key with
    | none =>
      have hne : pair.1 ≠ key := by
        obtain ⟨old, hold, hkey⟩ := List.mem_map.mp hmem
        have hnot := List.find?_eq_none.mp hfound old (List.mem_reverse.mpr hold)
        rw [← hkey]
        simpa using hnot
      simp [hne]
    | some old =>
      have hsame := List.find?_some hfound
      have hold : old.1 = key := beq_iff_eq.mp hsame
      by_cases hkey : pair.1 = key
      · simp [hold, hkey]
      · simp [hold, hkey, Ne.symm hkey]
  · rw [put_of_not_mem hmem, lastWhere_concat]

/-- For each key, a mapping has the last value in the list. -/
theorem lastWhere_mapping (key : String) (pairs : List (String × β)) :
    lastWhere (· == key) (mapping pairs) = lastWhere (· == key) pairs := by
  induction pairs using List.reverseRecOn with
  | nil => rfl
  | append_singleton pairs pair ih => rw [mapping_concat, lastWhere_put, lastWhere_concat, ih]

/-- No key comes twice. -/
theorem nodup_keys_put {made : List (String × β)} (h : (made.map Prod.fst).Nodup)
    (pair : String × β) : ((put made pair).map Prod.fst).Nodup := by
  by_cases hmem : pair.1 ∈ made.map Prod.fst
  · rw [put_of_mem hmem, List.map_map]
    exact h
  · rw [put_of_not_mem hmem, List.map_append, List.map_singleton]
    refine List.nodup_append.mpr ⟨h, List.nodup_singleton _, fun key hkey other hother => ?_⟩
    rw [List.mem_singleton.mp hother]
    exact fun heq => hmem (heq ▸ hkey)

/-- A mapping has each key once. -/
theorem nodup_keys_mapping (pairs : List (String × β)) :
    ((mapping pairs).map Prod.fst).Nodup := by
  induction pairs using List.reverseRecOn with
  | nil => exact List.nodup_nil
  | append_singleton pairs pair ih =>
    rw [mapping_concat]
    exact nodup_keys_put ih pair

/-- Where each key stands once, its value is the last one. -/
theorem mem_iff_lastWhere_eq_some {made : List (String × β)} (h : (made.map Prod.fst).Nodup)
    {key : String} {value : β} :
    (key, value) ∈ made ↔ lastWhere (· == key) made = some value := by
  rw [lastWhere_eq_some_iff]
  constructor
  · intro hmem
    obtain ⟨before, after, rfl⟩ := List.append_of_mem hmem
    refine ⟨before, key, after, rfl, beq_self_eq_true key, fun pair hpair => ?_⟩
    rw [List.map_append, List.map_cons] at h
    have hkey : key ∉ after.map Prod.fst := (List.nodup_cons.mp (List.nodup_append.mp h).2.1).1
    rw [beq_eq_false_iff_ne]
    exact fun heq => hkey (List.mem_map.mpr ⟨pair, hpair, heq⟩)
  · rintro ⟨before, text, after, rfl, htext, -⟩
    rw [← beq_iff_eq.mp htext]
    exact List.mem_append_right _ List.mem_cons_self

/-- A pair is in the mapping if its value is the last one for its key. -/
theorem mem_mapping_iff {pairs : List (String × β)} {key : String} {value : β} :
    (key, value) ∈ mapping pairs ↔ lastWhere (· == key) pairs = some value := by
  rw [mem_iff_lastWhere_eq_some (nodup_keys_mapping pairs), lastWhere_mapping]

end NonsmoothDescent.Options

/-!
# Dictionaries

A dictionary is a list of entries in which no key occurs twice.  Entries keep the order in which
their keys first came; putting a value under a key that is there replaces it in its place.

## Main definitions

* `Dict`, `Dict.get?`, `Dict.put`, `Dict.erase`, `Dict.filter`

## Main results

* `Dict.get?_put`, `Dict.get?_erase`, `Dict.get?_filter`, `Dict.get?_mapValues`: what the operations
  do to look-ups.
* `Dict.mem_keys_iff`, `Dict.mem_entries_iff`: the keys and entries are those that are found.
* `Dict.get?_foldl_put`, `Dict.get?_ofList_eq_some_iff`: entries that are put one after another.
* `Dict.entries_put`: an entry with a new key comes last.
-/

namespace Signpost

/-- A list of entries with distinct keys. -/
structure Dict (κ υ : Type) where
  entries : List (κ × υ)
  distinct : (entries.map Prod.fst).Nodup

namespace Dict

variable {κ υ : Type}

/-- The dictionary without entries. -/
def empty : Dict κ υ := ⟨[], List.nodup_nil⟩

instance : Inhabited (Dict κ υ) := ⟨empty⟩

/-- The keys in their order. -/
def keys (d : Dict κ υ) : List κ := d.entries.map Prod.fst

/-- The values in the order of their keys. -/
def values (d : Dict κ υ) : List υ := d.entries.map Prod.snd

/-- The number of entries. -/
def size (d : Dict κ υ) : Nat := d.entries.length

/-- The entries that satisfy a condition. -/
def filter (d : Dict κ υ) (p : κ → υ → Bool) : Dict κ υ where
  entries := d.entries.filter fun e => p e.1 e.2
  distinct := (List.filter_sublist.map Prod.fst).nodup d.distinct

/-- The dictionary with every value changed by a function. -/
def mapValues {υ' : Type} (d : Dict κ υ) (f : υ → υ') : Dict κ υ' where
  entries := d.entries.map fun e => (e.1, f e.2)
  distinct := by simpa [Function.comp_def] using d.distinct

variable [DecidableEq κ]

/-- The value found under a key in a list of entries. -/
def find? (key : κ) : List (κ × υ) → Option υ
  | [] => none
  | (k, v) :: rest => if k = key then some v else find? key rest

/-- Puts an entry in the place of the one with its key, or at the end. -/
def putEntry (key : κ) (value : υ) : List (κ × υ) → List (κ × υ)
  | [] => [(key, value)]
  | (k, v) :: rest => if k = key then (key, value) :: rest else (k, v) :: putEntry key value rest

theorem mem_keys_putEntry {key k : κ} {value : υ} {entries : List (κ × υ)} :
    k ∈ (putEntry key value entries).map Prod.fst ↔ k = key ∨ k ∈ entries.map Prod.fst := by
  induction entries with
  | nil => simp [putEntry]
  | cons e rest ih =>
    obtain ⟨k', v'⟩ := e
    by_cases h : k' = key
    -- the entry is replaced: the keys are the same
    · subst h; simp [putEntry]
    -- the entry stays, and the key is put further back
    · simp only [putEntry, if_neg h, List.map_cons, List.mem_cons, ih]
      grind

theorem nodup_putEntry {key : κ} {value : υ} {entries : List (κ × υ)}
    (h : (entries.map Prod.fst).Nodup) : ((putEntry key value entries).map Prod.fst).Nodup := by
  induction entries with
  | nil => simp [putEntry]
  | cons e rest ih =>
    obtain ⟨k', v'⟩ := e
    rw [List.map_cons, List.nodup_cons] at h
    by_cases hk : k' = key
    · subst hk; simpa [putEntry] using h
    · simp only [putEntry, if_neg hk, List.map_cons, List.nodup_cons]
      -- the first key is neither the new one nor one of the others
      refine ⟨fun hm => ?_, ih h.2⟩
      rcases mem_keys_putEntry.mp hm with rfl | hm
      · exact hk rfl
      · exact h.1 hm

/-- The value under a key. -/
def get? (d : Dict κ υ) (key : κ) : Option υ := find? key d.entries

/-- Whether there is a value under a key. -/
def contains (d : Dict κ υ) (key : κ) : Bool := (d.get? key).isSome

/-- Puts a value under a key. -/
def put (d : Dict κ υ) (key : κ) (value : υ) : Dict κ υ :=
  ⟨putEntry key value d.entries, nodup_putEntry d.distinct⟩

/-- The dictionary without a key. -/
def erase (d : Dict κ υ) (key : κ) : Dict κ υ := d.filter fun k _ => decide (k ≠ key)

/-- The dictionary of a list of entries, of which the last one of each key counts. -/
def ofList (entries : List (κ × υ)) : Dict κ υ := entries.foldl (fun d e => d.put e.1 e.2) empty

/-! ## Look-ups -/

@[simp] theorem get?_empty (key : κ) : (empty : Dict κ υ).get? key = none := rfl

theorem get?_put (d : Dict κ υ) (key k : κ) (value : υ) :
    (d.put key value).get? k = if k = key then some value else d.get? k := by
  simp only [get?, put]
  induction d.entries with
  | nil => simp only [putEntry, find?]; grind
  | cons e rest ih =>
    obtain ⟨k', v'⟩ := e
    by_cases h : k' = key
    · subst h; simp only [putEntry, if_pos, find?]; grind
    · simp only [putEntry, if_neg h, find?, ih]; grind

/-- What is found after a value has been put is this value, or was there under another key. -/
theorem get?_put_eq_some_iff (d : Dict κ υ) {key k : κ} {value v : υ} :
    (d.put key value).get? k = some v ↔ key = k ∧ value = v ∨ key ≠ k ∧ d.get? k = some v := by
  rw [get?_put]
  by_cases hk : key = k
  · simp [hk]
  · simp [hk, Ne.symm hk]

theorem get?_erase (d : Dict κ υ) (key k : κ) :
    (d.erase key).get? k = if k = key then none else d.get? k := by
  simp only [get?, erase, filter]
  induction d.entries with
  | nil => simp [find?]
  | cons e rest ih =>
    obtain ⟨k', v'⟩ := e
    by_cases h : k' = key
    · subst h; simp only [List.filter_cons, find?]; grind
    · simp only [List.filter_cons, find?, h, ih, ne_eq, not_false_eq_true, decide_true, if_true]
      grind

theorem get?_mapValues {υ' : Type} (d : Dict κ υ) (f : υ → υ') (key : κ) :
    (d.mapValues f).get? key = (d.get? key).map f := by
  simp only [get?, mapValues]
  induction d.entries with
  | nil => rfl
  | cons e rest ih =>
    simp only [List.map_cons, find?, ih]
    split <;> rfl

theorem mem_keys_iff (d : Dict κ υ) (key : κ) : key ∈ d.keys ↔ (d.get? key).isSome := by
  simp only [keys, get?]
  induction d.entries with
  | nil => simp [find?]
  | cons e rest ih =>
    obtain ⟨k', v'⟩ := e
    simp only [List.map_cons, List.mem_cons, find?]
    grind

/-- The entries are what is found. -/
theorem mem_entries_iff (d : Dict κ υ) (key : κ) (value : υ) :
    (key, value) ∈ d.entries ↔ d.get? key = some value := by
  obtain ⟨entries, hdistinct⟩ := d
  simp only [get?]
  induction entries with
  | nil => simp [find?]
  | cons e rest ih =>
    obtain ⟨k, v⟩ := e
    rw [List.map_cons, List.nodup_cons] at hdistinct
    obtain ⟨hfirst, hrest⟩ := hdistinct
    simp only [List.mem_cons, ih hrest, find?, Prod.mk.injEq]
    by_cases hk : k = key
    -- the first entry has the key, and no other has it
    · subst hk
      have hnone : find? k rest ≠ some value := fun h =>
        hfirst (List.mem_map.mpr ⟨(k, value), (ih hrest).mpr h, rfl⟩)
      simp [hnone, eq_comm]
    · simp [hk, Ne.symm hk]

theorem get?_filter (d : Dict κ υ) (p : κ → υ → Bool) (key : κ) :
    (d.filter p).get? key = (d.get? key).filter (p key) := by
  ext value
  rw [← mem_entries_iff, Option.filter_eq_some_iff, ← mem_entries_iff, filter, List.mem_filter]

/-! ## Entries put one after another -/

theorem mem_of_find? {key : κ} {value : υ} {entries : List (κ × υ)}
    (h : find? key entries = some value) : (key, value) ∈ entries := by
  induction entries with
  | nil => cases h
  | cons e rest ih =>
    obtain ⟨k, v⟩ := e
    rw [find?] at h
    split at h
    · next hk =>
      cases h
      exact hk ▸ List.mem_cons_self
    · exact List.mem_cons_of_mem _ (ih h)

theorem find?_append (key : κ) (entries entries' : List (κ × υ)) :
    find? key (entries ++ entries') = (find? key entries).or (find? key entries') := by
  induction entries with
  | nil => rfl
  | cons e rest ih =>
    simp only [List.cons_append, find?, ih]
    split <;> rfl

/-- Of entries that are put one after another, the last one of a key counts. -/
theorem get?_foldl_put (d : Dict κ υ) (entries : List (κ × υ)) (key : κ) :
    (entries.foldl (fun d e => d.put e.1 e.2) d).get? key =
      (find? key entries.reverse).or (d.get? key) := by
  induction entries generalizing d with
  | nil => rfl
  | cons e rest ih =>
    rw [List.foldl_cons, ih, List.reverse_cons, find?_append, Option.or_assoc, get?_put]
    congr 1
    simp only [find?, eq_comm]
    split <;> rfl

/-- Among entries with distinct keys every one counts. -/
theorem find?_reverse_eq_some_iff {entries : List (κ × υ)} (h : (entries.map Prod.fst).Nodup)
    {key : κ} {value : υ} : find? key entries.reverse = some value ↔ (key, value) ∈ entries := by
  have hdistinct : (entries.reverse.map Prod.fst).Nodup := by
    rw [List.map_reverse]
    exact List.pairwise_reverse.mpr (h.imp Ne.symm)
  rw [← List.mem_reverse]
  exact (mem_entries_iff ⟨entries.reverse, hdistinct⟩ key value).symm

theorem get?_ofList_eq_some_iff {entries : List (κ × υ)} (h : (entries.map Prod.fst).Nodup)
    {key : κ} {value : υ} : (ofList entries).get? key = some value ↔ (key, value) ∈ entries := by
  rw [ofList, get?_foldl_put, get?_empty, Option.or_none, find?_reverse_eq_some_iff h]

/-! ## Entries -/

/-- An entry with a new key comes last. -/
theorem entries_put (d : Dict κ υ) {key : κ} (value : υ) (hnew : d.get? key = none) :
    (d.put key value).entries = d.entries ++ [(key, value)] := by
  obtain ⟨entries, hdistinct⟩ := d
  simp only [get?, put] at hnew ⊢
  clear hdistinct
  induction entries with
  | nil => rfl
  | cons e rest ih =>
    obtain ⟨k, v⟩ := e
    simp only [find?] at hnew
    split at hnew
    · cases hnew
    · next hk => rw [putEntry, if_neg hk, ih hnew, List.cons_append]

end Dict

end Signpost

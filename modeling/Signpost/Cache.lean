import Signpost.Dict

/-!
# Caches

A cache keeps values by key and, apart from them, the keys that it knows, so that questions about
keys do not touch values.  Every operation changes both together.

## Main definitions

* `Cache`, `Cache.get?`, `Cache.getMany`, `Cache.keys`, `Cache.contains`
* `Cache.put`, `Cache.remove`, `Cache.evictWhere`, `Cache.clear`

## Main results

* `Cache.get?_putOne`, `Cache.get?_put`, `Cache.get?_remove`, `Cache.get?_evictWhere`: what the
  operations do to look-ups.
* `Cache.mem_remove`, `Cache.mem_evictWhere`, `Cache.contains_evictWhere`: the keys that are removed
  or evicted.
* `Cache.mem_firsts`, `Cache.nodup_firsts`
-/

namespace Signpost

/-- Values by key, and the known keys. -/
structure Cache (κ υ : Type) where
  values : Dict κ υ
  known : List κ

namespace Cache

variable {κ υ : Type}

/-- The cache that knows nothing. -/
def empty : Cache κ υ := ⟨.empty, []⟩

instance : Inhabited (Cache κ υ) := ⟨empty⟩

/-- The known keys. -/
def keys (c : Cache κ υ) : List κ := c.known

/-- The number of values. -/
def size (c : Cache κ υ) : Nat := c.values.size

/-- Whether there are no values. -/
def isEmpty (c : Cache κ υ) : Bool := c.values.entries.isEmpty

/-- The values that satisfy a condition. -/
def select (c : Cache κ υ) (p : υ → Bool) : List υ := c.values.values.filter p

/-- Some value that satisfies a condition. -/
def find? (c : Cache κ υ) (p : υ → Bool) : Option υ := c.values.values.find? p

variable [DecidableEq κ]

/-- The value under a key. -/
def get? (c : Cache κ υ) (key : κ) : Option υ := c.values.get? key

/-- Whether a key is known. -/
def contains (c : Cache κ υ) (key : κ) : Bool := c.known.contains key

/-- The distinct keys of a list, each at its first place, those in `seen` left out. -/
def firsts (seen : List κ) : List κ → List κ
  | [] => []
  | key :: rest => if key ∈ seen then firsts seen rest else key :: firsts (key :: seen) rest

theorem mem_firsts {seen keys : List κ} {key : κ} :
    key ∈ firsts seen keys ↔ key ∈ keys ∧ key ∉ seen := by
  induction keys generalizing seen with
  | nil => simp [firsts]
  | cons k rest ih =>
    by_cases hk : k ∈ seen
    · rw [firsts, if_pos hk, ih, List.mem_cons]
      grind
    · rw [firsts, if_neg hk, List.mem_cons, ih, List.mem_cons, List.mem_cons]
      grind

theorem nodup_firsts (seen keys : List κ) : (firsts seen keys).Nodup := by
  induction keys generalizing seen with
  | nil => exact List.nodup_nil
  | cons k rest ih =>
    rw [firsts]
    split
    · exact ih seen
    · refine List.nodup_cons.mpr ⟨fun hmem => ?_, ih (k :: seen)⟩
      exact (mem_firsts.mp hmem).2 List.mem_cons_self

/-- The values of the requested keys that are known, each key once, in the order of the request. -/
def getMany (c : Cache κ υ) (keys : List κ) : List υ := (firsts [] keys).filterMap c.get?

/-- Puts one value under a key. -/
def putOne (c : Cache κ υ) (key : κ) (value : υ) : Cache κ υ :=
  ⟨c.values.put key value, c.known.insert key⟩

theorem get?_putOne (c : Cache κ υ) (key k : κ) (value : υ) :
    (c.putOne key value).get? k = if k = key then some value else c.get? k :=
  Dict.get?_put c.values key k value

/-- Puts values under their keys, one after another. -/
def put (c : Cache κ υ) (items : List (κ × υ)) : Cache κ υ :=
  items.foldl (fun c item => c.putOne item.1 item.2) c

theorem values_put (c : Cache κ υ) (items : List (κ × υ)) :
    (c.put items).values = items.foldl (fun d e => d.put e.1 e.2) c.values := by
  unfold put
  induction items generalizing c with
  | nil => rfl
  | cons item rest ih => exact ih _

/-- What is found after items have been put is one of them, or was there. -/
theorem get?_put (c : Cache κ υ) (items : List (κ × υ)) (key : κ) :
    (c.put items).get? key = (Dict.find? key items.reverse).or (c.get? key) := by
  rw [get?, values_put]
  exact Dict.get?_foldl_put c.values items key

/-- The cache of a list of items, of which the last one of each key counts. -/
def ofList (items : List (κ × υ)) : Cache κ υ := empty.put items

/-- Removes keys; says which of them were there, in the order of the request. -/
def remove (c : Cache κ υ) : List κ → Cache κ υ × List κ
  | [] => (c, [])
  | key :: rest =>
    match c.get? key with
    | none => c.remove rest
    | some _ =>
      let (c, removed) := remove ⟨c.values.erase key, c.known.erase key⟩ rest
      (c, key :: removed)

theorem get?_erase (c : Cache κ υ) (known : List κ) (key k : κ) :
    get? ⟨c.values.erase key, known⟩ k = if k = key then none else c.get? k :=
  Dict.get?_erase c.values key k

theorem get?_remove (c : Cache κ υ) (keys : List κ) (key : κ) :
    (c.remove keys).1.get? key = if key ∈ keys then none else c.get? key := by
  induction keys generalizing c with
  | nil => rfl
  | cons k rest ih =>
    rw [remove]
    split
    -- an unknown key is not found before and after
    · simp only [ih, List.mem_cons]
      grind
    · simp only [ih, get?_erase, List.mem_cons]
      grind

/-- The keys that are removed are the requested ones that have an entry. -/
theorem mem_remove (c : Cache κ υ) (keys : List κ) (key : κ) :
    key ∈ (c.remove keys).2 ↔ key ∈ keys ∧ (c.get? key).isSome = true := by
  induction keys generalizing c with
  | nil => simp [remove]
  | cons k rest ih =>
    rw [remove]
    split
    · simp only [ih, List.mem_cons]
      grind
    · simp only [ih, get?_erase, List.mem_cons]
      grind

theorem nodup_remove (c : Cache κ υ) (keys : List κ) : (c.remove keys).2.Nodup := by
  induction keys generalizing c with
  | nil => exact List.nodup_nil
  | cons k rest ih =>
    rw [remove]
    split
    · exact ih c
    -- what has been removed is not there any more when it is requested again
    · refine List.nodup_cons.mpr ⟨fun hmem => ?_, ih _⟩
      have hthere := ((mem_remove _ rest k).mp hmem).2
      rw [get?_erase, if_pos rfl] at hthere
      cases hthere

/-- Evicts the entries that satisfy a condition; says which keys they had. -/
def evictWhere (c : Cache κ υ) (evict : κ → υ → Bool) : Cache κ υ × List κ :=
  let evicted := (c.values.filter evict).keys
  (⟨c.values.filter fun k v => !evict k v, c.known.filter fun k => k ∉ evicted⟩, evicted)

theorem get?_evictWhere (c : Cache κ υ) (evict : κ → υ → Bool) (key : κ) :
    (c.evictWhere evict).1.get? key = (c.get? key).filter fun v => !evict key v :=
  Dict.get?_filter c.values _ key

/-- The keys that are evicted are those of entries that satisfy the condition. -/
theorem mem_evictWhere (c : Cache κ υ) (evict : κ → υ → Bool) (key : κ) :
    key ∈ (c.evictWhere evict).2 ↔ ∃ value, c.get? key = some value ∧ evict key value = true := by
  rw [evictWhere, Dict.mem_keys_iff, Dict.get?_filter, get?]
  cases c.values.get? key with
  | none => simp
  | some value => cases h : evict key value <;> simp [Option.filter, h]

theorem nodup_evictWhere (c : Cache κ υ) (evict : κ → υ → Bool) : (c.evictWhere evict).2.Nodup :=
  (c.values.filter evict).distinct

/-- A key is forgotten together with its entry. -/
theorem contains_evictWhere (c : Cache κ υ) (evict : κ → υ → Bool) (key : κ) :
    (c.evictWhere evict).1.contains key = true ↔
      c.contains key = true ∧ key ∉ (c.evictWhere evict).2 := by
  simp [contains, evictWhere]

/-- Where no entry satisfies the condition, nothing is evicted. -/
theorem evictWhere_of_kept (c : Cache κ υ) {evict : κ → υ → Bool}
    (h : ∀ key value, c.get? key = some value → evict key value = false) :
    c.evictWhere evict = (c, []) := by
  have hevicted : (c.values.filter evict).keys = [] := by
    refine List.eq_nil_iff_forall_not_mem.mpr fun key hmem => ?_
    obtain ⟨value, hget, hevict⟩ := (c.mem_evictWhere evict key).mp hmem
    rw [h key value hget] at hevict
    cases hevict
  have hkept : (c.values.filter fun k v => !evict k v) = c.values := by
    rw [Dict.filter, Dict.mk.injEq, List.filter_eq_self]
    intro e he
    rw [h e.1 e.2 ((c.values.mem_entries_iff e.1 e.2).mp he), Bool.not_false]
  have hknown : (c.known.filter fun k => decide (k ∉ ([] : List κ))) = c.known :=
    List.filter_eq_self.mpr fun k _ => by simp
  rw [evictWhere, hevicted, hkept, hknown]

/-- Forgets everything. -/
def clear (_ : Cache κ υ) : Cache κ υ := empty

@[simp] theorem get?_clear (c : Cache κ υ) (key : κ) : c.clear.get? key = none := rfl

theorem mem_values_iff (c : Cache κ υ) (value : υ) :
    value ∈ c.values.values ↔ ∃ key, c.get? key = some value := by
  unfold Dict.values
  rw [List.mem_map]
  constructor
  · rintro ⟨⟨key, v⟩, hmem, rfl⟩
    exact ⟨key, (c.values.mem_entries_iff key v).mp hmem⟩
  · rintro ⟨key, hget⟩
    exact ⟨(key, value), (c.values.mem_entries_iff key value).mpr hget, rfl⟩

end Cache

end Signpost

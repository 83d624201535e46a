import Mathlib.Data.List.Nodup
import Signpost.Cache
import Signpost.Proofs.Prevails

/-!
# Caches after any operations

A cache has its keys twice, with the values and apart from them, and every operation maintains the
two by itself.  Whatever is done to a cache that was empty, they are the same keys, so that it is a
finite map: it has the value that was put last under a key, unless the key was removed since.  What
is removed or evicted is told by its keys, and everything else stays.

## Main definitions

* `Cache.Operation`, `Cache.after`: what is done to a cache.
* `Cache.InStep`: the known keys are the keys of the values.
* `Cache.Takes`: entries of some sort are taken out of a cache.

## Main results

* `Cache.get?_perform_iff`: what one operation does to look-ups.
* `Cache.inStep_after`, `Cache.get?_after_iff`: a cache after any operations.
* `Cache.InStep.takes_remove`, `Cache.InStep.takes_evictWhere`: what is removed and evicted.
* `Cache.InStep.exists_requested`: what several keys are answered with.
* `Cache.is_finite_map`
-/

namespace Signpost.Cache

/-! ## Operations -/

/-- What is done to a cache.  A condition for eviction is asked once of each entry, so that one that
keeps an account of what it has been asked is, as far as it goes, a condition on entries as well. -/
inductive Operation (κ υ : Type) where
  | put (items : List (κ × υ))
  | remove (keys : List κ)
  | evictWhere (evict : κ → υ → Bool)
  | clear

variable {κ υ : Type}

namespace Operation

variable (key : κ) (value : υ)

/-- The operation puts a value under a key: this is the last of its items with the key. -/
def Puts : Operation κ υ → Prop
  | .put items => Prevails (· = (key, value)) (·.1 ≠ key) items
  | .remove _ | .evictWhere _ | .clear => False

/-- The operation leaves a value under a key. -/
def Spares : Operation κ υ → Prop
  | .put items => ∀ item ∈ items, item.1 ≠ key
  | .remove keys => key ∉ keys
  | .evictWhere evict => evict key value = false
  | .clear => False

end Operation

variable [DecidableEq κ] {c : Cache κ υ} {key : κ} {value : υ}

/-- The cache after an operation. -/
def perform (c : Cache κ υ) : Operation κ υ → Cache κ υ
  | .put items => c.put items
  | .remove keys => (c.remove keys).1
  | .evictWhere evict => (c.evictWhere evict).1
  | .clear => c.clear

/-- The cache after some operations, which was empty before. -/
def after (operations : List (Operation κ υ)) : Cache κ υ := operations.foldl perform empty

theorem get?_putOne_iff (c : Cache κ υ) (item : κ × υ) :
    (c.putOne item.1 item.2).get? key = some value ↔
      item = (key, value) ∨ item.1 ≠ key ∧ c.get? key = some value := by
  rw [Prod.ext_iff]
  exact c.values.get?_put_eq_some_iff

/-- **What one operation does to look-ups**: a value is found if it has just been put, or was found
before and has been spared. -/
theorem get?_perform_iff (c : Cache κ υ) (operation : Operation κ υ) :
    (c.perform operation).get? key = some value ↔
      operation.Puts key value ∨ operation.Spares key value ∧ c.get? key = some value := by
  cases operation with
  | put items =>
    exact foldl_iff_prevails (P := fun c => c.get? key = some value) get?_putOne_iff c items
  | remove keys =>
    rw [perform, get?_remove, Operation.Puts, false_or, Operation.Spares]
    split
    · next hmem => simp [hmem]
    · next hmem => simp [hmem]
  | evictWhere evict =>
    rw [perform, get?_evictWhere, Option.filter_eq_some_iff, Bool.not_eq_true', Operation.Puts,
      false_or, Operation.Spares, and_comm]
  | clear => simp [perform, Operation.Puts, Operation.Spares]

/-- **The last write wins**: after any operations a cache has the values that have been put and
spared since. -/
theorem get?_after_iff (operations : List (Operation κ υ)) :
    (after operations).get? key = some value ↔
      Prevails (·.Puts key value) (·.Spares key value) operations := by
  have hempty : ¬ (empty : Cache κ υ).get? key = some value := nofun
  exact foldl_iff_prevails_of_not (P := fun c : Cache κ υ => c.get? key = some value)
    get?_perform_iff hempty operations

/-! ## Keys beside values -/

/-- The known keys are the keys of the values, each once. -/
structure InStep (c : Cache κ υ) : Prop where
  nodup : c.keys.Nodup
  mem_keys_iff : ∀ key, key ∈ c.keys ↔ (c.get? key).isSome = true

theorem inStep_empty : (empty : Cache κ υ).InStep :=
  ⟨List.nodup_nil, fun _ => iff_of_false List.not_mem_nil Bool.false_ne_true⟩

namespace InStep

theorem contains_iff (h : c.InStep) (key : κ) :
    c.contains key = true ↔ (c.get? key).isSome = true :=
  List.contains_iff_mem.trans (h.mem_keys_iff key)

theorem perm_keys (h : c.InStep) : c.keys.Perm c.values.keys := by
  apply (List.perm_ext_iff_of_nodup h.nodup c.values.distinct).mpr
  intro key
  exact (h.mem_keys_iff key).trans (c.values.mem_keys_iff key).symm

theorem length_keys (h : c.InStep) : c.keys.length = c.size := by
  rw [h.perm_keys.length_eq, Dict.keys, List.length_map, size, Dict.size]

theorem putOne (h : c.InStep) (key : κ) (value : υ) : (c.putOne key value).InStep := by
  refine ⟨h.nodup.insert, fun k => ?_⟩
  rw [get?_putOne]
  show k ∈ c.keys.insert key ↔ _
  rw [List.mem_insert_iff, h.mem_keys_iff]
  split
  · next hk => simp [hk]
  · next hk => simp [hk]

theorem put (h : c.InStep) (items : List (κ × υ)) : (c.put items).InStep :=
  List.foldlRecOn items _ h fun _ h item _ => h.putOne item.1 item.2

theorem erase (h : c.InStep) (key : κ) :
    InStep ⟨c.values.erase key, c.known.erase key⟩ := by
  refine ⟨h.nodup.erase key, fun k => ?_⟩
  rw [get?_erase]
  show k ∈ c.keys.erase key ↔ _
  rw [h.nodup.mem_erase_iff, h.mem_keys_iff]
  split
  · next hk => simp [hk]
  · next hk => simp [hk]

theorem remove (h : c.InStep) (keys : List κ) : (c.remove keys).1.InStep := by
  induction keys generalizing c with
  | nil => exact h
  | cons key rest ih =>
    rw [Cache.remove]
    split
    · exact ih h
    · exact ih (h.erase key)

theorem evictWhere (h : c.InStep) (evict : κ → υ → Bool) : (c.evictWhere evict).1.InStep := by
  refine ⟨h.nodup.filter _, fun key => ?_⟩
  have hcontains := c.contains_evictWhere evict key
  rw [h.contains_iff, mem_evictWhere] at hcontains
  refine (List.contains_iff_mem.symm.trans hcontains).trans ?_
  -- of an entry that was there it is asked whether it has been evicted
  rw [get?_evictWhere]
  cases c.get? key with
  | none => simp
  | some value => cases hevict : evict key value <;> simp [Option.filter, hevict]

theorem perform (h : c.InStep) (operation : Operation κ υ) : (c.perform operation).InStep := by
  cases operation with
  | put items => exact h.put items
  | remove keys => exact h.remove keys
  | evictWhere evict => exact h.evictWhere evict
  | clear => exact inStep_empty

end InStep

/-- **Keys and values never drift apart**, whatever is done to a cache. -/
theorem inStep_after (operations : List (Operation κ υ)) : (after operations).InStep :=
  List.foldlRecOn operations _ inStep_empty fun _ h operation _ => h.perform operation

/-! ## What is taken out -/

/-- The entries of some sort are taken out of a cache, which leaves another cache and tells the
keys: the keys told are those that were known and are not any more, each once, and under every other
key there is what was there before. -/
structure Takes (c : Cache κ υ) (p : κ → υ → Prop) (result : Cache κ υ × List κ) : Prop where
  nodup : result.2.Nodup
  mem_iff : ∀ key, key ∈ result.2 ↔ ∃ value, c.get? key = some value ∧ p key value
  mem_iff_gone : ∀ key, key ∈ result.2 ↔ c.contains key = true ∧ result.1.contains key = false
  get?_eq : ∀ key, key ∉ result.2 → result.1.get? key = c.get? key

namespace InStep

/-- It is enough to say which values are left, as the keys are in step. -/
theorem takes {p : κ → υ → Prop} {result : Cache κ υ × List κ} (h : c.InStep)
    (h' : result.1.InStep) (hnodup : result.2.Nodup)
    (hmem : ∀ key, key ∈ result.2 ↔ ∃ value, c.get? key = some value ∧ p key value)
    (hleft : ∀ key value, result.1.get? key = some value ↔
      ¬ p key value ∧ c.get? key = some value) : c.Takes p result where
  nodup := hnodup
  mem_iff := hmem
  mem_iff_gone key := by
    rw [hmem, h.contains_iff, Bool.eq_false_iff, ne_eq, h'.contains_iff, Option.isSome_iff_exists,
      Option.isSome_iff_exists]
    constructor
    · rintro ⟨value, hvalue, hp⟩
      refine ⟨⟨value, hvalue⟩, ?_⟩
      rintro ⟨left, hleft'⟩
      obtain ⟨hnot, hold⟩ := (hleft key left).mp hleft'
      obtain rfl := Option.some.inj (hvalue.symm.trans hold)
      exact hnot hp
    · rintro ⟨⟨value, hvalue⟩, hgone⟩
      refine ⟨value, hvalue, ?_⟩
      by_contra hnot
      exact hgone ⟨value, (hleft key value).mpr ⟨hnot, hvalue⟩⟩
  get?_eq key hkept := by
    ext value
    rw [hleft, and_iff_right_iff_imp]
    intro hvalue hp
    exact hkept ((hmem key).mpr ⟨value, hvalue, hp⟩)

theorem takes_remove (h : c.InStep) (keys : List κ) :
    c.Takes (fun key _ => key ∈ keys) (c.remove keys) := by
  refine h.takes (h.remove keys) (c.nodup_remove keys) (fun key => ?_) fun key value => ?_
  · rw [mem_remove, Option.isSome_iff_exists, exists_and_right, and_comm]
  · exact (c.get?_perform_iff (.remove keys)).trans (or_iff_right id)

theorem takes_evictWhere (h : c.InStep) (evict : κ → υ → Bool) :
    c.Takes (fun key value => evict key value = true) (c.evictWhere evict) := by
  refine h.takes (h.evictWhere evict) (c.nodup_evictWhere evict) (c.mem_evictWhere evict)
    fun key value => ?_
  rw [Bool.not_eq_true]
  exact (c.get?_perform_iff (.evictWhere evict)).trans (or_iff_right id)

end InStep

/-! ## Several keys -/

/-- Distinct keys come in the order of their first places. -/
theorem pairwise_firsts (seen requested : List κ) :
    (firsts seen requested).Pairwise fun k l => requested.idxOf k < requested.idxOf l := by
  induction requested generalizing seen with
  | nil => exact .nil
  | cons key rest ih =>
    -- keys other than the first one come in the order that they have in the rest
    have hrest : ∀ seen, key ∈ seen →
        (firsts seen rest).Pairwise fun k l => (key :: rest).idxOf k < (key :: rest).idxOf l := by
      intro seen hseen
      refine (ih seen).imp_of_mem fun {k l} hk hl hlt => ?_
      have hne : ∀ k ∈ firsts seen rest, key ≠ k := by
        rintro _ hk rfl
        exact (mem_firsts.mp hk).2 hseen
      rw [List.idxOf_cons_ne rest (hne k hk), List.idxOf_cons_ne rest (hne l hl)]
      exact Nat.succ_lt_succ hlt
    rw [firsts]
    split
    · next hseen => exact hrest seen hseen
    · refine List.pairwise_cons.mpr ⟨fun l hl => ?_, hrest _ List.mem_cons_self⟩
      have hne : key ≠ l := by
        rintro rfl
        exact (mem_firsts.mp hl).2 List.mem_cons_self
      rw [List.idxOf_cons_self, List.idxOf_cons_ne rest hne]
      exact Nat.succ_pos _

/-- **Several keys are answered with one value for each known one**, in the order in which they are
first requested. -/
theorem InStep.exists_requested (h : c.InStep) (requested : List κ) : ∃ keys : List κ,
    keys.Pairwise (fun k l => requested.idxOf k < requested.idxOf l) ∧
      (∀ key, key ∈ keys ↔ key ∈ requested ∧ c.contains key = true) ∧
      (c.getMany requested).map some = keys.map c.get? := by
  refine ⟨(firsts [] requested).filter c.contains, (pairwise_firsts [] requested).filter _, ?_, ?_⟩
  · intro key
    rw [List.mem_filter, mem_firsts, and_iff_left List.not_mem_nil]
  · have hcontains : c.contains = Option.isSome ∘ c.get? :=
      funext fun key => Bool.eq_iff_iff.mpr (h.contains_iff key)
    rw [getMany, List.map_filterMap_some_eq_filter_map_isSome, List.filter_map, hcontains]

/-- **A cache is a finite map**, whatever has been done to it.  The keys that it knows are those of
its values, each once and as many as there are values; under every key there is what was put last
and spared since; what is removed or evicted is told by its keys, each once, and everything else
stays; and several keys are answered with one value for each distinct known one, in the order in
which they are first requested. -/
theorem is_finite_map (operations : List (Operation κ υ)) :
    ((after operations).keys.Nodup ∧
      (∀ key, key ∈ (after operations).keys ↔ key ∈ (after operations).values.keys) ∧
      (after operations).keys.length = (after operations).size ∧
      ∀ key, (after operations).contains key = true ↔
        ((after operations).get? key).isSome = true) ∧
    (∀ key value, (after operations).get? key = some value ↔
      Prevails (·.Puts key value) (·.Spares key value) operations) ∧
    (∀ keys, (after operations).Takes (fun key _ => key ∈ keys)
      ((after operations).remove keys)) ∧
    (∀ evict, (after operations).Takes (fun key value => evict key value = true)
      ((after operations).evictWhere evict)) ∧
    ∀ requested, ∃ keys : List κ,
      keys.Pairwise (fun k l => requested.idxOf k < requested.idxOf l) ∧
        (∀ key, key ∈ keys ↔ key ∈ requested ∧ (after operations).contains key = true) ∧
        ((after operations).getMany requested).map some = keys.map (after operations).get? := by
  have h := inStep_after operations
  refine ⟨⟨h.nodup, fun key => h.perm_keys.mem_iff, h.length_keys, h.contains_iff⟩, ?_, ?_⟩
  · exact fun key value => get?_after_iff operations
  · exact ⟨h.takes_remove, h.takes_evictWhere, h.exists_requested⟩

/-- A key that is put twice has the second value, and one that is removed twice is told once. -/
example : ((after [.put [(1, 'a'), (2, 'b'), (1, 'c')]]).getMany [3, 1, 2, 1] = ['c', 'b']) ∧
    ((after [.put [(1, 'a'), (2, 'b')]]).remove [2, 3, 2]).2 = [2] := by
  decide

end Signpost.Cache

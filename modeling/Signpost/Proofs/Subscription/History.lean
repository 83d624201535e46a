import Mathlib.Data.List.Nodup
import Signpost.Proofs.Subscription.Roster

/-!
# Rosters over their calls

A roster is restored from a list of stored subscriptions, none for a new one, and after that
subscriptions come and go.  It carries the entries of the list and those that came since, in that
order, less those that went.  That is so for every list, also one in which an identifier is
repeated: then the roster lists the identifier as often, and the last entry stands for all of them.

## Main definitions

* `Roster.Change`, `Roster.entriesAfter`: the entries that are left after some calls.
* `Roster.Run`: a roster with the calls that have been made since it was restored.
* `Roster.Carries`: a roster lists entries.

## Main results

* `Roster.Carries.insert`, `Roster.Carries.unsubscribe`: what one call does to the entries.
* `Roster.Run.carries`: every roster carries the entries that are left.
* `Roster.Carries.subscribers_eq`: the subscribers are the entries if those are distinct.
* `Roster.count_entriesAfter`, `Roster.nodup_entriesAfter`: how often an identifier is listed.
-/

namespace Signpost.Roster

open Delivery (Category Target)

variable {r : Roster} {entries restored : List Subscription} {s : Subscription} {id : Uuid}
  {timeout : Nat}

/-! ## Calls -/

/-- What a call has done to the subscriptions. -/
inductive Change where
  | joined (s : Subscription)
  | left (id : Uuid)
deriving DecidableEq

/-- The entries that are left of a list after some changes, the last change first. -/
def entriesAfter (restored : List Subscription) : List Change → List Subscription
  | [] => restored
  | .joined s :: past => entriesAfter restored past ++ [s]
  | .left id :: past => (entriesAfter restored past).filter fun s => decide (s.id ≠ id)

/-- The identifiers that have been drawn for new subscriptions. -/
def drawnIn : List Change → List Uuid
  | [] => []
  | .joined s :: past => s.id :: drawnIn past
  | .left _ :: past => drawnIn past

/-- A roster that was restored from a list, after some calls; the last call is first. -/
inductive Run (restored : List Subscription) (timeout : Nat) : Roster → List Change → Prop
  | restore : Run restored timeout (.restore restored timeout) []
  | subscribe {r : Roster} {past : List Change} (h : Run restored timeout r past)
      (category : Category) (target : Target) (mint : Mint) :
      Run restored timeout (r.subscribe category target mint).1.1
        (.joined ⟨mint.fresh.1, category, target⟩ :: past)
  | unsubscribe {r : Roster} {past : List Change} (h : Run restored timeout r past) (id : Uuid) :
      Run restored timeout (r.unsubscribe id).1 (.left id :: past)

/-! ## Entries -/

/-- A roster lists the identifiers of entries in their order, and has the last entry of each of
them.  There is one category, so every entry is listed under it. -/
structure Carries (r : Roster) (entries : List Subscription) : Prop where
  listed : ∀ c, r.listed c = entries.map Subscription.id
  get? : ∀ id, r.get? id = entries.reverse.find? fun s => decide (s.id = id)

theorem carries_empty (timeout : Nat) : (empty timeout).Carries [] := ⟨fun _ => rfl, fun _ => rfl⟩

namespace Carries

/-- A new entry comes last, whatever its identifier is. -/
theorem insert (h : r.Carries entries) (s : Subscription) :
    (r.insert s).Carries (entries ++ [s]) where
  listed c := by rw [listed_insert, h.listed, List.map_append, List.map_singleton]
  get? id := by
    -- the last entry is the first one that is found from behind
    rw [get?_insert, h.get?, List.reverse_append, List.reverse_singleton, List.singleton_append,
      List.find?_cons]
    by_cases hid : id = s.id
    · simp [hid]
    · simp [hid, Ne.symm hid]

theorem foldl_insert (h : r.Carries entries) (more : List Subscription) :
    (more.foldl Roster.insert r).Carries (entries ++ more) := by
  induction more generalizing r entries with
  | nil => simpa using h
  | cons s rest ih => simpa using ih (h.insert s)

/-- An identifier has a subscription exactly if an entry has it. -/
theorem get?_eq_none_iff (h : r.Carries entries) :
    r.get? id = none ↔ id ∉ entries.map Subscription.id := by
  rw [h.get?, List.find?_eq_none]
  simp [eq_comm]

/-- What stands for an identifier has it. -/
theorem id_of_get? (h : r.Carries entries) (hget : r.get? id = some s) : s.id = id := by
  rw [h.get?] at hget
  simpa using List.find?_some hget

/-- An identifier goes with all entries that have it. -/
theorem unsubscribe (h : r.Carries entries) (id : Uuid) :
    (r.unsubscribe id).1.Carries (entries.filter fun s => decide (s.id ≠ id)) := by
  cases hget : r.get? id with
  | none =>
    have hothers : ∀ s ∈ entries, decide (s.id ≠ id) = true := by
      intro s hs
      rw [decide_eq_true_eq]
      rintro rfl
      exact h.get?_eq_none_iff.mp hget (List.mem_map_of_mem hs)
    rw [unsubscribe_of_get?_eq_none hget, List.filter_eq_self.mpr hothers]
    exact h
  | some s =>
    constructor
    · intro c
      rw [listed_unsubscribe hget, h.listed, List.filter_map]
      rfl
    · intro other
      rw [get?_unsubscribe, h.get?, ← List.filter_reverse, List.find?_filter]
      by_cases hother : other = id
      · rw [if_pos hother, eq_comm, List.find?_eq_none]
        simp [hother]
      · rw [if_neg hother]
        congr 1
        funext s
        by_cases hs : s.id = other
        · simp [hs, hother]
        · simp [hs]

/-- An identifier that an entry has stands for an entry. -/
theorem exists_get? (h : r.Carries entries) (hs : s ∈ entries) :
    ∃ last ∈ entries, r.get? s.id = some last ∧ last.id = s.id := by
  cases hget : r.get? s.id with
  | none => exact absurd (List.mem_map_of_mem hs) (h.get?_eq_none_iff.mp hget)
  | some last =>
    have hmem := List.mem_of_find?_eq_some ((h.get? s.id).symm.trans hget)
    exact ⟨last, List.mem_reverse.mp hmem, rfl, h.id_of_get? hget⟩

/-- The subscribers have the identifiers of the entries, in their order and as often. -/
theorem map_id_subscribers (h : r.Carries entries) (c : Category) :
    (r.subscribers c).map Subscription.id = entries.map Subscription.id := by
  have hids : ∀ s ∈ entries, (r.get? s.id).map Subscription.id = some s.id := by
    intro s hs
    obtain ⟨last, -, hget, hid⟩ := h.exists_get? hs
    rw [hget, Option.map_some, hid]
  calc (r.subscribers c).map Subscription.id
      = entries.filterMap fun s => (r.get? s.id).map Subscription.id := by
        rw [subscribers, h.listed, List.map_filterMap, List.filterMap_map]
        rfl
    _ = entries.map Subscription.id := by
        rw [List.filterMap_congr hids]
        exact congrFun List.filterMap_eq_map entries

/-- The subscribers are the entries if no identifier is repeated. -/
theorem subscribers_eq (h : r.Carries entries)
    (hdistinct : (entries.map Subscription.id).Nodup) (c : Category) :
    r.subscribers c = entries := by
  have hown : ∀ s ∈ entries, r.get? s.id = some s := by
    intro s hs
    obtain ⟨last, hlast, hget, hid⟩ := h.exists_get? hs
    rw [hget, List.inj_on_of_nodup_map hdistinct hlast hs hid]
  calc r.subscribers c = entries.filterMap fun s => r.get? s.id := by
        rw [subscribers, h.listed, List.filterMap_map]
        rfl
    _ = entries := by rw [List.filterMap_congr hown, List.filterMap_some]

end Carries

/-- Every roster carries the entries that are left of those that were restored and those that came
since. -/
theorem Run.carries {past : List Change} (h : Run restored timeout r past) :
    r.Carries (entriesAfter restored past) := by
  induction h with
  | restore => exact (carries_empty timeout).foldl_insert restored
  | subscribe _ category target mint ih => exact ih.insert ⟨mint.fresh.1, category, target⟩
  | unsubscribe _ id ih => exact ih.unsubscribe id

theorem Run.timeout_eq {past : List Change} (h : Run restored timeout r past) :
    r.timeout = timeout := by
  induction h with
  | restore => exact timeout_restore restored timeout
  | subscribe _ category target mint ih => exact ih
  | unsubscribe _ id ih => rw [timeout_unsubscribe, ih]

/-! ## How often an identifier is listed -/

section Counts

variable {past : List Change}

theorem count_concat (entries : List Subscription) (s : Subscription) (id : Uuid) :
    ((entries ++ [s]).map Subscription.id).count id =
      (entries.map Subscription.id).count id + if s.id = id then 1 else 0 := by
  rw [List.map_append, List.count_append, List.map_singleton, List.count_singleton]
  simp

theorem count_without (entries : List Subscription) (gone id : Uuid) :
    ((entries.filter fun s => decide (s.id ≠ gone)).map Subscription.id).count id =
      if id = gone then 0 else (entries.map Subscription.id).count id := by
  -- what goes is told by the identifiers alone
  have hmap : (entries.filter fun s => decide (s.id ≠ gone)).map Subscription.id =
      (entries.map Subscription.id).filter fun other => decide (other ≠ gone) := by
    rw [List.filter_map]
    rfl
  rw [hmap]
  split
  · next hid => simp [hid, List.count_eq_zero]
  · next hid => rw [List.count_filter (by simpa using hid)]

/-- An identifier that was not drawn since is listed as often as it was restored, until it goes. -/
theorem count_entriesAfter (hold : id ∉ drawnIn past) :
    ((entriesAfter restored past).map Subscription.id).count id =
      if .left id ∈ past then 0 else (restored.map Subscription.id).count id := by
  induction past with
  | nil => simp [entriesAfter]
  | cons change past ih =>
    cases change with
    | joined s =>
      obtain ⟨hne, hold⟩ := not_or.mp (mt List.mem_cons.mpr hold)
      rw [entriesAfter, count_concat, if_neg (Ne.symm hne), ih hold]
      simp
    | left gone =>
      rw [entriesAfter, count_without, ih hold]
      by_cases hid : id = gone
      · simp [hid]
      · simp [hid]

/-- An identifier is listed at most as often as it was restored and drawn. -/
theorem count_entriesAfter_le (restored : List Subscription) (past : List Change) (id : Uuid) :
    ((entriesAfter restored past).map Subscription.id).count id ≤
      (restored.map Subscription.id).count id + (drawnIn past).count id := by
  induction past with
  | nil => simp [entriesAfter, drawnIn]
  | cons change past ih =>
    cases change with
    | joined s =>
      rw [entriesAfter, count_concat, drawnIn, List.count_cons]
      simp only [beq_iff_eq]
      omega
    | left gone =>
      rw [entriesAfter, count_without, drawnIn]
      split
      · exact Nat.zero_le _
      · exact ih

/-- If nothing is restored or drawn twice, then no identifier is listed twice. -/
theorem nodup_entriesAfter (hdistinct : (drawnIn past ++ restored.map Subscription.id).Nodup) :
    ((entriesAfter restored past).map Subscription.id).Nodup := by
  rw [List.nodup_iff_count_le_one] at hdistinct ⊢
  intro id
  have hle := hdistinct id
  rw [List.count_append] at hle
  have hcount := count_entriesAfter_le restored past id
  omega

end Counts

end Signpost.Roster

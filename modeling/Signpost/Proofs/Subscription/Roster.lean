import Mathlib.Data.List.Basic
import Signpost.Subscription.Roster

/-!
# What a roster lists

A roster has its subscriptions by identifier and lists the identifiers by category, of which there
is one so far.  In a well-formed roster the two agree, so that subscribing, unsubscribing and
restoring can be described by what they do to the list of all subscriptions.

## Main definitions

* `Roster.WellFormed`: every subscription is listed once, and nothing else is listed.

## Main results

* `Roster.WellFormed.all_insert`, `Roster.WellFormed.all_unsubscribe`: a new subscription comes
  last, and one that goes leaves the others in their order.
* `Roster.restore_all`: subscriptions are restored in their order.
* `Roster.WellFormed.all_insert_unsubscribe`, `Roster.WellFormed.restore_unsubscribe`: what becomes
  of changes that are taken back.
-/

namespace Signpost.Roster

open Delivery (Category)

variable {r : Roster} {s : Subscription} {id : Uuid} {c : Category}

/-! ## Look-ups -/

@[simp] theorem get?_empty (timeout : Nat) (id : Uuid) : (empty timeout).get? id = none := rfl

@[simp] theorem listed_empty (timeout : Nat) (c : Category) : (empty timeout).listed c = [] := rfl

@[simp] theorem all_empty (timeout : Nat) : (empty timeout).all = [] := rfl

theorem listed_insert (r : Roster) (s : Subscription) (c : Category) :
    (r.insert s).listed c = r.listed c ++ [s.id] := by
  have hc : c = s.category := rfl
  subst hc
  rw [listed, insert, Dict.get?_put, if_pos rfl, Option.getD_some]

theorem unsubscribe_of_get?_eq_none (hget : r.get? id = none) : r.unsubscribe id = (r, false) := by
  have hnone : r.subscriptions.get? id = none := hget
  rw [unsubscribe, hnone]

theorem get?_unsubscribe (r : Roster) (id other : Uuid) :
    (r.unsubscribe id).1.get? other = if other = id then none else r.get? other := by
  cases hget : r.get? id with
  | none =>
    rw [unsubscribe_of_get?_eq_none hget]
    split
    · next heq => rw [heq, hget]
    · rfl
  | some s =>
    have hfound : r.subscriptions.get? id = some s := hget
    rw [unsubscribe, hfound]
    exact Dict.get?_erase r.subscriptions id other

theorem listed_unsubscribe (hget : r.get? id = some s) (c : Category) :
    (r.unsubscribe id).1.listed c = (r.listed c).filter fun other => decide (other ≠ id) := by
  have hc : c = s.category := rfl
  subst hc
  have hfound : r.subscriptions.get? id = some s := hget
  rw [listed, listed, unsubscribe, hfound]
  dsimp only
  split
  · next hids => rw [hids, Option.getD_none, List.filter_nil]
  · next ids hids => rw [Dict.get?_put, if_pos rfl, hids, Option.getD_some, Option.getD_some]

theorem timeout_unsubscribe (r : Roster) (id : Uuid) :
    (r.unsubscribe id).1.timeout = r.timeout := by
  unfold unsubscribe
  split <;> rfl

/-- All subscriptions are of the one category. -/
theorem all_eq_subscribers (r : Roster) (c : Category) : r.all = r.subscribers c := by
  cases c
  unfold all subscribers listed
  obtain ⟨entries, hdistinct⟩ := r.byCategory
  match entries, hdistinct with
  | [], _ => rfl
  | [(.routeChange, ids)], _ => exact congrArg _ (List.append_nil ids)
  | (.routeChange, _) :: (.routeChange, _) :: _, hdistinct => simp at hdistinct

/-! ## Well-formed rosters -/

/-- Every subscription is listed once, and nothing else is listed. -/
structure WellFormed (r : Roster) : Prop where
  /-- A subscription is registered under its own identifier. -/
  keyed : ∀ {id s}, r.get? id = some s → s.id = id
  nodup : ∀ c, (r.listed c).Nodup
  mem_listed : ∀ {id c}, id ∈ r.listed c ↔ ∃ s, r.get? id = some s

theorem wellFormed_empty (timeout : Nat) : (empty timeout).WellFormed where
  keyed h := by simp at h
  nodup c := List.nodup_nil
  mem_listed := by simp

namespace WellFormed

theorem not_mem_listed (h : r.WellFormed) (hnew : r.get? id = none) (c : Category) :
    id ∉ r.listed c := fun hmem => by
  obtain ⟨s, hget⟩ := h.mem_listed.mp hmem
  rw [hnew] at hget
  cases hget

theorem insert (h : r.WellFormed) (hnew : r.get? s.id = none) : (r.insert s).WellFormed where
  keyed {id known} hget := by
    rw [get?_insert] at hget
    split at hget
    · next hid => cases hget; exact hid.symm
    · exact h.keyed hget
  nodup c := by
    rw [listed_insert]
    refine List.nodup_append.mpr ⟨h.nodup c, by simp, ?_⟩
    intro other hother known hknown heq
    rw [heq, List.mem_singleton.mp hknown] at hother
    exact h.not_mem_listed hnew c hother
  mem_listed {id c} := by
    rw [listed_insert, get?_insert, List.mem_append, List.mem_singleton, h.mem_listed]
    by_cases hid : id = s.id
    · simp [hid]
    · simp [hid]

theorem unsubscribe (h : r.WellFormed) (id : Uuid) : (r.unsubscribe id).1.WellFormed := by
  cases hget : r.get? id with
  | none =>
    rw [unsubscribe_of_get?_eq_none hget]
    exact h
  | some s =>
    constructor
    · intro other known hother
      rw [get?_unsubscribe] at hother
      split at hother
      · cases hother
      · exact h.keyed hother
    · intro c
      rw [listed_unsubscribe hget]
      exact (h.nodup c).sublist List.filter_sublist
    · intro other c
      rw [listed_unsubscribe hget, get?_unsubscribe, List.mem_filter, h.mem_listed]
      by_cases hid : other = id
      · simp [hid]
      · simp [hid]

/-! ## All subscriptions -/

theorem mem_all (h : r.WellFormed) : s ∈ r.all ↔ r.get? s.id = some s := by
  rw [r.all_eq_subscribers .routeChange, subscribers, List.mem_filterMap]
  constructor
  · rintro ⟨id, -, hget⟩
    rwa [h.keyed hget]
  · intro hget
    exact ⟨s.id, h.mem_listed.mpr ⟨s, hget⟩, hget⟩

/-- The identifiers of all subscriptions are those that are listed. -/
theorem map_id_all (h : r.WellFormed) (c : Category) :
    r.all.map Subscription.id = r.listed c := by
  rw [r.all_eq_subscribers c, subscribers, List.map_filterMap]
  have hsome : ∀ id ∈ r.listed c, (r.get? id).map Subscription.id = some id := by
    intro id hmem
    obtain ⟨s, hget⟩ := h.mem_listed.mp hmem
    rw [hget, Option.map_some, h.keyed hget]
  rw [List.filterMap_congr hsome, List.filterMap_some]

/-- No identifier occurs twice among the subscriptions. -/
theorem nodup_ids (h : r.WellFormed) : (r.all.map Subscription.id).Nodup := by
  rw [h.map_id_all .routeChange]
  exact h.nodup .routeChange

theorem get?_eq_none_iff (h : r.WellFormed) :
    r.get? id = none ↔ id ∉ r.all.map Subscription.id := by
  rw [h.map_id_all .routeChange, h.mem_listed, Option.eq_none_iff_forall_ne_some, not_exists]

/-- A new subscription comes last. -/
theorem all_insert (h : r.WellFormed) (hnew : r.get? s.id = none) :
    (r.insert s).all = r.all ++ [s] := by
  have hold : ∀ id ∈ r.listed .routeChange, (r.insert s).get? id = r.get? id := by
    intro id hmem
    have hne : id ≠ s.id := by
      rintro rfl
      exact h.not_mem_listed hnew _ hmem
    rw [get?_insert, if_neg hne]
  have hlast : [s.id].filterMap (r.insert s).get? = [s] := by simp [get?_insert]
  rw [all_eq_subscribers _ .routeChange, all_eq_subscribers _ .routeChange, subscribers,
    subscribers, listed_insert, List.filterMap_append, List.filterMap_congr hold, hlast]

/-- A subscription that goes leaves the others in their order. -/
theorem all_unsubscribe (h : r.WellFormed) (id : Uuid) :
    (r.unsubscribe id).1.all = r.all.filter fun s => decide (s.id ≠ id) := by
  cases hget : r.get? id with
  | none =>
    have hothers : ∀ s ∈ r.all, decide (s.id ≠ id) = true := by
      intro s hs
      rw [decide_eq_true_eq]
      rintro rfl
      rw [h.mem_all.mp hs] at hget
      cases hget
    rw [unsubscribe_of_get?_eq_none hget, List.filter_eq_self.mpr hothers]
  | some s =>
    rw [all_eq_subscribers _ .routeChange, all_eq_subscribers _ .routeChange, subscribers,
      subscribers, listed_unsubscribe hget, List.filterMap_filter, List.filter_filterMap]
    refine List.filterMap_congr fun other hmem => ?_
    obtain ⟨known, hknown⟩ := h.mem_listed.mp hmem
    rw [get?_unsubscribe, hknown, Option.filter_some, h.keyed hknown]
    by_cases hother : other = id
    · simp [hother]
    · simp [hother]

end WellFormed

/-! ## Restored rosters -/

/-- Subscriptions are put in one after another, and stay in their order. -/
theorem foldl_insert (h : r.WellFormed) {subscriptions : List Subscription}
    (hdistinct : ((r.all ++ subscriptions).map Subscription.id).Nodup) :
    (subscriptions.foldl Roster.insert r).WellFormed ∧
      (subscriptions.foldl Roster.insert r).all = r.all ++ subscriptions := by
  induction subscriptions generalizing r with
  | nil => exact ⟨h, (List.append_nil _).symm⟩
  | cons s rest ih =>
    have hnew : r.get? s.id = none := by
      rw [h.get?_eq_none_iff]
      rw [List.map_append, List.nodup_append] at hdistinct
      intro hmem
      exact hdistinct.2.2 s.id hmem s.id (by simp) rfl
    have hall : (r.insert s).all ++ rest = r.all ++ s :: rest := by
      rw [h.all_insert hnew, List.append_assoc, List.singleton_append]
    rw [← hall] at hdistinct ⊢
    exact ih (h.insert hnew) hdistinct

theorem timeout_restore (subscriptions : List Subscription) (timeout : Nat) :
    (restore subscriptions timeout).timeout = timeout := by
  have hfold : ∀ r : Roster, (subscriptions.foldl insert r).timeout = r.timeout := by
    induction subscriptions with
    | nil => exact fun _ => rfl
    | cons s rest ih => exact fun r => ih (r.insert s)
  exact hfold (empty timeout)

/-- Subscriptions with distinct identifiers are restored in their order. -/
theorem restore_all {subscriptions : List Subscription} (timeout : Nat)
    (hdistinct : (subscriptions.map Subscription.id).Nodup) :
    (restore subscriptions timeout).WellFormed ∧
      (restore subscriptions timeout).all = subscriptions :=
  foldl_insert (wellFormed_empty timeout) hdistinct

/-! ## Changes that are taken back -/

namespace WellFormed

/-- A new subscription that goes again leaves all as it was. -/
theorem all_insert_unsubscribe (h : r.WellFormed) (hnew : r.get? s.id = none) :
    ((r.insert s).unsubscribe s.id).1.all = r.all := by
  have hothers : ∀ known ∈ r.all, decide (known.id ≠ s.id) = true := by
    intro known hknown
    rw [decide_eq_true_eq]
    intro heq
    exact h.get?_eq_none_iff.mp hnew (heq ▸ List.mem_map_of_mem hknown)
  rw [(h.insert hnew).all_unsubscribe, h.all_insert hnew, List.filter_append,
    List.filter_eq_self.mpr hothers]
  simp

/-- A subscription that comes back after the others have been restored comes last. -/
theorem restore_unsubscribe (h : r.WellFormed) (hget : r.get? id = some s) (timeout : Nat) :
    (restore ((r.unsubscribe id).1.all ++ [s]) timeout).WellFormed ∧
      (restore ((r.unsubscribe id).1.all ++ [s]) timeout).all =
        (r.all.filter fun other => decide (other.id ≠ id)) ++ [s] := by
  have hothers := h.unsubscribe id
  have hgone : (r.unsubscribe id).1.get? s.id = none := by
    rw [get?_unsubscribe, if_pos (h.keyed hget)]
  have hdistinct : (((r.unsubscribe id).1.all ++ [s]).map Subscription.id).Nodup := by
    rw [← hothers.all_insert hgone]
    exact (hothers.insert hgone).nodup_ids
  obtain ⟨hrestored, hall⟩ := restore_all timeout hdistinct
  exact ⟨hrestored, by rw [hall, h.all_unsubscribe]⟩

/-- The same subscriptions are there as before. -/
theorem perm_restore_unsubscribe (h : r.WellFormed) (hget : r.get? id = some s) :
    ((r.all.filter fun other => decide (other.id ≠ id)) ++ [s]).Perm r.all := by
  have hnodup : ∀ {r : Roster}, r.WellFormed → r.all.Nodup := fun hr =>
    (List.pairwise_map.mp hr.nodup_ids).imp fun hne heq => hne (congrArg Subscription.id heq)
  obtain ⟨hrestored, hall⟩ := h.restore_unsubscribe hget 0
  rw [← hall, List.perm_ext_iff_of_nodup (hnodup hrestored) (hnodup h)]
  intro other
  rw [hall, List.mem_append, List.mem_filter, List.mem_singleton, decide_eq_true_eq]
  constructor
  · rintro (⟨hmem, -⟩ | rfl)
    · exact hmem
    · exact h.mem_all.mpr (by rw [h.keyed hget, hget])
  · intro hmem
    by_cases hid : other.id = id
    · have hother := h.mem_all.mp hmem
      rw [hid, hget] at hother
      exact .inr (Option.some.inj hother).symm
    · exact .inl ⟨hmem, hid⟩

/-- The order is as before exactly if the subscription was the last one. -/
theorem restore_unsubscribe_eq_iff (h : r.WellFormed) (hget : r.get? id = some s) :
    (r.all.filter fun other => decide (other.id ≠ id)) ++ [s] = r.all ↔
      ∃ others, r.all = others ++ [s] := by
  constructor
  · intro heq
    exact ⟨_, heq.symm⟩
  · rintro ⟨others, hlast⟩
    have hid : s.id = id := h.keyed hget
    have hothers : ∀ other ∈ others, decide (other.id ≠ id) = true := by
      intro other hmem
      have hdistinct := h.nodup_ids
      rw [hlast, List.map_append, List.nodup_append] at hdistinct
      rw [decide_eq_true_eq]
      exact hdistinct.2.2 other.id (List.mem_map_of_mem hmem) id (by simp [hid])
    rw [hlast, List.filter_append, List.filter_eq_self.mpr hothers]
    simp [hid]

end WellFormed

end Signpost.Roster

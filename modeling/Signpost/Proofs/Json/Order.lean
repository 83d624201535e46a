import Mathlib.Data.List.Forall2
import Mathlib.Data.List.Nodup
import Mathlib.Data.List.Perm.Basic
import Signpost.Json.Basic

/-!
# The order of members

Who writes a value chooses the order of its members, and who keeps it may choose another one: a
database gives the members of an object back sorted by their names.  Two values are told to be the
same up to this order by a relation, which follows the value down to its innermost objects.

## Main definitions

* `Json.Reordered`: a value has the members of another one in some order.

## Main results

* `Json.DistinctKeys.reordered`, `Json.DistinctKeys.reordered_canonical`: a value as it is, and with
  its members sorted.
* `Json.Reordered.exists_split`: where the first member of an object has gone.
-/

namespace Signpost.Json

/-- A value is another one with the members of every object in some order. -/
inductive Reordered : Json → Json → Prop
  | null : Reordered .null .null
  | bool (b : Bool) : Reordered (.bool b) (.bool b)
  | number (n : Number) : Reordered (.number n) (.number n)
  | string (s : String) : Reordered (.string s) (.string s)
  | array {items items' : List Json} (each : List.Forall₂ Reordered items items') :
      Reordered (.array items) (.array items')
  | object {members members' : List (String × Json)}
      (names : (members.map Prod.fst).Perm (members'.map Prod.fst))
      (each : ∀ {name v v'}, (name, v) ∈ members → (name, v') ∈ members' → Reordered v v') :
      Reordered (.object members) (.object members')

/-- Lists related item by item are related by what follows for their items. -/
theorem forall₂_imp_of_mem {α β : Type} {R S : α → β → Prop} {l : List α} {l' : List β}
    (h : List.Forall₂ R l l') (himp : ∀ a ∈ l, ∀ b ∈ l', R a b → S a b) : List.Forall₂ S l l' := by
  rw [List.forall₂_iff_zip] at h ⊢
  refine ⟨h.1, fun {a b} hab => ?_⟩
  obtain ⟨ha, hb⟩ := List.of_mem_zip hab
  exact himp a ha b hb (h.2 hab)

/-- Members with distinct names are told by their names. -/
theorem eq_of_mem_members {members : List (String × Json)} (hdistinct : (members.map Prod.fst).Nodup)
    {name : String} {v v' : Json} (h : (name, v) ∈ members) (h' : (name, v') ∈ members) : v = v' :=
  congrArg Prod.snd (List.inj_on_of_nodup_map hdistinct h h' rfl)

theorem mem_of_lookup {members : List (String × Json)} {name : String} {v : Json}
    (h : lookup name members = some v) : (name, v) ∈ members := by
  induction members with
  | nil => cases h
  | cons m rest ih =>
    obtain ⟨key, w⟩ := m
    rw [lookup] at h
    split at h
    · next hkey =>
      cases h
      exact hkey ▸ List.mem_cons_self
    · exact List.mem_cons_of_mem _ (ih h)

/-- The first member of an object stands somewhere among the members in another order, and the rest
around it are the other members in some order. -/
theorem Reordered.exists_split {name : String} {v : Json} {rest members : List (String × Json)}
    (h : Reordered (.object ((name, v) :: rest)) (.object members)) :
    ∃ before v' after, members = before ++ (name, v') :: after ∧ Reordered v v' ∧
      Reordered (.object rest) (.object (before ++ after)) := by
  cases h with
  | object names each =>
    have hname : name ∈ members.map Prod.fst := names.mem_iff.mp List.mem_cons_self
    obtain ⟨⟨_, v'⟩, hmember, rfl⟩ := List.mem_map.mp hname
    obtain ⟨before, after, rfl⟩ := List.append_of_mem hmember
    refine ⟨before, v', after, rfl, each List.mem_cons_self (by simp), .object ?_ ?_⟩
    · rw [List.map_append, List.map_cons] at names
      rw [List.map_append]
      exact (names.trans List.perm_middle).cons_inv
    · intro key w w' hw hw'
      refine each (List.mem_cons_of_mem _ hw) ?_
      rw [List.mem_append] at hw'
      rw [List.mem_append, List.mem_cons]
      exact hw'.imp_right .inr

/-! ## Sorted members -/

theorem insertMember_perm {key : String} {value : Json} {members : List (String × Json)}
    (hnew : key ∉ members.map Prod.fst) :
    (insertMember key value members).Perm ((key, value) :: members) := by
  induction members with
  | nil => exact .refl _
  | cons m rest ih =>
    obtain ⟨k, v⟩ := m
    rw [List.map_cons, List.mem_cons, not_or] at hnew
    rw [insertMember, if_neg hnew.1]
    split
    · exact .refl _
    · exact ((ih hnew.2).cons _).trans (.swap _ _ _)

theorem foldl_insertMember_perm (members sorted : List (String × Json))
    (hdistinct : ((members ++ sorted).map Prod.fst).Nodup) :
    (members.foldl (fun sorted m => insertMember m.1 m.2 sorted) sorted).Perm
      (members ++ sorted) := by
  induction members generalizing sorted with
  | nil => exact .refl _
  | cons m rest ih =>
    rw [List.cons_append, List.map_cons, List.nodup_cons] at hdistinct
    obtain ⟨hnew, hrest⟩ := hdistinct
    have hinsert : (insertMember m.1 m.2 sorted).Perm (m :: sorted) :=
      insertMember_perm fun hm => hnew (by simp [List.mem_map.mp hm])
    have hmoved : (rest ++ insertMember m.1 m.2 sorted).Perm (m :: (rest ++ sorted)) :=
      (hinsert.append_left rest).trans List.perm_middle
    refine (ih _ ?_).trans hmoved
    rw [(hmoved.map Prod.fst).nodup_iff, List.map_cons, List.nodup_cons]
    exact ⟨hnew, hrest⟩

/-- Members with distinct names are all there when they have been sorted. -/
theorem sortMembers_perm {members : List (String × Json)}
    (hdistinct : (members.map Prod.fst).Nodup) : (sortMembers members).Perm members := by
  have hperm := foldl_insertMember_perm members [] (by rwa [List.append_nil])
  rwa [List.append_nil] at hperm

theorem canonicalItems_eq_map (items : List Json) : canonicalItems items = items.map canonical := by
  induction items with
  | nil => rfl
  | cons v rest ih => rw [canonicalItems, ih, List.map_cons]

theorem canonicalMembers_eq_map (members : List (String × Json)) :
    canonicalMembers members = members.map fun m => (m.1, m.2.canonical) := by
  induction members with
  | nil => rfl
  | cons m rest ih => rw [canonicalMembers, ih, List.map_cons]

namespace DistinctKeys

variable {v : Json}

/-- A value has its own members in an order. -/
theorem reordered (h : v.DistinctKeys) : v.Reordered v := by
  induction h with
  | null => exact .null
  | bool b => exact .bool b
  | number n => exact .number n
  | string s => exact .string s
  | array _ ih => exact .array (List.forall₂_same.mpr ih)
  | object distinct _ ih =>
    refine .object (.refl _) fun {name v v'} hv hv' => ?_
    obtain rfl := eq_of_mem_members distinct hv hv'
    exact ih _ hv

/-- The canonical form of a value has the same members in sorted order. -/
theorem reordered_canonical (h : v.DistinctKeys) : v.Reordered v.canonical := by
  induction h with
  | null => exact .null
  | bool b => exact .bool b
  | number n => exact .number n
  | string s => exact .string s
  | array _ ih =>
    rw [canonical, canonicalItems_eq_map]
    exact .array (List.forall₂_map_right_iff.mpr (List.forall₂_same.mpr ih))
  | @object members distinct _ ih =>
    rw [canonical, canonicalMembers_eq_map]
    have hnames : (members.map fun m => (m.1, m.2.canonical)).map Prod.fst =
        members.map Prod.fst := by
      rw [List.map_map]
      rfl
    have hsorted := sortMembers_perm (hnames ▸ distinct)
    refine .object ?_ fun {name v v'} hv hv' => ?_
    · exact hnames ▸ (hsorted.map Prod.fst).symm
    · obtain ⟨m, hm, heq⟩ := List.mem_map.mp (hsorted.mem_iff.mp hv')
      obtain ⟨rfl, rfl⟩ := Prod.mk.inj heq
      obtain rfl := eq_of_mem_members distinct hv hm
      exact ih _ hm

end DistinctKeys

end Signpost.Json

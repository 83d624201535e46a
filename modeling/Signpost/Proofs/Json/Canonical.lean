import Signpost.Proofs.Json.Decode

/-!
# The canonical form of a value

The canonical form stands for a value in every order of its members: it is the same for all of
them, it is what is read of each, and a value agrees with it if it agrees with the value itself.

## Main definitions

* `Json.Ascending`: members in the order of their names, each name once.
* `Json.Alike`: values that every value agrees with alike.

## Main results

* `Json.DistinctKeys.canonical_eq`: a value in any order of its members has one canonical form.
* `Json.DistinctKeys.gives_json`: what is read of a value is its canonical form.
* `Json.DistinctKeys.alike`: the order of members does not matter to equality by value.
-/

namespace Signpost.Json

/-! ## Members in order -/

/-- The names of members increase. -/
def Ascending (members : List (String × Json)) : Prop :=
  members.Pairwise fun m m' => m.1 < m'.1

variable {members members' : List (String × Json)} {key : String} {value : Json}

theorem mem_insertMember {m : String × Json} (h : m ∈ insertMember key value members) :
    m = (key, value) ∨ m ∈ members := by
  induction members with
  | nil => exact .inl (List.mem_singleton.mp h)
  | cons first rest ih =>
    obtain ⟨k, v⟩ := first
    rw [insertMember] at h
    split at h
    · exact List.mem_cons.mp h
    · split at h
      · exact (List.mem_cons.mp h).imp_right (List.mem_cons_of_mem _)
      · rcases List.mem_cons.mp h with rfl | hrest
        · exact .inr List.mem_cons_self
        · exact (ih hrest).imp_right (List.mem_cons_of_mem _)

/-- A member is put where its name belongs. -/
theorem Ascending.insertMember (h : Ascending members) :
    Ascending (insertMember key value members) := by
  induction members with
  | nil => exact List.pairwise_singleton _ _
  | cons first rest ih =>
    obtain ⟨k, v⟩ := first
    obtain ⟨hfirst, hrest⟩ := List.pairwise_cons.mp h
    rw [Json.insertMember]
    split
    -- it comes before the first member, and so before all
    · next hlt =>
      refine List.pairwise_cons.mpr ⟨List.forall_mem_cons.mpr ⟨hlt, fun m hm => ?_⟩, h⟩
      exact String.lt_trans hlt (hfirst m hm)
    · next hge =>
      split
      -- it replaces the first member
      · next heq =>
        subst heq
        exact List.pairwise_cons.mpr ⟨hfirst, hrest⟩
      -- it comes behind the first member, as do those that it is put among
      · next hne =>
        refine List.pairwise_cons.mpr ⟨fun m hm => ?_, ih hrest⟩
        rcases mem_insertMember hm with rfl | hm
        · exact Decidable.byContradiction fun hle =>
            hne (String.le_antisymm (String.not_lt.mp hle) (String.not_lt.mp hge))
        · exact hfirst m hm

theorem ascending_sortMembers (members : List (String × Json)) :
    Ascending (sortMembers members) :=
  List.foldlRecOn members _ List.Pairwise.nil fun _ h _ _ => h.insertMember

/-- Members that are there in two orders are the same in the order of their names. -/
theorem sortMembers_eq_of_perm (hdistinct : (members.map Prod.fst).Nodup)
    (h : members.Perm members') : sortMembers members = sortMembers members' := by
  have hdistinct' : (members'.map Prod.fst).Nodup := (h.map Prod.fst).nodup_iff.mp hdistinct
  have hsorted : (sortMembers members).Perm (sortMembers members') :=
    (sortMembers_perm hdistinct).trans (h.trans (sortMembers_perm hdistinct').symm)
  refine hsorted.eq_of_pairwise (fun m m' _ _ hlt hgt => ?_) (ascending_sortMembers members)
    (ascending_sortMembers members')
  exact absurd hgt (String.lt_asymm hlt)

/-! ## What is read of a value -/

mutual

/-- A value is read back in its canonical form. -/
theorem toJson_toDraft : ∀ v : Json, v.toDraft.toJson = .ok v.canonical
  | .null | .bool _ | .number _ | .string _ => rfl
  | .array items => by
    rw [toDraft, Draft.toJson, toItems_itemsToDraft items]
    rfl
  | .object members => by
    rw [toDraft, Draft.toJson, toMembers_membersToDraft members]
    rfl

theorem toItems_itemsToDraft : ∀ items : List Json,
    Draft.toItems (itemsToDraft items) = .ok (canonicalItems items)
  | [] => rfl
  | v :: rest => by
    rw [itemsToDraft, Draft.toItems, toJson_toDraft v, toItems_itemsToDraft rest]
    rfl

theorem toMembers_membersToDraft : ∀ members : List (String × Json),
    Draft.toMembers (membersToDraft members) = .ok (canonicalMembers members)
  | [] => rfl
  | (key, v) :: rest => by
    rw [membersToDraft, Draft.toMembers, toJson_toDraft v, toMembers_membersToDraft rest]
    rfl

end

/-! ## Any order of members -/

/-- A name that no member has. -/
theorem lookup_eq_none_iff : lookup key members = none ↔ key ∉ members.map Prod.fst := by
  induction members with
  | nil => simp [lookup]
  | cons m rest ih =>
    obtain ⟨k, v⟩ := m
    rw [lookup, List.map_cons, List.mem_cons, not_or, ← ih]
    split
    · next heq => simp [heq]
    · next hne => simp [Ne.symm hne]

/-- Items are related as each of them is to what it is reordered to. -/
theorem Reordered.rel_items {R : Json → Json → Prop} {items items' : List Json}
    (h : List.Forall₂ Reordered items items')
    (each : ∀ v ∈ items, ∀ {w}, v.Reordered w → R v w) : List.Forall₂ R items items' :=
  forall₂_imp_of_mem h fun v hv _ _ hvw => each v hv hvw

/-- Members of the same names have related values under each name. -/
theorem rel_lookup {R : Json → Json → Prop}
    (names : (members.map Prod.fst).Perm (members'.map Prod.fst))
    (each : ∀ {name v v'}, (name, v) ∈ members → (name, v') ∈ members' → R v v') (key : String) :
    Option.Rel R (lookup key members) (lookup key members') := by
  cases hv : lookup key members with
  | none =>
    have hmissing : key ∉ members'.map Prod.fst := fun hkey =>
      lookup_eq_none_iff.mp hv (names.mem_iff.mpr hkey)
    rw [lookup_eq_none_iff.mpr hmissing]
    exact .none
  | some v =>
    have hthere : key ∈ members'.map Prod.fst :=
      names.mem_iff.mp (List.mem_map_of_mem (f := Prod.fst) (mem_of_lookup hv))
    obtain ⟨v', hv'⟩ : ∃ v', lookup key members' = some v' :=
      Option.ne_none_iff_exists'.mp fun hnone => lookup_eq_none_iff.mp hnone hthere
    rw [hv']
    exact .some (each (mem_of_lookup hv) (mem_of_lookup hv'))

/-- Members of the same names that a function takes to the same values are the same members then, in
some order. -/
theorem perm_map_of_names {f : Json → Json} (hdistinct : (members.map Prod.fst).Nodup)
    (names : (members.map Prod.fst).Perm (members'.map Prod.fst))
    (each : ∀ {name v v'}, (name, v) ∈ members → (name, v') ∈ members' → f v = f v') :
    (members.map fun m => (m.1, f m.2)).Perm (members'.map fun m => (m.1, f m.2)) := by
  have hnames : ∀ members : List (String × Json), (members.map Prod.fst).Nodup →
      (members.map fun m => (m.1, f m.2)).Nodup := fun members h =>
    List.Nodup.of_map Prod.fst (by rwa [List.map_map])
  have hdistinct' := names.nodup_iff.mp hdistinct
  -- with distinct names it is enough that the two have the same members
  refine (List.perm_ext_iff_of_nodup (hnames _ hdistinct) (hnames _ hdistinct')).mpr fun m => ?_
  rw [List.mem_map, List.mem_map]
  constructor
  · rintro ⟨⟨name, v⟩, hv, rfl⟩
    obtain ⟨⟨_, v'⟩, hv', rfl⟩ :=
      List.mem_map.mp (names.mem_iff.mp (List.mem_map_of_mem (f := Prod.fst) hv))
    exact ⟨_, hv', by rw [each hv hv']⟩
  · rintro ⟨⟨name, v'⟩, hv', rfl⟩
    obtain ⟨⟨_, v⟩, hv, rfl⟩ :=
      List.mem_map.mp (names.mem_iff.mpr (List.mem_map_of_mem (f := Prod.fst) hv'))
    exact ⟨_, hv, by rw [each hv hv']⟩

/-- Values that every value agrees with alike. -/
def Alike (v v' : Json) : Prop := ∀ u : Json, u.agrees v = u.agrees v'

/-- Items are compared one by one. -/
theorem agreeItems_eq_of_alike {items items' : List Json} (h : List.Forall₂ Alike items items')
    (us : List Json) : agreeItems us items = agreeItems us items' := by
  induction h generalizing us with
  | nil => rfl
  | cons hv _ ih =>
    cases us with
    | nil => rfl
    | cons u us => rw [agreeItems, agreeItems, hv u, ih us]

/-- Members are compared with what is found under their names. -/
theorem agreeMembers_eq_of_alike
    (h : ∀ key, Option.Rel Alike (lookup key members) (lookup key members'))
    (us : List (String × Json)) : agreeMembers us members = agreeMembers us members' := by
  induction us with
  | nil => rfl
  | cons m rest ih =>
    obtain ⟨key, u⟩ := m
    rw [agreeMembers, agreeMembers, ih]
    have hkey := h key
    generalize lookup key members = found, lookup key members' = found' at hkey ⊢
    cases hkey with
    | none => rfl
    | some halike => exact congrArg (· && _) (halike u)

namespace DistinctKeys

variable {v w : Json}

/-- **The canonical form is one for all orders**. -/
theorem canonical_eq (hdistinct : v.DistinctKeys) (h : v.Reordered w) :
    v.canonical = w.canonical := by
  -- the reordering is followed down the value, of which the distinct names are known
  induction hdistinct generalizing w with
  | null | bool | number | string =>
    cases h
    rfl
  | @array items _ ih =>
    cases h with
    | @array _ items' each =>
      have hitems : List.Forall₂ (· = ·) (items.map canonical) (items'.map canonical) := by
        rw [List.forall₂_map_left_iff, List.forall₂_map_right_iff]
        exact Reordered.rel_items each ih
      rw [List.forall₂_eq_eq_eq] at hitems
      rw [canonical, canonical, canonicalItems_eq_map, canonicalItems_eq_map, hitems]
  | @object members distinct _ ih =>
    cases h with
    | @object _ members' names each =>
      have hperm := perm_map_of_names distinct names fun hv hv' => ih _ hv (each hv hv')
      rw [canonical, canonical, canonicalMembers_eq_map, canonicalMembers_eq_map,
        sortMembers_eq_of_perm (by rwa [List.map_map]) hperm]

/-- What is read of a value, in whatever order of its members, is its canonical form. -/
theorem gives_json (hdistinct : v.DistinctKeys) : Decoder.json.Gives v v.canonical :=
  ⟨hdistinct, fun h => by rw [Decoder.json, toJson_toDraft, hdistinct.canonical_eq h]⟩

/-- **A value agrees with all orders of a value alike**. -/
theorem alike (hdistinct : v.DistinctKeys) (h : v.Reordered w) : v.Alike w := by
  induction hdistinct generalizing w with
  | null | bool | number | string =>
    cases h
    exact fun _ => rfl
  | @array items _ ih =>
    cases h with
    | @array _ items' each =>
      have hitems : List.Forall₂ Alike items items' := Reordered.rel_items each ih
      intro u
      cases u with
      | array us => exact agreeItems_eq_of_alike hitems us
      | null | bool | number | string | object => rfl
  | @object members distinct _ ih =>
    cases h with
    | @object _ members' names each =>
      have halike : ∀ key, Option.Rel Alike (lookup key members) (lookup key members') :=
        rel_lookup names fun hv hv' => ih _ hv (each hv hv')
      have hlength : members.length = members'.length := by simpa using names.length_eq
      intro u
      cases u with
      | object us =>
        rw [agrees, agrees, hlength, agreeMembers_eq_of_alike halike us]
      | null | bool | number | string | array => rfl

end DistinctKeys

end Signpost.Json

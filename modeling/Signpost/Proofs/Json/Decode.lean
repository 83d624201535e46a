import Signpost.Json.Decode
import Signpost.Proofs.Json.Order

/-!
# Decoders that read what is written

A decoder reads a JSON form if it gives every value back from its form, in whatever order the
members of the form's objects stand.  Values that are made of others are read where their parts
are: a list from its items, a record from an object that has the fields and leaves out some that
have a default, and a tagged value from what it carries.

## Main definitions

* `Json.Decoder.Gives`: a decoder gives a value for a form.
* `Json.Decoder.Reads`: a decoder reads a JSON form.
* `Json.Fields.Takes`: the members of an object give a record.

## Main results

* `Json.Decoder.Gives.list`, `Json.Decoder.Reads.list`: lists are read where their items are.
* `Json.Fields.Takes.cons`, `Json.Fields.Takes.absent`: a record is read field by field.
* `Json.Decoder.Gives.tagged`: a tagged value is read where what it carries is.
* `Json.Decoder.Gives.decode?_eq`
-/

namespace Signpost.Json

namespace Decoder

variable {α β : Type} {decode : Decoder α} {v : Json} {a : α}

/-- The decoder gives a value for a form, in whatever order the members of its objects stand. -/
structure Gives (decode : Decoder α) (v : Json) (a : α) : Prop where
  distinct : v.DistinctKeys
  of_reordered : ∀ {w}, v.Reordered w → decode w.toDraft = .ok a

/-- The decoder gives every value back from its JSON form. -/
def Reads (decode : Decoder α) (toJson : α → Json) : Prop := ∀ a, decode.Gives (toJson a) a

theorem reads_string : string.Reads Json.string := fun s => ⟨.string s, fun h => by cases h; rfl⟩

theorem reads_bool : bool.Reads Json.bool := fun b => ⟨.bool b, fun h => by cases h; rfl⟩

namespace Gives

/-- What is given for the form as it is written. -/
theorem decode_eq (h : decode.Gives v a) : decode v.toDraft = .ok a :=
  h.of_reordered h.distinct.reordered

theorem decode?_eq (h : decode.Gives v a) {w : Json} (hw : v.Reordered w) :
    decode? decode w = some a := by
  rw [decode?, h.of_reordered hw]

theorem map (h : decode.Gives v a) (f : α → β) :
    Decoder.Gives (fun d => f <$> decode d) v (f a) := by
  refine ⟨h.distinct, fun hw => ?_⟩
  rw [h.of_reordered hw]
  rfl

/-- A string is parsed where it is the form of a value. -/
theorem parsed {parse : String → Option α} {s : String} (h : parse s = some a) :
    (Decoder.parsed parse).Gives (.string s) a := by
  refine ⟨.string s, fun hw => ?_⟩
  cases hw
  simp only [toDraft, Decoder.parsed, string, bind, Except.bind, h]

/-- An object is never taken for null. -/
theorem nullable {members : List (String × Json)} (h : decode.Gives (.object members) a) :
    (Decoder.nullable decode).Gives (.object members) (some a) := by
  refine ⟨h.distinct, fun hw => ?_⟩
  have hdecode := h.of_reordered hw
  cases hw
  show some <$> decode (toDraft _) = _
  rw [hdecode]
  rfl

theorem objectOnly {members : List (String × Json)} (h : decode.Gives (.object members) a) :
    decode.objectOnly.Gives (.object members) a := by
  refine ⟨h.distinct, fun hw => ?_⟩
  have hdecode := h.of_reordered hw
  cases hw
  exact hdecode

end Gives

/-! ## Lists -/

/-- The items of a list are given in their order. -/
theorem Gives.items {vs ws : List Json} {as : List α} (h : List.Forall₂ decode.Gives vs as)
    (hws : List.Forall₂ Reordered vs ws) : Decoder.items decode (itemsToDraft ws) = .ok as := by
  induction h generalizing ws with
  | nil =>
    cases hws
    rfl
  | cons hv _ ih =>
    cases hws with
    | cons hw hws =>
      rw [itemsToDraft, Decoder.items, hv.of_reordered hw, ih hws]
      rfl

/-- A list is given where its items are. -/
theorem Gives.list {vs : List Json} {as : List α} (h : List.Forall₂ decode.Gives vs as) :
    (Decoder.list decode).Gives (.array vs) as := by
  have hdistinct := ((List.forall₂_and_left vs as).mp (h.imp fun _ _ hv => ⟨hv.distinct, hv⟩)).1
  refine ⟨.array hdistinct, fun hw => ?_⟩
  cases hw with
  | array hws =>
    rw [toDraft, Decoder.list, Gives.items h hws]
    rfl

/-- A list is read where its items are. -/
theorem Reads.list {toJson : α → Json} (h : decode.Reads toJson) :
    (Decoder.list decode).Reads fun as => .array (as.map toJson) := fun _ =>
  Gives.list (List.forall₂_map_left_iff.mpr (List.forall₂_same.mpr fun a _ => h a))

end Decoder

/-! ## Records -/

theorem membersToDraft_append (members members' : List (String × Json)) :
    membersToDraft (members ++ members') = membersToDraft members ++ membersToDraft members' := by
  induction members with
  | nil => rfl
  | cons m rest ih => rw [List.cons_append, membersToDraft, ih, membersToDraft, List.cons_append]

/-- A single member stands where it stood. -/
theorem Reordered.of_single {name : String} {v w : Json}
    (h : (Json.object [(name, v)]).Reordered w) :
    ∃ v', w = .object [(name, v')] ∧ v.Reordered v' := by
  cases h with
  | object names each =>
    obtain ⟨before, v', after, rfl, hv', hrest⟩ := Reordered.exists_split (.object names each)
    cases hrest with
    | object names' _ =>
      obtain ⟨rfl, rfl⟩ : before = [] ∧ after = [] := by simpa using names'.symm.eq_nil
      exact ⟨v', rfl, hv'⟩

namespace Fields

variable {α β : Type} {fields : Fields β} {members : List (String × Json)} {b : β}

/-- The members of an object give a record, in whatever order they stand. -/
structure Takes (fields : Fields β) (members : List (String × Json)) (b : β) : Prop where
  distinct : (Json.object members).DistinctKeys
  of_reordered : ∀ {members'}, (Json.object members).Reordered (.object members') →
    ∃ found, fields.takeMembers (membersToDraft members') fields.start = .ok found ∧
      fields.finish found = .ok b

/-- Members are taken one after another. -/
theorem takeMembers_append (fields : Fields β) (ds ds' : List (Option String × Draft))
    (found : fields.Found) : fields.takeMembers (ds ++ ds') found =
      (do fields.takeMembers ds' (← fields.takeMembers ds found)) := by
  induction ds generalizing found with
  | nil => rfl
  | cons d rest ih =>
    obtain ⟨_ | key, d⟩ := d
    · rfl
    · rw [List.cons_append, takeMembers, takeMembers]
      cases fields.take key d found with
      | none =>
        cases d.skipFault with
        | none => exact ih found
        | some f => rfl
      | some r =>
        cases r with
        | error f => rfl
        | ok next => exact ih next

/-- Members of other names are left to the other fields. -/
theorem takeMembers_cons {name : String} (decode : Decoder α) (absent cut : Option α)
    (first : Option α) (hother : ∀ m ∈ members, m.1 ≠ name) (found : fields.Found) :
    (cons name decode absent cut fields).takeMembers (membersToDraft members) (first, found) =
      (fun found => (first, found)) <$> fields.takeMembers (membersToDraft members) found := by
  induction members generalizing found with
  | nil => rfl
  | cons m rest ih =>
    obtain ⟨key, v⟩ := m
    rw [List.forall_mem_cons] at hother
    obtain ⟨hkey, hrest⟩ := hother
    have htake : (cons name decode absent cut fields).take key v.toDraft (first, found) =
        (fields.take key v.toDraft found).map fun r => (fun f => (first, f)) <$> r := by
      simp only [cons, if_neg hkey]
    simp only [membersToDraft, takeMembers, htake]
    cases fields.take key v.toDraft found with
    | none =>
      rw [Option.map_none]
      cases v.toDraft.skipFault with
      | none => exact ih hrest found
      | some f => rfl
    | some r =>
      cases r with
      | error f => rfl
      | ok next => exact ih hrest next

/-- Other members in another order are still other members. -/
theorem ne_of_reordered {members' : List (String × Json)} {name : String}
    (h : (Json.object members).Reordered (.object members')) (hother : ∀ m ∈ members, m.1 ≠ name) :
    ∀ m ∈ members', m.1 ≠ name := by
  cases h with
  | object names _ =>
    intro m hm heq
    obtain ⟨m', hm', hname⟩ := List.mem_map.mp (names.mem_iff.mpr (List.mem_map_of_mem hm))
    exact hother m' hm' (hname.trans heq)

namespace Takes

theorem nil : Fields.nil.Takes [] () := by
  refine ⟨.object List.nodup_nil nofun, fun h => ?_⟩
  cases h with
  | object names _ =>
    rw [List.map_eq_nil_iff.mp names.symm.eq_nil]
    exact ⟨(), rfl, rfl⟩

/-- A field that is there. -/
theorem cons {name : String} {decode : Decoder α} {absent cut : Option α} {v : Json} {a : α}
    (hv : decode.Gives v a) (hother : ∀ m ∈ members, m.1 ≠ name) (h : fields.Takes members b) :
    (Fields.cons name decode absent cut fields).Takes ((name, v) :: members) (a, b) := by
  refine ⟨?_, fun {members'} hmembers => ?_⟩
  · cases h.distinct with
    | object distinct each =>
      refine .object (List.nodup_cons.mpr ⟨fun hname => ?_, distinct⟩)
        (List.forall_mem_cons.mpr ⟨hv.distinct, each⟩)
      obtain ⟨m, hm, heq⟩ := List.mem_map.mp hname
      exact hother m hm heq
  · obtain ⟨before, v', after, rfl, hv', hrest⟩ := hmembers.exists_split
    obtain ⟨found, htake, hfinish⟩ := h.of_reordered hrest
    have hothers := List.forall_mem_append.mp (ne_of_reordered hrest hother)
    refine ⟨(some a, found), ?_, by simp only [Fields.cons, Option.or, hfinish]; rfl⟩
    -- the other fields are taken from the members before it and after it
    rw [membersToDraft_append, takeMembers_append] at htake
    obtain ⟨between, hbefore, hafter⟩ : ∃ between,
        fields.takeMembers (membersToDraft before) fields.start = .ok between ∧
          fields.takeMembers (membersToDraft after) between = .ok found := by
      cases hbefore : fields.takeMembers (membersToDraft before) fields.start with
      | error f => rw [hbefore] at htake; cases htake
      | ok between => exact ⟨between, rfl, by rwa [hbefore] at htake⟩
    have hfirst : (Fields.cons name decode absent cut fields).take name v'.toDraft
        (none, between) = some (.ok (some a, between)) := by
      simp only [Fields.cons, if_true, hv.of_reordered hv']
      rfl
    rw [membersToDraft_append, takeMembers_append]
    have hskip := takeMembers_cons decode absent cut none hothers.1 fields.start
    have hgo := takeMembers_cons decode absent cut (some a) hothers.2 between
    rw [hbefore] at hskip
    rw [hafter] at hgo
    refine Eq.trans (congrArg (· >>= _) hskip) ?_
    show (Fields.cons name decode absent cut fields).takeMembers
      ((some name, v'.toDraft) :: membersToDraft after) (none, between) = _
    simp only [takeMembers, hfirst]
    exact hgo

/-- A field that is left out, for it has the value that it then has. -/
theorem absent {name : String} {decode : Decoder α} {cut : Option α} {a : α}
    (hother : ∀ m ∈ members, m.1 ≠ name) (h : fields.Takes members b) :
    (Fields.cons name decode (some a) cut fields).Takes members (a, b) := by
  refine ⟨h.distinct, fun {members'} hmembers => ?_⟩
  obtain ⟨found, htake, hfinish⟩ := h.of_reordered hmembers
  refine ⟨(none, found), ?_, by simp only [Fields.cons, Option.or, hfinish]; rfl⟩
  have hothers := ne_of_reordered hmembers hother
  exact (takeMembers_cons decode (some a) cut none hothers fields.start).trans (by rw [htake]; rfl)

/-- A record is read from an object whose members give it. -/
theorem record (h : fields.Takes members b) :
    (Decoder.record fields).Gives (.object members) b := by
  refine ⟨h.distinct, fun hw => ?_⟩
  cases hw with
  | object names each =>
    obtain ⟨found, htake, hfinish⟩ := h.of_reordered (.object names each)
    rw [toDraft, Decoder.record, htake]
    exact hfinish

end Takes

end Fields

/-! ## Tagged values -/

namespace Decoder.Gives

variable {α : Type} {decode : Decoder α} {v : Json} {a : α}

/-- A tagged value is read where what it carries is. -/
theorem tagged {case : String → Option (Case α)} {name : String}
    (hcase : case name = some (.holding decode)) (h : decode.Gives v a) :
    (Decoder.tagged case).Gives (.object [(name, v)]) a := by
  refine ⟨.object (List.nodup_singleton _) (by simpa using h.distinct), fun hw => ?_⟩
  obtain ⟨v', rfl, hv'⟩ := hw.of_single
  simp only [toDraft, membersToDraft, Decoder.tagged, hcase, h.of_reordered hv']
  rfl

/-- A tagged value that carries nothing is read from its name. -/
theorem bare {case : String → Option (Case α)} {name : String}
    (hcase : case name = some (.bare a)) : (Decoder.tagged case).Gives (.string name) a := by
  refine ⟨.string name, fun hw => ?_⟩
  cases hw
  simp only [toDraft, Decoder.tagged, hcase]

end Decoder.Gives

end Signpost.Json

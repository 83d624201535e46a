import Signpost.Proofs.Prevails
import Signpost.Proofs.Store.Content
import Signpost.Proofs.Store.Database

/-!
# What the database has

A row is put under a key that is made of a kind and an identifier, but it is deleted by the columns
that hold these two.  Both reach the one row of this kind and identifier, and no other: so whatever
has been written, the database has just those definitions that stand, each the last one to be put in
its place, and not deleted since.  It answers every question from them.

## Main definitions

* `Database.Has`: the database has the row of a definition.
* `Store.AnswersFrom`: a store gives just the records of definitions of some sort.
* `Database.Write`, `Database.Operation`, `Database.after`: what is done to the definitions of a
  database.
* `Database.Stands`: a definition has been put, and nothing written in its place since.

## Main results

* `Database.has_write_iff`: what one write changes.
* `Database.has_after_iff`: what a database has after any operations.
* `Database.Mirrors.shows`, `Database.Mirrors.answersFrom`: a database answers from what it has.
* `Database.answers_from_what_stands`
-/

namespace Signpost

/-! ## Answers -/

/-- A store answers from the definitions of some sort: of those that it is asked for it gives the
record of each one, once, and nothing else. -/
structure Store.AnswersFrom {α : Type} [Definition α] (store : Store α) (p : α → Prop) : Prop where
  get : ∀ id, ∃ found, store.get id = .ok found ∧ ∀ r, found = some r ↔
    ∃ a, p a ∧ Definition.id a = id ∧ r = ⟨Definition.id a, Definition.etag a, a⟩
  getMany : ∀ ids, ∃ found, store.getMany ids = .ok found ∧ (found.map Record.id).Nodup ∧
    ∀ r, r ∈ found ↔
      ∃ a, p a ∧ Definition.id a ∈ ids ∧ r = ⟨Definition.id a, Definition.etag a, a⟩
  all : ∃ found, store.query .all = .ok found ∧ (found.map Record.id).Nodup ∧
    ∀ r, r ∈ found ↔ ∃ a, p a ∧ r = ⟨Definition.id a, Definition.etag a, a⟩
  headers : ∃ listing, store.headers = .ok listing ∧ (listing.map Header.id).Nodup ∧
    ∀ h, h ∈ listing ↔ ∃ a, p a ∧ h = ⟨Definition.id a, Definition.etag a⟩

namespace Database

variable {k k' : Kind} {db db' : Database} {t : RecordTable k.Payload} {a : k.Payload}
  {a' : k'.Payload} {id : Uuid}

/-! ## What the database has -/

/-- The database has the row of a definition, under its kind and its identifier. -/
def Has (db : Database) (a : k.Payload) : Prop :=
  db.definitions.get? (rowKey k (Definition.id a)) = some (rowOf k (Record.of a))

/-- A row tells its definition. -/
theorem eq_of_rowOf_eq {b : k.Payload} (h : rowOf k (Record.of a) = rowOf k (Record.of b)) :
    a = b := by
  have hread := congrArg (fun row => StoredRow.toRecord (α := k.Payload) row.toStoredRow) h
  simp only [rowOf, Record.toRecord_toRow] at hread
  exact congrArg Record.payload (Except.ok.inj hread)

namespace Mirrors

/-- The database has those definitions whose records are in the table. -/
theorem has_iff (h : db.Mirrors k t) : db.Has a ↔ Record.of a ∈ t.all := by
  rw [RecordTable.mem_all_iff h.tagged.keyed, ← Dict.mem_entries_iff, Has, ← Dict.mem_entries_iff]
  -- the row is among those of its kind, which are those of the table
  have hkind : (rowKey k (Definition.id a), rowOf k (Record.of a)) ∈ db.definitions.entries ↔
      (rowKey k (Definition.id a), rowOf k (Record.of a)) ∈ t.records.entries.map (entryOf k) := by
    rw [← h.entries, List.mem_filter]
    exact (and_iff_left (beq_self_eq_true k.name)).symm
  rw [hkind, List.mem_map]
  constructor
  · rintro ⟨⟨id, r⟩, he, heq⟩
    obtain ⟨hrecord, hid⟩ : r = Record.of r.payload ∧ r.id = id := h.tagged.of_mem_entries he
    simp only [entryOf, Prod.mk.injEq] at heq
    have hrow := heq.2
    rw [hrecord] at hrow
    rw [← eq_of_rowOf_eq hrow, ← hrecord, hid]
    exact he
  · exact fun he => ⟨_, he, rfl⟩

/-- The records of the table are those of what the database has. -/
theorem mem_all_iff (h : db.Mirrors k t) {r : Record k.Payload} :
    r ∈ t.all ↔ ∃ a, db.Has a ∧ r = Record.of a := by
  simp only [h.has_iff]
  exact ⟨fun hr => ⟨r.payload, h.eq_of hr ▸ hr, h.eq_of hr⟩, fun ⟨a, ha, hr⟩ => hr ▸ ha⟩

/-- What the table holds is what the database has. -/
theorem mem_holdings_iff (h : db.Mirrors k t) :
    a ∈ (t.holdings h.tagged).definitions ↔ db.Has a := by
  rw [← RecordTable.mem_map_payload_all_iff, h.has_iff, List.mem_map]
  constructor
  · rintro ⟨r, hr, rfl⟩
    exact h.eq_of hr ▸ hr
  · exact fun ha => ⟨_, ha, rfl⟩

/-! ## What the database answers -/

/-- All records are selected by the filter that selects everything. -/
theorem query_all (h : db.Mirrors k t) : (db.store k).query .all = .ok t.all := by
  have hcandidates : (t.all.filter fun r => candidates (.all : Filter k.Payload) r.toRow) = t.all :=
    List.filter_eq_self.mpr fun _ _ => rfl
  rw [h.query_eq, hcandidates]
  exact congrArg Except.ok (List.filter_eq_self.mpr fun r _ => Holdings.matches_all r.payload)

/-- A record is looked for by its identifier. -/
theorem get_eq (h : db.Mirrors k t) (id : Uuid) :
    (db.store k).get id = .ok (t.all.find? fun r => decide (r.id = id)) := by
  have hcolumn : (fun r : Record k.Payload => r.toRow.uid == id.toString) =
      fun r => decide (r.id = id) := by
    funext r
    rw [Bool.eq_iff_iff, decide_eq_true_iff, beq_iff_eq]
    exact Uuid.toString_injective.eq_iff
  simp only [store, h.select_eq, hcolumn, ← List.head?_filter]
  rfl

/-- Records are looked for by some identifiers, whatever their number and order. -/
theorem getMany_eq (h : db.Mirrors k t) (ids : List Uuid) :
    (db.store k).getMany ids = .ok (t.all.filter fun r => decide (r.id ∈ ids)) := by
  simp only [store, h.select_eq]
  split
  · next hempty =>
    rw [List.isEmpty_iff.mp hempty, List.filter_eq_nil_iff.mpr fun _ _ => by simp]
    rfl
  · refine congrArg Except.ok (List.filter_congr fun r _ => ?_)
    rw [Bool.eq_iff_iff, decide_eq_true_iff, List.contains_iff_mem]
    exact List.mem_map_of_injective Uuid.toString_injective

/-- Every row tells the header of its record. -/
theorem headers_eq (h : db.Mirrors k t) : (db.store k).headers = .ok (t.all.map Record.header) := by
  -- induction over the rows, all of which were made from records
  have hread : ∀ records : List (Record k.Payload),
      (records.map Record.toRow).mapM (fun row => (StoredHeader.mk row.uid row.etag).toHeader) =
        .ok (records.map Record.header) := by
    intro records
    induction records with
    | nil => rfl
    | cons r rest ih =>
      have hheader : (StoredHeader.mk r.toRow.uid r.toRow.etag).toHeader = .ok r.header := by
        simp only [StoredHeader.toHeader, Record.toRow, Uuid.parse?_toString]
        rfl
      rw [List.map_cons, List.mapM_cons, hheader, ih]
      rfl
  show Except.mapError _ ((db.rows k).mapM _) = _
  rw [h.rows_eq, hread]
  rfl

/-- The database never fails to look a definition up. -/
theorem exists_get_eq (h : db.Mirrors k t) (id : Uuid) :
    ∃ found, (db.store k).get id = .ok found := ⟨_, h.get_eq id⟩

/-- **A database shows what the table of a kind holds**, though it may miss definitions by a filter
that goes into arrays. -/
theorem shows (h : db.Mirrors k t) : (db.store k).Shows (t.holdings h.tagged) where
  get {id found} hget := by
    rw [h.get_eq] at hget
    rw [← RecordTable.records_get?, ← Except.ok.inj hget]
    ext r
    rw [find?_key_eq_some_iff (RecordTable.nodup_map_id_all h.tagged.keyed),
      RecordTable.mem_all_iff h.tagged.keyed]
    constructor
    · rintro ⟨hr, rfl⟩
      exact hr
    · intro hr
      obtain rfl := h.tagged.keyed hr
      exact ⟨hr, rfl⟩
  getMany {ids records} _ hget := by
    rw [h.getMany_eq] at hget
    exact Except.ok.inj hget ▸ RecordTable.perm_filter_all h.tagged _
  query {f records} hquery := by
    rw [h.query_eq, List.filter_comm] at hquery
    rw [← Except.ok.inj hquery]
    exact List.filter_sublist.subperm.trans (RecordTable.perm_filter_all h.tagged _).subperm
  all records hquery := by
    rw [h.query_all] at hquery
    rw [Holdings.matching_all]
    exact Except.ok.inj hquery ▸ RecordTable.perm_all h.tagged
  headers {listing} hheaders := by
    rw [h.headers_eq] at hheaders
    exact Except.ok.inj hheaders ▸ RecordTable.perm_map_header_all h.tagged

/-- Whatever it is asked, the database answers from what it has. -/
theorem answersFrom (h : db.Mirrors k t) : (db.store k).AnswersFrom db.Has where
  get id := by
    refine ⟨_, h.get_eq id, fun r => ?_⟩
    rw [find?_key_eq_some_iff (RecordTable.nodup_map_id_all h.tagged.keyed), h.mem_all_iff]
    constructor
    · rintro ⟨⟨a, ha, rfl⟩, hid⟩
      exact ⟨a, ha, hid, rfl⟩
    · rintro ⟨a, ha, hid, rfl⟩
      exact ⟨⟨a, ha, rfl⟩, hid⟩
  getMany ids := by
    refine ⟨_, h.getMany_eq ids, ?_, fun r => ?_⟩
    · exact (List.filter_sublist.map Record.id).nodup (RecordTable.nodup_map_id_all h.tagged.keyed)
    · rw [List.mem_filter, h.mem_all_iff, decide_eq_true_iff]
      constructor
      · rintro ⟨⟨a, ha, rfl⟩, hid⟩
        exact ⟨a, ha, hid, rfl⟩
      · rintro ⟨a, ha, hid, rfl⟩
        exact ⟨⟨a, ha, rfl⟩, hid⟩
  all := ⟨_, h.query_all, RecordTable.nodup_map_id_all h.tagged.keyed, fun _ => h.mem_all_iff⟩
  headers := by
    refine ⟨_, h.headers_eq, ?_, fun header => ?_⟩
    · rw [List.map_map]
      exact RecordTable.nodup_map_id_all h.tagged.keyed
    · rw [List.mem_map]
      constructor
      · rintro ⟨r, hr, rfl⟩
        obtain ⟨a, ha, rfl⟩ := h.mem_all_iff.mp hr
        exact ⟨a, ha, rfl⟩
      · rintro ⟨a, ha, rfl⟩
        exact ⟨Record.of a, h.has_iff.mp ha, rfl⟩

end Mirrors

/-- What a database answers about a kind depends on nothing but the rows of this kind. -/
theorem store_congr (h : db.rows k = db'.rows k) : db.store k = db'.store k := by
  simp only [store, select, h]

/-! ## What is written -/

/-- A write: a definition is put, or that of a kind with an identifier is deleted. -/
inductive Write where
  | put {k : Kind} (a : k.Payload)
  | delete (k : Kind) (id : Uuid)

/-- The place that a write is about: a kind and an identifier. -/
def Write.place : Write → Kind × Uuid
  | .put (k := k) a => (k, Definition.id a)
  | .delete k id => (k, id)

/-- The database after a write. -/
def write (db : Database) : Write → Database
  | .put a => (db.put a).1
  | .delete k id => db.delete k id

/-- What is done to the definitions of a database. -/
inductive Operation where
  | write (w : Write)
  | importBundle (b : Bundle)

/-- The writes of an operation.  A bundle is written kind by kind. -/
def Operation.writes : Operation → List Write
  | .write w => [w]
  | .importBundle b => Kind.all.flatMap fun k => (b.ofKind k).map .put

/-- The database after an operation. -/
def perform (db : Database) : Operation → Database
  | .write w => db.write w
  | .importBundle b => (db.importBundle b).1

/-- The database after some operations, which was empty before. -/
def after (operations : List Operation) : Database := operations.foldl perform empty

/-- A definition stands after some writes: it has been put, and nothing has been written in its
place since. -/
def Stands (writes : List Write) (a : k.Payload) : Prop :=
  ∃ earlier later, writes = earlier ++ .put a :: later ∧
    ∀ w ∈ later, w.place ≠ (k, Definition.id a)

theorem perform_eq (db : Database) (operation : Operation) :
    db.perform operation = operation.writes.foldl write db := by
  cases operation with
  | write w => rfl
  | importBundle b =>
    rw [perform, importBundle_eq]
    simp only [Operation.writes, List.foldl_flatMap, List.foldl_map]
    rfl

theorem after_eq (operations : List Operation) :
    after operations = (operations.flatMap Operation.writes).foldl write empty := by
  rw [List.foldl_flatMap, after]
  exact congrArg (fun f => operations.foldl f empty)
    (funext fun db => funext fun operation => db.perform_eq operation)

/-- **What one write changes**: the database has what is put, and it has what it had in other
places. -/
theorem has_write_iff {w : Write} :
    (db.write w).Has a ↔ w = .put a ∨ w.place ≠ (k, Definition.id a) ∧ db.Has a := by
  cases w with
  | @put k' a' =>
    show (db.definitions.put (rowKey k' (Definition.id a')) (rowOf k' (Record.of a'))).get? _ = _ ↔ _
    rw [Dict.get?_put]
    split
    · next hkey =>
      obtain ⟨rfl, hid⟩ := rowKey_inj hkey
      simp only [Write.place, hid, ne_eq, not_true_eq_false, false_and, or_false]
      constructor
      · intro hrow
        rw [eq_of_rowOf_eq (Option.some.inj hrow)]
      · rintro ⟨⟩
        rfl
    · next hkey =>
      have hplace : (k', Definition.id a') ≠ (k, Definition.id a) := by
        intro heq
        obtain ⟨rfl, hid⟩ := Prod.mk.inj heq
        exact hkey (by rw [hid])
      have hput : Write.put a' ≠ .put a := fun heq => hplace (congrArg Write.place heq)
      simp only [hput, false_or, Write.place, hplace, ne_eq, not_false_eq_true, true_and]
      rfl
  | delete k' id =>
    rw [Has, write, delete, Dict.get?_filter, Option.filter_eq_some_iff]
    -- the row at the key of the definition has the definition's own columns
    have hcolumns : (!(k.name == k'.name && (Definition.id a).toString == id.toString)) = true ↔
        (k', id) ≠ (k, Definition.id a) := by
      rw [Bool.not_eq_true', Bool.and_eq_false_iff, beq_eq_false_iff_ne, beq_eq_false_iff_ne,
        Kind.name_injective.ne_iff, Uuid.toString_injective.ne_iff, ne_eq (k', id), Prod.mk.injEq,
        not_and_or]
      exact or_congr ne_comm ne_comm
    have hput : Write.delete k' id ≠ .put a := by
      intro heq
      cases heq
    simp only [hput, false_or]
    exact (and_congr_right fun _ => hcolumns).trans and_comm

theorem has_put (db : Database) (a : k.Payload) : (db.put a).1.Has a :=
  (has_write_iff (w := .put a)).mpr (.inl rfl)

/-- A definition stays when another one is put. -/
theorem Has.put (h : db.Has a) (hother : (k', Definition.id a') ≠ (k, Definition.id a)) :
    (db.put a').1.Has a := (has_write_iff (w := .put a')).mpr (.inr ⟨hother, h⟩)

/-- **What a database has** after any operations are the definitions that stand. -/
theorem has_after_iff (operations : List Operation) :
    (after operations).Has a ↔ Stands (operations.flatMap Operation.writes) a := by
  have hwrite : ∀ (db : Database) (w : Write), (db.write w).Has a ↔
      w = .put a ∨ w.place ≠ (k, Definition.id a) ∧ db.Has a := fun _ _ => has_write_iff
  have hempty : ¬ empty.Has a := nofun
  rw [after_eq]
  exact (foldl_iff_prevails_of_not (P := fun db : Database => db.Has a) hwrite hempty _).trans
    prevails_eq_iff

/-! ## Kinds apart -/

theorem exists_mirrors_write (h : ∃ t, db.Mirrors k t) (w : Write) :
    ∃ t, (db.write w).Mirrors k t := by
  obtain ⟨t, ht⟩ := h
  cases w with
  | @put k' a =>
    by_cases hk : k' = k
    · subst hk
      exact ⟨_, ht.put a⟩
    · exact ⟨_, ht.put_other hk a⟩
  | delete k' id =>
    by_cases hk : k' = k
    · subst hk
      exact ⟨_, ht.delete id⟩
    · exact ⟨_, ht.delete_other hk id⟩

/-- A database is that of a table of records after any writes, for every kind. -/
theorem exists_mirrors_writes (writes : List Write) (k : Kind) (h : ∃ t, db.Mirrors k t) :
    ∃ t, (writes.foldl write db).Mirrors k t := by
  induction writes generalizing db with
  | nil => exact h
  | cons w rest ih => exact ih (exists_mirrors_write h w)

theorem exists_mirrors_after (operations : List Operation) (k : Kind) :
    ∃ t, (after operations).Mirrors k t :=
  after_eq operations ▸ exists_mirrors_writes _ k ⟨_, mirrors_empty k⟩

theorem Keyed.write (h : db.Keyed) (w : Write) : (db.write w).Keyed := by
  cases w with
  | put a => exact h.put a
  | delete k id => exact h.delete k id

/-- A write of another kind leaves the rows of a kind as they are. -/
theorem rows_write (h : db.Keyed) {w : Write} (hother : w.place.1 ≠ k) :
    (db.write w).rows k = db.rows k := by
  have hrows : ((db.write w).definitions.entries.filter fun e => e.2.kind == k.name) =
      db.definitions.entries.filter fun e => e.2.kind == k.name := by
    cases w with
    | put a => exact filter_kind_put h hother a
    | delete k' id => exact filter_kind_delete hother id
  rw [rows, rows, hrows]

theorem rows_writes (h : db.Keyed) {writes : List Write} (hother : ∀ w ∈ writes, w.place.1 ≠ k) :
    (writes.foldl write db).rows k = db.rows k := by
  induction writes generalizing db with
  | nil => rfl
  | cons w rest ih =>
    obtain ⟨hfirst, hrest⟩ := List.forall_mem_cons.mp hother
    rw [List.foldl_cons, ih (h.write w) hrest, rows_write h hfirst]

/-- **Whatever has been done to a database, it answers from what stands**: under every kind it gives
the last definition of each identifier that was put, and not deleted since, in its own record.
What is done to other kinds does not change the answers about a kind, and an import counts the
definitions of its bundle. -/
theorem answers_from_what_stands (operations : List Operation) :
    (∀ k, ((after operations).store k).AnswersFrom fun a : k.Payload =>
      Stands (operations.flatMap Operation.writes) a) ∧
    (∀ (operation : Operation) k, (∀ w ∈ operation.writes, w.place.1 ≠ k) →
      (after (operations ++ [operation])).store k = (after operations).store k) ∧
    ∀ b : Bundle, ((after operations).importBundle b).2 = b.size := by
  refine ⟨fun k => ?_, fun operation k hother => ?_, fun b => by rw [importBundle_eq]⟩
  · obtain ⟨t, ht⟩ := exists_mirrors_after operations k
    have hstands : (after operations).Has = fun a : k.Payload =>
        Stands (operations.flatMap Operation.writes) a := funext fun a =>
      propext (has_after_iff operations)
    exact hstands ▸ ht.answersFrom
  · obtain ⟨t, ht⟩ := exists_mirrors_after operations k
    rw [after, List.foldl_append, List.foldl_cons, List.foldl_nil, perform_eq]
    exact store_congr (rows_writes ht.keyed hother)

/-- A workflow, and two signals with its identifier, one after the other. -/
def sharing : List Operation :=
  [.write (.put onboarding),
    .importBundle { Bundle.empty with signals := [⟨.ofNat 1, "opened"⟩, ⟨.ofNat 1, "reopened"⟩] }]

/-- The second signal is in the place of the first one.  The workflow is beside it, and stays there
when the signal is deleted. -/
theorem answers_from_what_stands_sharedId :
    ((after sharing).store .signal).get (.ofNat 1) =
        .ok (some (Record.of (Signal.mk (.ofNat 1) "reopened"))) ∧
      ((after sharing).store .workflow).get (.ofNat 1) = .ok (some (Record.of onboarding)) ∧
      (after (sharing ++ [.write (.delete .signal (.ofNat 1))])).store .workflow =
        (after sharing).store .workflow := by
  obtain ⟨hanswers, hapart, -⟩ := answers_from_what_stands sharing
  refine ⟨?_, ?_, hapart _ .workflow fun w hw => ?_⟩
  · obtain ⟨found, hget, hfound⟩ := (hanswers .signal).get (.ofNat 1)
    have hstands : Stands (sharing.flatMap Operation.writes)
        (k := .signal) ⟨.ofNat 1, "reopened"⟩ :=
      ⟨[.put onboarding, .put (k := .signal) ⟨.ofNat 1, "opened"⟩], [], rfl, nofun⟩
    rw [hget, (hfound _).mpr ⟨_, hstands, rfl, rfl⟩]
    rfl
  · obtain ⟨found, hget, hfound⟩ := (hanswers .workflow).get (.ofNat 1)
    have hstands : Stands (sharing.flatMap Operation.writes) onboarding :=
      ⟨[], [.put (k := .signal) ⟨.ofNat 1, "opened"⟩, .put (k := .signal) ⟨.ofNat 1, "reopened"⟩],
        rfl, by simp [Write.place]⟩
    rw [hget, (hfound _).mpr ⟨_, hstands, rfl, rfl⟩]
    rfl
  · rw [List.mem_singleton.mp hw]
    decide

end Database

end Signpost

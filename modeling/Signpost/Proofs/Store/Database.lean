import Signpost.Proofs.Query.PushDown
import Signpost.Proofs.Store.Holdings
import Signpost.Store.Database

/-!
# The database against tables of records

For each kind the database is a table of records: it has a row for every record, and gives the
records back in the same order, however the definitions of all kinds came and went.  A filter that
is mere code selects from it as from the table.  A filter with an expression may miss records, for
the database's own condition comes first: it misses none along straight paths, and none unless the
expression accepts them because a comparison fails.

## Main definitions

* `Database.Keyed`: every row has the key of its own kind and identifier.
* `Database.Mirrors`: the rows of a kind are those of a table of records.
* `Database.Filled`: a database with the records of a kind that have been put into it.

## Main results

* `Database.rowKey_inj`, `Database.rowKey_le_iff`: what keys of rows tell apart, and their order.
* `Database.Mirrors.put`, `Database.Mirrors.put_other`, `Database.Mirrors.delete`,
  `Database.Mirrors.delete_other`
* `Database.Mirrors.rows_eq`, `Database.Mirrors.query_eq`: what is read back.
* `Database.Filled.query_up_to_pushed`: what a query gives, and what it may miss.
-/

namespace Signpost

/-! ## Entries under a condition -/

namespace Dict

variable {κ υ κ' υ' : Type} [DecidableEq κ] [DecidableEq κ'] {key : κ} {value : υ}

/-- An entry is put among those that satisfy a condition if it does so itself and the entry that it
replaces does too. -/
theorem filter_putEntry_of_pos {p : κ × υ → Bool} (hp : p (key, value) = true)
    {entries : List (κ × υ)} (hold : ∀ e ∈ entries, e.1 = key → p e = true) :
    (putEntry key value entries).filter p = putEntry key value (entries.filter p) := by
  induction entries with
  | nil => simp [putEntry, hp]
  | cons e rest ih =>
    obtain ⟨hfirst, hrest⟩ := List.forall_mem_cons.mp hold
    obtain ⟨k, v⟩ := e
    by_cases hk : k = key
    · simp [putEntry, hk, hp, hk ▸ hfirst hk]
    · rw [putEntry, if_neg hk, List.filter_cons, List.filter_cons, ih hrest]
      cases p (k, v) <;> simp [putEntry, hk]

/-- Putting an entry changes nothing among those that satisfy a condition if it does not, and the
entry that it replaces does not either. -/
theorem filter_putEntry_of_neg {p : κ × υ → Bool} (hp : p (key, value) = false)
    {entries : List (κ × υ)} (hold : ∀ e ∈ entries, e.1 = key → p e = false) :
    (putEntry key value entries).filter p = entries.filter p := by
  induction entries with
  | nil => simp [putEntry, hp]
  | cons e rest ih =>
    obtain ⟨hfirst, hrest⟩ := List.forall_mem_cons.mp hold
    obtain ⟨k, v⟩ := e
    by_cases hk : k = key
    · simp [putEntry, hk, hp, hk ▸ hfirst hk]
    · rw [putEntry, if_neg hk, List.filter_cons, List.filter_cons, ih hrest]

/-- Entries that are renamed by an injection are put in the same places. -/
theorem map_putEntry {f : κ → κ'} (hf : f.Injective) (g : υ → υ') (entries : List (κ × υ)) :
    (putEntry key value entries).map (fun e => (f e.1, g e.2)) =
      putEntry (f key) (g value) (entries.map fun e => (f e.1, g e.2)) := by
  induction entries with
  | nil => rfl
  | cons e rest ih =>
    obtain ⟨k, v⟩ := e
    by_cases hk : k = key
    · subst hk
      simp [putEntry]
    · rw [putEntry, if_neg hk, List.map_cons, ih, List.map_cons, putEntry, if_neg (hf.ne hk)]

theorem mem_of_mem_putEntry {e : κ × υ} {entries : List (κ × υ)}
    (h : e ∈ putEntry key value entries) : e = (key, value) ∨ e ∈ entries := by
  induction entries with
  | nil => exact .inl (List.mem_singleton.mp h)
  | cons e' rest ih =>
    obtain ⟨k, v⟩ := e'
    rw [putEntry] at h
    split at h
    · exact (List.mem_cons.mp h).imp_right (List.mem_cons_of_mem _)
    · rcases List.mem_cons.mp h with rfl | h
      · exact .inr List.mem_cons_self
      · exact (ih h).imp_right (List.mem_cons_of_mem _)

end Dict

theorem Kind.name_injective : Function.Injective Kind.name := by
  intro k k' h
  have hkind := congrArg ofName? h
  rw [ofName?_name, ofName?_name] at hkind
  exact Option.some.inj hkind

namespace Database

variable {k : Kind} {db : Database} {t : RecordTable k.Payload}

/-! ## Keys of rows -/

theorem toList_rowKey (k : Kind) (id : Uuid) :
    (rowKey k id).toList = k.name.toList ++ '_' :: Uuid.digits 32 id.bits.toNat := by
  simp [rowKey, Uuid.plain]

/-- Definitions of different kinds, or with different identifiers, have different keys. -/
theorem rowKey_inj {k k' : Kind} {id id' : Uuid} (h : rowKey k id = rowKey k' id') :
    k = k' ∧ id = id' := by
  have hlists := congrArg String.toList h
  rw [toList_rowKey, toList_rowKey] at hlists
  -- whatever the kinds are called, the digits are the last 32 characters
  obtain ⟨hkind, htail⟩ := List.append_inj' hlists (by simp)
  exact ⟨Kind.name_injective (String.toList_inj.mp hkind),
    Uuid.digits_injective (List.cons.inj htail).2⟩

theorem rowKey_injective (k : Kind) : Function.Injective (rowKey k) := fun _ _ h =>
  (rowKey_inj h).2

theorem rowKey_lt (k : Kind) {id id' : Uuid} (h : id.bits.toNat < id'.bits.toNat) :
    rowKey k id < rowKey k id' := by
  have hrange : ∀ u : Uuid, u.bits.toNat % 16 ^ 32 = u.bits.toNat := fun u =>
    Nat.mod_eq_of_lt u.bits.isLt
  show (rowKey k id).toList < (rowKey k id').toList
  rw [toList_rowKey, toList_rowKey]
  refine List.append_left_lt (List.cons_lt_cons_iff.mpr (.inr ⟨rfl, ?_⟩))
  exact Uuid.digits_lt_digits (by rwa [hrange, hrange])

/-- The keys of a kind are ordered as the identifiers are. -/
theorem rowKey_le_iff (k : Kind) (id id' : Uuid) :
    rowKey k id ≤ rowKey k id' ↔ id.le id' = true := by
  rw [Uuid.le, decide_eq_true_iff]
  rcases Nat.lt_trichotomy id.bits.toNat id'.bits.toNat with hlt | heq | hgt
  · exact iff_of_true (String.not_lt.mp (String.lt_asymm (rowKey_lt k hlt))) (Nat.le_of_lt hlt)
  · have hid : id = id' := congrArg Uuid.mk (BitVec.eq_of_toNat_eq heq)
    rw [hid]
    exact iff_of_true (String.le_refl _) (Nat.le_refl _)
  · exact iff_of_false (String.not_le.mpr (rowKey_lt k hgt)) (Nat.not_le.mpr hgt)

/-- Every row is under the key of its own kind and identifier. -/
def Keyed (db : Database) : Prop :=
  ∀ e ∈ db.definitions.entries, ∃ k id,
    e.1 = rowKey k id ∧ e.2.kind = k.name ∧ e.2.uid = id.toString

theorem keyed_empty : empty.Keyed := nofun

theorem Keyed.put (h : db.Keyed) (a : k.Payload) : (db.put a).1.Keyed := by
  intro e he
  rcases Dict.mem_of_mem_putEntry he with rfl | he
  · exact ⟨k, Definition.id a, rfl, rfl, rfl⟩
  · exact h e he

theorem Keyed.delete (h : db.Keyed) (k : Kind) (id : Uuid) : (db.delete k id).Keyed :=
  fun e he => h e (List.mem_of_mem_filter he)

/-- The row that is replaced is of the same kind. -/
theorem Keyed.kind_eq (h : db.Keyed) {e : String × DefinitionRow}
    (he : e ∈ db.definitions.entries) {id : Uuid} (hkey : e.1 = rowKey k id) :
    e.2.kind = k.name := by
  obtain ⟨k', id', hkey', hkind, -⟩ := h e he
  rw [hkind, (rowKey_inj (hkey'.symm.trans hkey)).1]

/-! ## Rows of records -/

/-- The row of a record of a kind, as it is put. -/
def rowOf (k : Kind) (r : Record k.Payload) : DefinitionRow := ⟨r.toRow, k.name⟩

/-- The entry of a record of a kind. -/
def entryOf (k : Kind) (e : Uuid × Record k.Payload) : String × DefinitionRow :=
  (rowKey k e.1, rowOf k e.2)

/-- The rows of a kind are those of a table of records, in the order in which they came. -/
structure Mirrors (db : Database) (k : Kind) (t : RecordTable k.Payload) : Prop where
  works : t.failure = none
  tagged : t.Tagged
  keyed : db.Keyed
  entries : (db.definitions.entries.filter fun e => e.2.kind == k.name) =
    t.records.entries.map (entryOf k)

theorem mirrors_empty (k : Kind) : empty.Mirrors k .empty :=
  ⟨rfl, RecordTable.tagged_empty, keyed_empty, rfl⟩

/-- The rows of a kind stay as they are when a definition of another kind is put. -/
theorem filter_kind_put (h : db.Keyed) {k' : Kind} (hother : k' ≠ k) (a : k'.Payload) :
    ((db.put a).1.definitions.entries.filter fun e => e.2.kind == k.name) =
      db.definitions.entries.filter fun e => e.2.kind == k.name := by
  have hname : (k'.name == k.name) = false := beq_eq_false_iff_ne.mpr (Kind.name_injective.ne hother)
  exact Dict.filter_putEntry_of_neg hname fun e he hkey => by rw [h.kind_eq he hkey, hname]

/-- The rows of a kind stay as they are when a definition of another kind is deleted. -/
theorem filter_kind_delete {k' : Kind} (hother : k' ≠ k) (id : Uuid) :
    ((db.delete k' id).definitions.entries.filter fun e => e.2.kind == k.name) =
      db.definitions.entries.filter fun e => e.2.kind == k.name := by
  show (db.definitions.entries.filter _).filter _ = _
  rw [List.filter_filter]
  refine List.filter_congr fun e _ => ?_
  show (e.2.kind == k.name && !(e.2.kind == k'.name && e.2.uid == id.toString)) = _
  cases hkind : e.2.kind == k.name with
  | false => rfl
  | true =>
    rw [beq_iff_eq.mp hkind, beq_eq_false_iff_ne.mpr (Kind.name_injective.ne hother.symm)]
    rfl

namespace Mirrors

theorem put (h : db.Mirrors k t) (a : k.Payload) : (db.put a).1.Mirrors k (t.put a) where
  works := h.works
  tagged := h.tagged.put a
  keyed := h.keyed.put a
  entries := by
    show (Dict.putEntry (rowKey k (Definition.id a)) (rowOf k (Record.of a))
        db.definitions.entries).filter (fun e => e.2.kind == k.name) =
      (Dict.putEntry (Definition.id a) (Record.of a) t.records.entries).map (entryOf k)
    rw [Dict.filter_putEntry_of_pos (beq_self_eq_true k.name) fun e he hkey =>
      beq_iff_eq.mpr (h.keyed.kind_eq he hkey), h.entries]
    -- among the entries of its own kind it goes where the table puts its record
    exact (Dict.map_putEntry (rowKey_injective k) (rowOf k) t.records.entries).symm

theorem put_other (h : db.Mirrors k t) {k' : Kind} (hother : k' ≠ k) (a : k'.Payload) :
    (db.put a).1.Mirrors k t :=
  ⟨h.works, h.tagged, h.keyed.put a, (filter_kind_put h.keyed hother a).trans h.entries⟩

theorem delete (h : db.Mirrors k t) (id : Uuid) : (db.delete k id).Mirrors k (t.delete id).1 where
  works := h.works
  tagged := h.tagged.delete id
  keyed := h.keyed.delete k id
  entries := by
    show ((db.definitions.entries.filter fun e =>
        !(e.2.kind == k.name && e.2.uid == id.toString)).filter fun e => e.2.kind == k.name) =
      (t.records.entries.filter fun e => decide (e.1 ≠ id)).map (entryOf k)
    rw [List.filter_comm, h.entries, List.filter_map]
    refine congrArg (List.map _) (List.filter_congr fun e he => ?_)
    -- the column of the identifier tells the records as their identifiers do
    show (!(k.name == k.name && e.2.id.toString == id.toString)) = decide (e.1 ≠ id)
    rw [(h.tagged.of_mem_entries he).2, beq_self_eq_true, Bool.true_and, Bool.eq_iff_iff]
    simp [Uuid.toString_injective.eq_iff]

theorem delete_other (h : db.Mirrors k t) {k' : Kind} (hother : k' ≠ k) (id : Uuid) :
    (db.delete k' id).Mirrors k t :=
  ⟨h.works, h.tagged, h.keyed.delete k' id, (filter_kind_delete hother id).trans h.entries⟩

/-- The rows are those of the records, in the order of the table. -/
theorem rows_eq (h : db.Mirrors k t) : db.rows k = t.all.map Record.toRow := by
  -- rows and records are sorted by the same identifiers, before or after they are made
  have hrows : (t.records.entries.mergeSort fun e e' => e.1.le e'.1).map (entryOf k) =
      (t.records.entries.map (entryOf k)).mergeSort fun e e' => decide (e.1 ≤ e'.1) :=
    List.map_mergeSort fun e _ e' _ => by
      rw [Bool.eq_iff_iff, decide_eq_true_iff]
      exact (rowKey_le_iff k e.1 e'.1).symm
  have hall : (t.records.entries.mergeSort fun e e' => e.1.le e'.1).map Prod.snd = t.all :=
    List.map_mergeSort fun e he e' he' => by
      rw [(h.tagged.of_mem_entries he).2, (h.tagged.of_mem_entries he').2]
  rw [rows, h.entries, ← hrows, ← hall, List.map_map, List.map_map]
  rfl

theorem eq_of (h : db.Mirrors k t) {r : Record k.Payload} (hr : r ∈ t.all) :
    r = Record.of r.payload := by
  obtain ⟨e, he, rfl⟩ := List.mem_map.mp ((List.mergeSort_perm _ _).mem_iff.mp hr)
  exact (h.tagged.of_mem_entries he).1

/-- The records of rows are those of the table, so that none fails to be read back. -/
theorem select_eq (h : db.Mirrors k t) (p : StoredRow → Bool) :
    db.select k p = .ok (t.all.filter fun r => p r.toRow) := by
  -- induction over the rows, all of which were made from records
  have hread : ∀ records : List (Record k.Payload), (∀ r ∈ records, r = Record.of r.payload) →
      (records.map Record.toRow).mapM (StoredRow.toRecord (α := k.Payload)) = .ok records := by
    intro records hrecords
    induction records with
    | nil => rfl
    | cons r rest ih =>
      obtain ⟨hr, hrest⟩ := List.forall_mem_cons.mp hrecords
      rw [List.map_cons, List.mapM_cons, ih hrest, hr, Record.toRecord_toRow]
      rfl
  rw [select, h.rows_eq, List.filter_map,
    hread _ fun _ hr => h.eq_of (List.mem_of_mem_filter hr)]
  rfl

/-- A query gives those records that satisfy its condition, if it has one, and that it selects. -/
theorem query_eq (h : db.Mirrors k t) (f : Filter k.Payload) :
    (db.store k).query f = .ok ((t.all.filter fun r => candidates f r.toRow).filter
      fun r => Definition.matches f r.payload) := by
  simp only [store, h.select_eq]
  rfl

end Mirrors

/-- A bundle is imported kind by kind, and every definition of it is counted. -/
theorem importBundle_eq (db : Database) (b : Bundle) :
    db.importBundle b = (Kind.all.foldl (fun db k => (db.putAll (b.ofKind k)).1) db, b.size) := by
  simp [importBundle, Kind.all, putAll, Bundle.ofKind, Bundle.size]

/-! ## Databases that have been filled -/

/-- A database after some definitions of all kinds have been put and deleted, and the table of the
records of one kind after the same. -/
inductive Filled (k : Kind) : Database → RecordTable k.Payload → Prop
  | empty : Filled k .empty .empty
  | put {db : Database} {t : RecordTable k.Payload} (h : Filled k db t) (a : k.Payload) :
      Filled k (db.put a).1 (t.put a)
  | putOther {db : Database} {t : RecordTable k.Payload} (h : Filled k db t) {k' : Kind}
      (hother : k' ≠ k) (a : k'.Payload) : Filled k (db.put a).1 t
  | delete {db : Database} {t : RecordTable k.Payload} (h : Filled k db t) (id : Uuid) :
      Filled k (db.delete k id) (t.delete id).1
  | deleteOther {db : Database} {t : RecordTable k.Payload} (h : Filled k db t) {k' : Kind}
      (hother : k' ≠ k) (id : Uuid) : Filled k (db.delete k' id) t

theorem Filled.mirrors (h : Filled k db t) : db.Mirrors k t := by
  induction h with
  | empty => exact mirrors_empty k
  | put _ a ih => exact ih.put a
  | putOther _ hother a ih => exact ih.put_other hother a
  | delete _ id ih => exact ih.delete id
  | deleteOther _ hother id ih => exact ih.delete_other hother id

/-- A filter that cannot be pushed down has every row for a candidate. -/
theorem candidates_of_eq_none {e : Filter.Expr} (h : Query.ofExpr? e = none) (row : StoredRow) :
    candidates (.expr e : Filter k.Payload) row = true := by
  simp only [candidates, Filter.expr?, Option.bind_some, h]

/-- A filter that can be pushed down has those definitions for candidates that satisfy its
condition. -/
theorem candidates_of_eq_some {e : Filter.Expr} {b : Query.Bound} (h : Query.ofExpr? e = some b)
    (a : k.Payload) :
    candidates (.expr e : Filter k.Payload) (Record.of a).toRow =
      b.holds (Definition.toJson a) := by
  simp only [candidates, Filter.expr?, Option.bind_some, h]
  rfl

/-- A definition that is accepted is a candidate if the comparisons that have to fail are made along
straight paths. -/
theorem candidates_of_straight {e : Filter.Expr} {a : k.Payload}
    (haccepts : e.accepts (Definition.toJson a) = true)
    (hstraight : ∀ field ∈ e.denied false,
      Path.Straight (Definition.toJson a) (Path.segments field)) :
    candidates (.expr e : Filter k.Payload) (Record.of a).toRow = true := by
  cases hcondition : Query.ofExpr? e with
  | none => exact candidates_of_eq_none hcondition _
  | some b =>
    rw [candidates_of_eq_some hcondition]
    exact Query.holds_of_accepts (worded_toJson a) hcondition hstraight haccepts

/-- **What a query gives, and what it may miss**.  A query never fails on what has been put.  By a
filter that is mere code it gives exactly the records that the code selects.  By an expression it
gives none but records that the expression accepts, each once and in order; and it gives those, if
the expression cannot be pushed down, or if the paths of those of its comparisons that have to fail
go into arrays by positions only. -/
theorem Filled.query_up_to_pushed (h : Filled k db t) :
    (∀ predicate, (db.store k).query (.code predicate) =
      .ok (t.all.filter fun r => predicate r.payload)) ∧
    ∀ e : Filter.Expr, ∃ found, (db.store k).query (.expr e) = .ok found ∧
      found.Sublist (t.all.filter fun r => e.accepts (Definition.toJson r.payload)) ∧
      (∀ r ∈ t.all, e.accepts (Definition.toJson r.payload) = true →
        (Query.ofExpr? e = none ∨ ∀ field ∈ e.denied false,
          Path.Straight (Definition.toJson r.payload) (Path.segments field)) → r ∈ found) ∧
      ((Query.ofExpr? e = none ∨ ∀ r ∈ t.all, ∀ field ∈ e.denied false,
          Path.Straight (Definition.toJson r.payload) (Path.segments field)) →
        found = t.all.filter fun r => e.accepts (Definition.toJson r.payload)) := by
  have hmirrors := h.mirrors
  have hcandidate : ∀ (e : Filter.Expr) (r : Record k.Payload), r ∈ t.all →
      e.accepts (Definition.toJson r.payload) = true →
      (Query.ofExpr? e = none ∨ ∀ field ∈ e.denied false,
        Path.Straight (Definition.toJson r.payload) (Path.segments field)) →
      candidates (.expr e : Filter k.Payload) r.toRow = true := by
    intro e r hr haccepts hpaths
    rcases hpaths with hnone | hstraight
    · exact candidates_of_eq_none hnone r.toRow
    · rw [hmirrors.eq_of hr]
      exact candidates_of_straight haccepts hstraight
  refine ⟨fun predicate => ?_, fun e => ⟨_, hmirrors.query_eq (.expr e), ?_, ?_, fun hpaths => ?_⟩⟩
  -- mere code has no condition, so that every row is a candidate
  · rw [hmirrors.query_eq]
    refine congrArg Except.ok (congrArg (List.filter _) ?_)
    exact List.filter_eq_self.mpr fun _ _ => rfl
  · exact List.filter_sublist.filter _
  · intro r hr haccepts hpaths
    exact List.mem_filter.mpr
      ⟨List.mem_filter.mpr ⟨hr, hcandidate e r hr haccepts hpaths⟩, haccepts⟩
  · rw [List.filter_filter]
    refine List.filter_congr fun r hr => ?_
    show (e.accepts (Definition.toJson r.payload) && candidates _ r.toRow) = _
    cases haccepts : e.accepts (Definition.toJson r.payload) with
    | false => rfl
    | true => exact hcandidate e r hr haccepts (hpaths.imp_right fun hall => hall r hr)

/-- A workflow with one stage. -/
def onboarding : Kind.Payload .workflow := Workflow.mk (.ofNat 1) "onboarding" ["draft"]

/-- The database with this workflow alone. -/
def onboarded : Database := (empty.put onboarding).1

/-- The record of the workflow alone. -/
def onboardedTable : RecordTable (Kind.Payload .workflow) := RecordTable.empty.put onboarding

theorem filled_onboarded : Filled .workflow onboarded onboardedTable := .put .empty onboarding

theorem all_onboardedTable : onboardedTable.all = [Record.of onboarding] :=
  List.mergeSort_singleton _

/-- A comparison that has to fail along a straight path. -/
theorem query_up_to_pushed_otherName :
    ∃ found, (onboarded.store .workflow).query
      (.expr (.not (.eq "display_name" (.string "offboarding")))) = .ok found ∧
      Record.of onboarding ∈ found := by
  obtain ⟨found, hquery, -, hfound, -⟩ :=
    filled_onboarded.query_up_to_pushed.2 (.not (.eq "display_name" (.string "offboarding")))
  refine ⟨found, hquery, hfound _ (all_onboardedTable ▸ List.mem_singleton_self _) rfl (.inr ?_)⟩
  intro field hfield
  obtain rfl := List.mem_singleton.mp hfield
  have hfind : Path.find? (Definition.toJson onboarding) "display_name" =
    some (.string "onboarding") := rfl
  exact Path.straight_of_find? hfind

/-- **A query can miss a record that its own filter selects**: no stage has a name, but the array of
their names is there. -/
theorem pushed_query_misses_record :
    ∃ db t e, Filled .workflow db t ∧ (db.store .workflow).query (.expr e) = .ok [] ∧
      (db.store .workflow).query (.code fun w => e.accepts (Definition.toJson w)) =
        .ok [Record.of onboarding] := by
  have hcondition : Query.ofExpr? (.not (.exists "stages.name")) =
      some ⟨.negation (.conjunction [.unequal [.member "stages", .member "name"] .nothing,
        .unequal [.member "stages", .member "name"] .null]), []⟩ := rfl
  have hmissed : candidates (.expr (.not (.exists "stages.name")) : Filter (Kind.Payload .workflow))
      (Record.of onboarding).toRow = false :=
    (candidates_of_eq_some hcondition onboarding).trans rfl
  have haccepts : (Filter.Expr.not (.exists "stages.name")).accepts
      (Definition.toJson onboarding) = true := rfl
  refine ⟨onboarded, onboardedTable, .not (.exists "stages.name"), filled_onboarded, ?_, ?_⟩
  · rw [filled_onboarded.mirrors.query_eq, all_onboardedTable,
      List.filter_cons_of_neg (by rw [hmissed]; exact Bool.false_ne_true)]
    rfl
  · rw [filled_onboarded.query_up_to_pushed.1, all_onboardedTable]
    exact congrArg Except.ok (List.filter_cons_of_pos haccepts)

end Database

end Signpost

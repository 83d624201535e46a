import Signpost.Proofs.Redirection.Index

/-!
# Restored registries

The rules of a registry are stored in the order of their identifiers.  Rules of a well-formed table
are all taken when they are put into an empty one, for none of them conflicts with another, and the
table that they make has the same rules.

## Main definitions

* `Rule.Compatible`: neither of two rules keeps the other from being put in.

## Main results

* `RuleTable.pushAll_of_compatible`: compatible rules are all taken, and kept in their order.
* `RuleTable.WellFormed.compatible_all`: the rules of a well-formed table are compatible.
* `Registry.ofParts_all`: a registry comes back from its rules and its version.
-/

namespace Signpost.Redirection

/-- Neither of two rules keeps the other one from being put in. -/
structure Rule.Compatible (r s : Rule) : Prop where
  ids : r.id ≠ s.id
  agree : r.conflictsWith s = false

namespace RuleTable

variable {t : RuleTable} {rule : Rule} {rules : List Rule}

/-- A rule that is compatible with all registered rules is put in. -/
theorem push_of_compatible (h : t.Exact)
    (hfree : ∀ known ∈ t.rules.values, known.Compatible rule) :
    t.rules.get? rule.id = none ∧ t.push rule = .ok (t.insert rule, true) := by
  have hvalue : ∀ {id known}, t.rules.get? id = some known → known ∈ t.rules.values :=
    fun {id known} hget =>
      List.mem_map.mpr ⟨(id, known), (t.rules.mem_entries_iff id known).mpr hget, rfl⟩
  rcases t.push_cases rule with
    ⟨⟨known, hknown⟩, -⟩ | ⟨hnew, -, heq⟩ | ⟨-, known, hmem, hconflict, -⟩
  · exact absurd (h.keyed hknown) (hfree known (hvalue hknown)).ids
  · exact ⟨hnew, heq⟩
  · have hfound := (h.mem_rulesFor.mp hmem).1
    simp [(hfree known (hvalue hfound)).agree] at hconflict

/-- Compatible rules are all taken, and kept in the order in which they came. -/
theorem pushAll_of_compatible (h : t.Exact) (hrules : (t.rules.values ++ rules).Pairwise
    Rule.Compatible) :
    ∃ changed t', t.pushAll rules = (.ok changed, t') ∧
      t'.rules.values = t.rules.values ++ rules := by
  induction rules generalizing t with
  | nil => exact ⟨false, t, rfl, (List.append_nil _).symm⟩
  | cons rule rest ih =>
    have hfree : ∀ known ∈ t.rules.values, known.Compatible rule := fun known hmem =>
      (List.pairwise_append.mp hrules).2.2 known hmem rule List.mem_cons_self
    obtain ⟨hnew, hpush⟩ := push_of_compatible h hfree
    have hvalues : (t.insert rule).rules.values = t.rules.values ++ [rule] := by
      simp only [Dict.values, insert, t.rules.entries_put rule hnew, List.map_append, List.map_cons,
        List.map_nil]
    have hrules' : ((t.insert rule).rules.values ++ rest).Pairwise Rule.Compatible := by
      rwa [hvalues, List.append_assoc, List.singleton_append]
    obtain ⟨changed, t', hrest, hlast⟩ := ih (h.insert hnew) hrules'
    refine ⟨true, t', ?_, ?_⟩
    · simp only [pushAll, hpush, hrest]
      rfl
    · rw [hlast, hvalues, List.append_assoc, List.singleton_append]

@[simp] theorem all_empty : empty.all = [] := by
  simp [all, empty, Dict.values, Dict.empty]

theorem mem_all (h : t.Exact) : rule ∈ t.all ↔ t.rules.get? rule.id = some rule := by
  rw [all, List.mem_mergeSort, Dict.values, List.mem_map]
  constructor
  · rintro ⟨⟨id, known⟩, hmem, rfl⟩
    have hget := (t.rules.mem_entries_iff id known).mp hmem
    rwa [h.keyed hget]
  · intro hget
    exact ⟨(rule.id, rule), (t.rules.mem_entries_iff _ _).mpr hget, rfl⟩

/-- The rules of a table are ordered by identifier. -/
theorem pairwise_all (t : RuleTable) : t.all.Pairwise fun r s => r.id.le s.id :=
  List.pairwise_mergeSort
    (fun a b c hab hbc => by simp only [Uuid.le, decide_eq_true_eq] at hab hbc ⊢; omega)
    (fun a b => by simp only [Uuid.le, Bool.or_eq_true, decide_eq_true_eq]; omega) _

/-- No identifier occurs twice among the rules of a table. -/
theorem nodup_all (h : t.Exact) : (t.all.map Rule.id).Nodup := by
  have hperm : (t.all.map Rule.id).Perm (t.rules.values.map Rule.id) :=
    (List.mergeSort_perm _ _).map _
  have hkeys : t.rules.values.map Rule.id = t.rules.entries.map Prod.fst := by
    rw [Dict.values, List.map_map]
    refine List.map_congr_left fun e hmem => ?_
    exact h.keyed ((t.rules.mem_entries_iff e.1 e.2).mp hmem)
  rw [hperm.nodup_iff, hkeys]
  exact t.rules.distinct

/-- Rules in the order of their identifiers are those of a table if they are the registered ones. -/
theorem Exact.eq_all (h : t.Exact) (hsorted : rules.Pairwise fun r s => r.id.le s.id)
    (hdistinct : (rules.map Rule.id).Nodup)
    (hmem : ∀ rule, rule ∈ rules ↔ t.rules.get? rule.id = some rule) : rules = t.all := by
  have hnodup : ∀ {rules : List Rule}, (rules.map Rule.id).Nodup → rules.Nodup := fun hids =>
    (List.pairwise_map.mp hids).imp fun hne heq => hne (congrArg Rule.id heq)
  have hmem' : ∀ rule, rule ∈ rules ↔ rule ∈ t.all := fun rule => by rw [hmem, mem_all h]
  have hperm : rules.Perm t.all :=
    (List.perm_ext_iff_of_nodup (hnodup hdistinct) (hnodup (nodup_all h))).mpr hmem'
  refine hperm.eq_of_pairwise ?_ hsorted t.pairwise_all
  intro r s hr hs hle hge
  have hid : r.id = s.id := by
    simp only [Uuid.le, decide_eq_true_eq] at hle hge
    exact congrArg Uuid.mk (BitVec.eq_of_toNat_eq (Nat.le_antisymm hle hge))
  have hr' := (hmem r).mp hr
  have hs' := (mem_all h).mp hs
  rw [hid] at hr'
  exact Option.some.inj (hr'.symm.trans hs')

/-- The rules of a well-formed table are compatible. -/
theorem WellFormed.compatible_all (h : t.WellFormed) : t.all.Pairwise Rule.Compatible := by
  have hids : t.all.Pairwise fun r s => r.id ≠ s.id := List.pairwise_map.mp (nodup_all h.exact)
  refine hids.imp_of_mem fun {r s} hr hs hne => ⟨hne, ?_⟩
  have hr' := (mem_all h.exact).mp hr
  have hs' := (mem_all h.exact).mp hs
  rw [← Bool.not_eq_true, Rule.conflictsWith_iff]
  rintro ⟨hsource, hcondition, htarget⟩
  exact htarget (h.consistent _ _ _ _ hr' hs' hsource hcondition)

end RuleTable

/-- A restored registry has the version that was stored. -/
theorem Registry.version_ofParts {rules : List Rule} {version : Version} {r : Registry}
    (h : ofParts rules version = .ok r) : r.version = version := by
  rw [ofParts] at h
  rcases hp : RuleTable.empty.pushAll rules with ⟨_ | changed, table⟩ <;> rw [hp] at h <;> cases h
  rfl

/-- A registry comes back from its rules and its version, though its sources may have their rules in
another order. -/
theorem Registry.ofParts_all {r : Registry} (h : r.table.WellFormed) :
    ∃ r', ofParts r.all r.version = .ok r' ∧ r'.snapshot = r.snapshot := by
  have hrules : (RuleTable.empty.rules.values ++ r.all).Pairwise Rule.Compatible :=
    h.compatible_all
  obtain ⟨changed, table, hpush, hvalues⟩ :=
    RuleTable.pushAll_of_compatible RuleTable.exact_empty hrules
  refine ⟨⟨table, r.version⟩, ?_, ?_⟩
  · rw [ofParts, hpush]
    rfl
  · have hall : table.all = r.all := by
      rw [RuleTable.all, hvalues]
      exact List.mergeSort_of_pairwise r.table.pairwise_all
    exact congrArg (Snapshot.mk r.version) hall

end Signpost.Redirection

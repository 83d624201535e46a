import Signpost.Proofs.Redirection.Batch
import Signpost.Proofs.Redirection.Lockstep
import Signpost.Proofs.Redirection.Restore

/-!
# Removals

A removal takes out the rules with the given identifiers and leaves all others where they are, also
among the rules of their sources.  So a batch of new rules that is removed again leaves no trace in
a registry: its rules and their order are those from before, and every later call is answered as if
the batch had never been put in, down to the rule that a refusal names.

## Main definitions

* `RuleTable.Interchangeable`: two tables have the same rules in the same order.
* `Registry.answers`: the verdicts of calls one after another.

## Main results

* `RuleTable.get?_removeAll`, `RuleTable.all_removeAll`, `RuleTable.rulesFor_removeAll`: what is
  left.
* `RuleTable.interchangeable_removeAll`: a batch that is removed again.
* `Registry.answers_eq`: interchangeable tables answer every call alike.
* `Registry.removal_leaves_no_trace`
-/

namespace Signpost.Redirection

namespace RuleTable

variable {t u : RuleTable} {rule : Rule} {rules : List Rule} {ids : List Uuid}

/-! ## What is left -/

theorem get?_remove (t : RuleTable) (id other : Uuid) :
    (t.remove id).1.rules.get? other = if other = id then none else t.rules.get? other := by
  rcases t.remove_cases id with ⟨hnone, heq⟩ | ⟨rule, -, heq⟩ <;> rw [heq]
  · split
    · next hid => rw [hid, hnone]
    · rfl
  · exact get?_without t id other rule.source

/-- The rules with the given identifiers are gone, and no others. -/
theorem get?_removeAll (t : RuleTable) (ids : List Uuid) (id : Uuid) :
    (t.removeAll ids).1.rules.get? id = if id ∈ ids then none else t.rules.get? id := by
  induction ids generalizing t with
  | nil => rfl
  | cons first rest ih =>
    show ((t.remove first).1.removeAll rest).1.rules.get? id = _
    rw [ih, get?_remove]
    grind

/-- A removal says whether it has taken anything out. -/
theorem removeAll_snd_iff (t : RuleTable) (ids : List Uuid) :
    (t.removeAll ids).2 = true ↔ ∃ id ∈ ids, (t.rules.get? id).isSome = true := by
  induction ids generalizing t with
  | nil => simp [removeAll]
  | cons first rest ih =>
    show ((t.remove first).2 || ((t.remove first).1.removeAll rest).2) = true ↔ _
    rw [Bool.or_eq_true, ih]
    rcases t.remove_cases first with ⟨hnone, heq⟩ | ⟨rule, hget, heq⟩ <;> rw [heq]
    · simp [hnone]
    · simp [hget]

/-- What is listed under a source stays listed there in its order, apart from the rule that is taken
out: that one is listed under its own source alone. -/
theorem Exact.idsFor_remove (h : t.Exact) (id : Uuid) (source : String) :
    (t.remove id).1.idsFor source = (t.idsFor source).filter fun other => decide (other ≠ id) := by
  have hkept : id ∉ t.idsFor source →
      t.idsFor source = (t.idsFor source).filter fun other => decide (other ≠ id) := by
    intro hmem
    refine (List.filter_eq_self.mpr fun other hother => ?_).symm
    exact decide_eq_true fun heq => hmem (heq ▸ hother)
  rcases t.remove_cases id with ⟨hnone, heq⟩ | ⟨rule, hget, heq⟩ <;> rw [heq]
  · exact hkept (h.not_mem_idsFor hnone source)
  · rw [idsFor_without]
    split
    · rfl
    · next hsource => exact hkept fun hmem => hsource ((h.mem_idsFor hget).mp hmem)

theorem WellFormed.idsFor_removeAll (h : t.WellFormed) (ids : List Uuid) (source : String) :
    (t.removeAll ids).1.idsFor source = (t.idsFor source).filter fun id => decide (id ∉ ids) := by
  induction ids generalizing t with
  | nil => exact (List.filter_eq_self.mpr (by simp)).symm
  | cons first rest ih =>
    show ((t.remove first).1.removeAll rest).1.idsFor source = _
    rw [ih (h.remove first), h.exact.idsFor_remove, List.filter_filter]
    congr 1
    funext id
    grind

/-- The rules that are left under a source are in the order in which they were. -/
theorem WellFormed.rulesFor_removeAll (h : t.WellFormed) (ids : List Uuid) (source : String) :
    (t.removeAll ids).1.rulesFor source =
      (t.rulesFor source).filter fun rule => decide (rule.id ∉ ids) := by
  rw [rulesFor, h.idsFor_removeAll, rulesFor, List.filterMap_filter, List.filter_filterMap]
  congr 1
  funext id
  rw [get?_removeAll]
  cases hget : t.rules.get? id with
  | none => simp
  | some rule =>
    rw [Option.filter_some, h.exact.keyed hget]
    grind

theorem WellFormed.all_removeAll (h : t.WellFormed) (ids : List Uuid) :
    (t.removeAll ids).1.all = t.all.filter fun rule => decide (rule.id ∉ ids) := by
  have hleft : (t.removeAll ids).1.WellFormed :=
    removeAll_induction (fun _ id h => h.remove id) ids h
  refine (hleft.exact.eq_all (t.pairwise_all.filter _) ?_ fun rule => ?_).symm
  · exact (List.filter_sublist.map Rule.id).nodup (nodup_all h.exact)
  · rw [List.mem_filter, mem_all h.exact, get?_removeAll]
    grind

/-! ## Interchangeable tables -/

/-- Two tables have the same rules, and list those of each source in the same order. -/
structure Interchangeable (t u : RuleTable) : Prop where
  same : ∀ id, t.rules.get? id = u.rules.get? id
  listed : ∀ source, t.idsFor source = u.idsFor source

namespace Interchangeable

theorem rulesFor_eq (h : t.Interchangeable u) (source : String) :
    t.rulesFor source = u.rulesFor source := by
  rw [rulesFor, rulesFor, h.listed, funext h.same]

theorem all_eq (h : t.Interchangeable u) (ht : t.Exact) (hu : u.Exact) : t.all = u.all := by
  refine hu.eq_all t.pairwise_all (nodup_all ht) fun rule => ?_
  rw [mem_all ht, h.same]

theorem insert (h : t.Interchangeable u) (rule : Rule) :
    (t.insert rule).Interchangeable (u.insert rule) where
  same id := by rw [get?_insert, get?_insert, h.same]
  listed source := by rw [idsFor_insert, idsFor_insert, h.listed]

theorem remove (h : t.Interchangeable u) (id : Uuid) :
    (t.remove id).2 = (u.remove id).2 ∧ (t.remove id).1.Interchangeable (u.remove id).1 := by
  rw [RuleTable.remove, RuleTable.remove, h.same]
  cases u.rules.get? id with
  | none => exact ⟨rfl, h⟩
  | some rule =>
    refine ⟨rfl, fun other => ?_, fun source => ?_⟩
    · rw [get?_without, get?_without, h.same]
    · rw [idsFor_without, idsFor_without, h.listed]

end Interchangeable

/-- Interchangeable tables take and remove the same rules, and refuse a rule because of the same
one. -/
theorem lockstep_interchangeable : Lockstep Eq Interchangeable where
  ok _ := rfl
  refused _ := rfl
  push {t u} h rule := by
    have hknown : t.rules.contains rule.id = u.rules.contains rule.id := by
      rw [Dict.contains, Dict.contains, h.same]
    rw [push, push, hknown, h.rulesFor_eq]
    split
    · exact .inl ⟨t, u, false, rfl, rfl, h⟩
    · split
      · exact .inr ⟨_, _, rfl, rfl, rfl⟩
      · exact .inl ⟨_, _, true, rfl, rfl, h.insert rule⟩
  remove h id := h.remove id

/-! ## Rules that are put in and removed again -/

theorem get?_push_of_ne {t' : RuleTable} {changed : Bool} (hpush : t.push rule = .ok (t', changed))
    {id : Uuid} (hid : id ≠ rule.id) : t'.rules.get? id = t.rules.get? id := by
  rcases t.push_cases rule with ⟨-, heq⟩ | ⟨-, -, heq⟩ | ⟨-, _, -, -, heq⟩ <;>
    rw [heq] at hpush <;> cases hpush
  · rfl
  · rw [get?_insert, if_neg hid]

theorem idsFor_push {t' : RuleTable} {changed : Bool} (hpush : t.push rule = .ok (t', changed))
    (source : String) :
    t'.idsFor source = t.idsFor source ∨ t'.idsFor source = t.idsFor source ++ [rule.id] := by
  rcases t.push_cases rule with ⟨-, heq⟩ | ⟨-, -, heq⟩ | ⟨-, _, -, -, heq⟩ <;>
    rw [heq] at hpush <;> cases hpush
  · exact .inl rfl
  · rw [idsFor_insert]
    split
    · exact .inr rfl
    · exact .inl rfl

/-- The tables have the same apart from some identifiers. -/
structure SameElsewhere (ids : List Uuid) (t u : RuleTable) : Prop where
  same : ∀ id, id ∉ ids → t.rules.get? id = u.rules.get? id
  listed : ∀ source, (t.idsFor source).filter (fun id => decide (id ∉ ids)) =
    (u.idsFor source).filter fun id => decide (id ∉ ids)

/-- A list of rules changes nothing elsewhere. -/
theorem sameElsewhere_pushAll (t : RuleTable) (hids : ∀ rule ∈ rules, rule.id ∈ ids) :
    SameElsewhere ids (t.pushAll rules).2 t := by
  refine pushAll_induction (P := fun t' => SameElsewhere ids t' t)
    (fun t' rule t'' changed h hmem hpush => ⟨fun id hid => ?_, fun source => ?_⟩)
    ⟨fun _ _ => rfl, fun _ => rfl⟩
  · have hne : id ≠ rule.id := fun heq => hid (heq ▸ hids rule hmem)
    rw [get?_push_of_ne hpush hne, h.same id hid]
  · rw [← h.listed source]
    rcases idsFor_push hpush source with heq | heq <;> rw [heq]
    -- the new identifier is one of those that do not count
    simp [List.filter_append, hids rule hmem]

/-- New rules that are removed again leave the table as it was. -/
theorem WellFormed.interchangeable_removeAll (h : t.WellFormed)
    (hnew : ∀ rule ∈ rules, t.rules.get? rule.id = none) :
    ((t.pushAll rules).2.removeAll (rules.map Rule.id)).1.Interchangeable t := by
  have hnone : ∀ id ∈ rules.map Rule.id, t.rules.get? id = none := fun id hmem => by
    obtain ⟨rule, hrule, rfl⟩ := List.mem_map.mp hmem
    exact hnew rule hrule
  have helsewhere : SameElsewhere (rules.map Rule.id) (t.pushAll rules).2 t :=
    t.sameElsewhere_pushAll fun rule hmem => List.mem_map_of_mem hmem
  refine ⟨fun id => ?_, fun source => ?_⟩
  · rw [get?_removeAll]
    split
    · next hmem => exact (hnone id hmem).symm
    · next hmem => exact helsewhere.same id hmem
  · rw [(h.pushAll rules).idsFor_removeAll, helsewhere.listed]
    refine List.filter_eq_self.mpr fun id hmem => decide_eq_true fun hid => ?_
    exact h.exact.not_mem_idsFor (hnone id hid) source hmem

end RuleTable

/-! ## Calls after a removal -/

namespace Registry

variable {r q : Registry}

/-- The verdicts of calls one after another, whether or not they are refused. -/
def answers (r : Registry) : List Call → Mint → List (Except Error Bool)
  | [], _ => []
  | c :: rest, mint => (r.call mint c).verdict ::
      (r.call mint c).after.answers rest (r.call mint c).mint

/-- Interchangeable tables answer all calls alike, whatever their versions are. -/
theorem answers_eq (h : r.table.Interchangeable q.table) (calls : List Call) (mint mint' : Mint) :
    r.answers calls mint = q.answers calls mint' := by
  induction calls generalizing r q mint mint' with
  | nil => rfl
  | cons c rest ih =>
    obtain ⟨hverdict, hnext⟩ := RuleTable.lockstep_interchangeable.call h mint mint' c
    rw [answers, answers, hverdict, ih hnext]

/-- A batch that is taken leaves the table of its pass. -/
theorem table_tryPushBatch {rules : List Rule} {mint : Mint} {changed : Bool}
    (hok : (r.tryPushBatch rules mint).verdict = .ok changed) :
    (r.tryPushBatch rules mint).after.table = (r.table.pushAll rules).2 := by
  cases hvalid : validateAll rules with
  | error e =>
    rw [tryPushBatch, hvalid] at hok
    cases hok
  | ok _ =>
    rw [tryPushBatch_eq_of_valid hvalid] at hok ⊢
    rcases hpass : r.table.pushAll rules with ⟨e | _ | _, table⟩ <;> rw [hpass] at hok
    · cases hok
    · exact ((RuleTable.pushAll_eq_ok hpass).2 rfl).symm
    · rfl

/-- The table after a removal. -/
theorem table_popBatch (r : Registry) (ids : List Uuid) (mint : Mint) :
    (r.popBatch ids mint).1.1.table = (r.table.removeAll ids).1 := by
  rw [popBatch, table_commit]

theorem popBatch_snd (r : Registry) (ids : List Uuid) (mint : Mint) :
    (r.popBatch ids mint).1.2 = (r.table.removeAll ids).2 := by
  unfold popBatch
  rcases r.table.removeAll ids with ⟨table, _ | _⟩ <;> rfl

/-- New rules that are removed again leave the registry with the table from before, up to its
layout. -/
theorem interchangeable_popBatch (h : r.table.WellFormed) {rules : List Rule} {changed : Bool}
    {mint : Mint} (hnew : ∀ rule ∈ rules, r.get? rule.id = none)
    (hok : (r.tryPushBatch rules mint).verdict = .ok changed) (later : Mint) :
    ((r.tryPushBatch rules mint).after.popBatch (rules.map Rule.id) later).1.1.table.Interchangeable
      r.table := by
  rw [table_popBatch, table_tryPushBatch hok]
  exact h.interchangeable_removeAll hnew

/-- **A removal leaves no trace of what it takes out.**  The rules with the given identifiers are
gone, all others are there, and those of a source are in the order in which they were; there is one
new version if a rule was there, and otherwise nothing has changed.  So a batch of new rules that is
removed again leaves the rules and their order from before the batch, and every later call, after
whatever other calls, is answered as it would have been without the batch, including the rule that
a refusal is because of. -/
theorem removal_leaves_no_trace (h : Reachable r) (ids : List Uuid) (mint : Mint) :
    let removal := r.popBatch ids mint
    ((∀ id, removal.1.1.get? id = if id ∈ ids then none else r.get? id) ∧
      removal.1.1.all = r.all.filter (fun rule => decide (rule.id ∉ ids)) ∧
      ∀ source, removal.1.1.rulesFor source =
        (r.rulesFor source).filter fun rule => decide (rule.id ∉ ids)) ∧
    ((removal.1.2 = true ↔ ∃ id ∈ ids, (r.get? id).isSome = true) ∧
      (removal.1.2 = true → (removal.1.1.version, removal.2) = Version.fresh mint) ∧
      (removal.1.2 = false → removal.1.1 = r ∧ removal.2 = mint)) ∧
    ∀ rules changed, (∀ rule ∈ rules, r.get? rule.id = none) →
      (r.tryPushBatch rules mint).verdict = .ok changed → ∀ later,
        let undone := ((r.tryPushBatch rules mint).after.popBatch (rules.map Rule.id) later).1.1
        undone.all = r.all ∧ (∀ source, undone.rulesFor source = r.rulesFor source) ∧
          ∀ calls m m', undone.answers calls m = r.answers calls m' := by
  have hwell := h.wellFormed
  have hwhole := r.whole_popBatch ids mint
  refine ⟨⟨fun id => ?_, ?_, fun source => ?_⟩, ⟨?_, fun hchanged => ?_, fun hsame => ?_⟩, ?_⟩
  · rw [get?, table_popBatch, r.table.get?_removeAll]
    rfl
  · rw [all, table_popBatch, hwell.all_removeAll]
    rfl
  · rw [rulesFor, table_popBatch, hwell.rulesFor_removeAll]
    rfl
  · rw [popBatch_snd, r.table.removeAll_snd_iff]
    rfl
  · exact hwhole.changed (congrArg Except.ok hchanged)
  · exact hwhole.unchanged fun hverdict => by
      rw [Attempt.ofChange, hsame] at hverdict
      cases hverdict
  · intro rules changed hnew hok later
    have hundone := interchangeable_popBatch hwell hnew hok later
    have hagain := wellFormed_call (wellFormed_call hwell mint (.pushBatch rules)) later
      (.popBatch (rules.map Rule.id))
    exact ⟨hundone.all_eq hagain.exact hwell.exact, hundone.rulesFor_eq, answers_eq hundone⟩

/-- A registry with three rules of one source, which came in another order than that of their
identifiers. -/
def threeOfBilling : Registry :=
  let first := Rule.of (.ofNat 3) "billing" (.classPrefix "fast")
  let second := Rule.of (.ofNat 1) "billing" (.classPrefix "fast")
  let third := Rule.of (.ofNat 2) "billing" (.classPrefix "slow")
  let r := (new default).1.call default (.pushBatch
    [{ first with condition := some (.keyPrefix "a") }, second,
      { third with condition := some (.keyPrefix "b") }])
  r.after

/-- A rule of another source. -/
def newOfStock : Rule := .of (.ofNat 7) "stock" (.classPrefix "new")

/-- The rule between two others goes, once, and the others stay in their order; and after a new rule
has come and gone, the refusal of a third one is because of the rule that was there before. -/
theorem removal_leaves_no_trace_threeOfBilling :
    ((threeOfBilling.popBatch [.ofNat 1, .ofNat 9, .ofNat 1] default).1.1.rulesFor "billing").map
        Rule.id = [.ofNat 3, .ofNat 2] ∧
      (threeOfBilling.popBatch [.ofNat 1, .ofNat 9, .ofNat 1] default).1.2 = true ∧
      ((threeOfBilling.tryPushBatch [newOfStock] default).after.popBatch
          [newOfStock.id] default).1.1.answers
        [.push (.of (.ofNat 8) "stock" (.classPrefix "old")),
          .push (.of (.ofNat 9) "billing" (.classPrefix "slow"))] default =
        [.ok true, .error (.conflict (.ofNat 9) (.ofNat 1) "billing")] := by
  have hreachable : Reachable threeOfBilling := .call (.start (.inl ⟨default, rfl⟩)) default _
  obtain ⟨⟨-, -, hrules⟩, ⟨hchanged, -, -⟩, hundone⟩ :=
    removal_leaves_no_trace hreachable [.ofNat 1, .ofNat 9, .ofNat 1] default
  refine ⟨?_, ?_, ?_⟩
  · rw [hrules]
    decide
  · exact hchanged.mpr ⟨.ofNat 1, by decide, by decide⟩
  · have hanswers := (hundone [newOfStock] true (by decide) (by rfl) default).2.2
    exact (hanswers _ default default).trans (by rfl)

end Registry

end Signpost.Redirection

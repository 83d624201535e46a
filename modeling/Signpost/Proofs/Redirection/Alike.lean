import Signpost.Proofs.Redirection.Lockstep
import Signpost.Proofs.Redirection.Restore

/-!
# Tables with the same rules

A table that has been restored has its rules, but lists those of a source in another order.  The
order can be seen in which of several conflicts is reported, and in nothing else: tables with the
same rules take, refuse and remove the same rules, and have the same rules afterwards.

## Main definitions

* `RuleTable.Alike`: two well-formed tables have the same rules.
* `SameVerdict`: two verdicts are the same, up to the wording of a refusal.
* `Attempt.Alike`: two calls come to the same verdict and leave the same rules.

## Main results

* `RuleTable.Alike.all_eq`: the rules of alike tables are the same list.
* `RuleTable.lockstep_alike`: alike tables decide on every rule alike.
* `Registry.tryPush_alike`, `Registry.tryPushBatch_alike`, `Registry.popBatch_alike`: a call comes to
  the same where tables are alike.
-/

namespace Signpost.Redirection

/-- Two verdicts are the same, up to the wording of a refusal. -/
inductive SameVerdict : Except Error Bool → Except Error Bool → Prop
  | ok (changed : Bool) : SameVerdict (.ok changed) (.ok changed)
  | refused {e e' : Error} (hkind : e.kind = e'.kind) : SameVerdict (.error e) (.error e')

theorem SameVerdict.eq_ok_iff {v w : Except Error Bool} (h : SameVerdict v w) {changed : Bool} :
    v = .ok changed ↔ w = .ok changed := by
  cases h with
  | ok changed => exact Iff.rfl
  | refused hkind => exact ⟨nofun, nofun⟩

/-! ## Tables -/

namespace RuleTable

/-- Two well-formed tables have the same rules, though perhaps in another order. -/
structure Alike (t u : RuleTable) : Prop where
  left : t.WellFormed
  right : u.WellFormed
  same : ∀ id, t.rules.get? id = u.rules.get? id

namespace Alike

variable {t u : RuleTable} {rule : Rule}

theorem mem_rulesFor (h : t.Alike u) {source : String} :
    rule ∈ t.rulesFor source ↔ rule ∈ u.rulesFor source := by
  rw [h.left.exact.mem_rulesFor, h.right.exact.mem_rulesFor, h.same]

/-- The rules of alike tables are the same list, since they are ordered by identifier. -/
theorem all_eq (h : t.Alike u) : t.all = u.all := by
  refine h.right.exact.eq_all t.pairwise_all (nodup_all h.left.exact) fun rule => ?_
  rw [mem_all h.left.exact, h.same]

/-- Tables are alike if the same rules are registered. -/
theorem of_iff (ht : t.WellFormed) (hu : u.WellFormed)
    (h : ∀ rule, t.rules.get? rule.id = some rule ↔ u.rules.get? rule.id = some rule) :
    t.Alike u := by
  refine ⟨ht, hu, fun id => Option.ext fun rule => ⟨fun hget => ?_, fun hget => ?_⟩⟩
  · have hid := ht.exact.keyed hget
    rw [← hid] at hget ⊢
    exact (h rule).mp hget
  · have hid := hu.exact.keyed hget
    rw [← hid] at hget ⊢
    exact (h rule).mpr hget

theorem of_all_eq (ht : t.WellFormed) (hu : u.WellFormed) (h : t.all = u.all) : t.Alike u :=
  of_iff ht hu fun rule => by rw [← mem_all ht.exact, ← mem_all hu.exact, h]

/-- A rule is passed over, put in, or refused by both tables. -/
theorem push (h : t.Alike u) (rule : Rule) :
    (∃ t' u' changed, t.push rule = .ok (t', changed) ∧ u.push rule = .ok (u', changed) ∧
      t'.Alike u') ∨
    ∃ e e', t.push rule = .error e ∧ u.push rule = .error e' ∧ e.kind = e'.kind := by
  rcases t.push_cases rule with ⟨⟨known, hknown⟩, ht⟩ | ⟨hnew, hfree, ht⟩ |
    ⟨hnew, existing, hmem, hconflict, ht⟩ <;>
  rcases u.push_cases rule with ⟨⟨known', hknown'⟩, hu⟩ | ⟨hnew', hfree', hu⟩ |
    ⟨hnew', existing', hmem', hconflict', hu⟩
  case inl.inl => exact .inl ⟨t, u, false, ht, hu, h⟩
  case inr.inl.inr.inl =>
    refine .inl ⟨t.insert rule, u.insert rule, true, ht, hu, h.left.insert hnew hfree,
      h.right.insert hnew' hfree', fun id => ?_⟩
    rw [get?_insert, get?_insert, h.same]
  case inr.inr.inr.inr => exact .inr ⟨_, _, ht, hu, rfl⟩
  -- the tables cannot disagree on whether the identifier is there, nor on the conflicts
  case inl.inr.inl | inl.inr.inr => simp [h.same, hnew'] at hknown
  case inr.inl.inl | inr.inr.inl => simp [← h.same, hnew] at hknown'
  case inr.inl.inr.inr => simp [hfree existing' (h.mem_rulesFor.mpr hmem')] at hconflict'
  case inr.inr.inr.inl => simp [hfree' existing (h.mem_rulesFor.mp hmem)] at hconflict

theorem remove (h : t.Alike u) (id : Uuid) :
    (t.remove id).2 = (u.remove id).2 ∧ (t.remove id).1.Alike (u.remove id).1 := by
  have hleft := h.left.remove id
  have hright := h.right.remove id
  rcases t.remove_cases id with ⟨hnone, ht⟩ | ⟨rule, hget, ht⟩ <;>
  rcases u.remove_cases id with ⟨hnone', hu⟩ | ⟨rule', hget', hu⟩ <;> rw [ht, hu] <;>
    rw [ht] at hleft <;> rw [hu] at hright
  · exact ⟨rfl, h⟩
  · simp [h.same, hget'] at hnone
  · simp [← h.same, hget] at hnone'
  · refine ⟨rfl, hleft, hright, fun other => ?_⟩
    rw [get?_without, get?_without, h.same]

end Alike

/-- Alike tables take, refuse and remove the same rules. -/
theorem lockstep_alike : Lockstep SameVerdict Alike where
  ok := .ok
  refused _ := .refused rfl
  push h rule := (h.push rule).imp_right fun ⟨e, e', ht, hu, hkind⟩ =>
    ⟨e, e', ht, hu, .refused hkind⟩
  remove h id := h.remove id

end RuleTable

/-! ## Calls -/

/-- Two calls have come to the same verdict and left the same rules. -/
structure Attempt.Alike (a b : Attempt) : Prop where
  verdict : SameVerdict a.verdict b.verdict
  table : a.after.table.Alike b.after.table

namespace Registry

variable {r q : Registry}

theorem tryPush_alike (h : r.table.Alike q.table) (rule : Rule) (mint mint' : Mint) :
    (r.tryPush rule mint).Alike (q.tryPush rule mint') :=
  have ⟨hverdict, htable⟩ := RuleTable.lockstep_alike.tryPush h rule mint mint'
  ⟨hverdict, htable⟩

theorem tryPushBatch_alike (h : r.table.Alike q.table) (rules : List Rule) (mint mint' : Mint) :
    (r.tryPushBatch rules mint).Alike (q.tryPushBatch rules mint') :=
  have ⟨hverdict, htable⟩ := RuleTable.lockstep_alike.tryPushBatch h rules mint mint'
  ⟨hverdict, htable⟩

theorem popBatch_alike (h : r.table.Alike q.table) (ids : List Uuid) (mint mint' : Mint) :
    (Attempt.ofChange (r.popBatch ids mint)).Alike (.ofChange (q.popBatch ids mint')) :=
  have ⟨hverdict, htable⟩ := RuleTable.lockstep_alike.popBatch h ids mint mint'
  ⟨hverdict, htable⟩

end Registry

end Signpost.Redirection

import Signpost.Proofs.Redirection.Index

/-!
# Tables in lockstep

All that a registry asks of its table is to put in one rule or to take one out.  So a relation of
tables that these two keep, with related verdicts, is kept by every call of a registry, whatever its
versions are.

## Main definitions

* `RuleTable.Lockstep`: a relation of tables that single rules keep.

## Main results

* `RuleTable.Lockstep.pushAll`, `RuleTable.Lockstep.removeAll`: lists of rules keep it.
* `RuleTable.Lockstep.call`: every call keeps it.
-/

namespace Signpost.Redirection

/-- Related tables decide on every rule alike, and are related again afterwards. -/
structure RuleTable.Lockstep (V : Except Error Bool → Except Error Bool → Prop)
    (R : RuleTable → RuleTable → Prop) : Prop where
  ok : ∀ changed, V (.ok changed) (.ok changed)
  refused : ∀ e, V (.error e) (.error e)
  push : ∀ {t u}, R t u → ∀ rule,
    (∃ t' u' changed, t.push rule = .ok (t', changed) ∧ u.push rule = .ok (u', changed) ∧
      R t' u') ∨
    ∃ e e', t.push rule = .error e ∧ u.push rule = .error e' ∧ V (.error e) (.error e')
  remove : ∀ {t u}, R t u → ∀ id,
    (t.remove id).2 = (u.remove id).2 ∧ R (t.remove id).1 (u.remove id).1

namespace RuleTable.Lockstep

variable {V : Except Error Bool → Except Error Bool → Prop} {R : RuleTable → RuleTable → Prop}
  {t u : RuleTable} {r q : Registry}

/-- A list of rules is taken or refused by both tables. -/
theorem pushAll (hlock : Lockstep V R) (h : R t u) (rules : List Rule) :
    (∃ changed t' u', t.pushAll rules = (.ok changed, t') ∧ u.pushAll rules = (.ok changed, u') ∧
      R t' u') ∨
    ∃ e e' t' u', t.pushAll rules = (.error e, t') ∧ u.pushAll rules = (.error e', u') ∧
      V (.error e) (.error e') := by
  induction rules generalizing t u with
  | nil => exact .inl ⟨false, t, u, rfl, rfl, h⟩
  | cons rule rest ih =>
    rw [RuleTable.pushAll, RuleTable.pushAll]
    rcases hlock.push h rule with ⟨t', u', changed, ht, hu, h'⟩ | ⟨e, e', ht, hu, herror⟩ <;>
      rw [ht, hu]
    · rcases ih h' with ⟨changed', t'', u'', ht', hu', h''⟩ |
          ⟨e, e', t'', u'', ht', hu', herror⟩ <;>
        simp only [ht', hu']
      · exact .inl ⟨_, t'', u'', rfl, rfl, h''⟩
      · exact .inr ⟨e, e', t'', u'', rfl, rfl, herror⟩
    · exact .inr ⟨e, e', t, u, rfl, rfl, herror⟩

theorem removeAll (hlock : Lockstep V R) (h : R t u) (ids : List Uuid) :
    (t.removeAll ids).2 = (u.removeAll ids).2 ∧ R (t.removeAll ids).1 (u.removeAll ids).1 := by
  induction ids generalizing t u with
  | nil => exact ⟨rfl, h⟩
  | cons id rest ih =>
    obtain ⟨hfirst, hnext⟩ := hlock.remove h id
    obtain ⟨hrest, hlast⟩ := ih hnext
    refine ⟨?_, hlast⟩
    show ((t.remove id).2 || ((t.remove id).1.removeAll rest).2) =
      ((u.remove id).2 || ((u.remove id).1.removeAll rest).2)
    rw [hfirst, hrest]

theorem commit (hlock : Lockstep V R) (h : R t u) (changed : Bool) (mint mint' : Mint) :
    V (Attempt.ofChange (r.commit t changed mint)).verdict
        (Attempt.ofChange (q.commit u changed mint')).verdict ∧
      R (Attempt.ofChange (r.commit t changed mint)).after.table
        (Attempt.ofChange (q.commit u changed mint')).after.table := by
  cases changed <;> exact ⟨hlock.ok _, h⟩

theorem tryPush (hlock : Lockstep V R) (h : R r.table q.table) (rule : Rule) (mint mint' : Mint) :
    V (r.tryPush rule mint).verdict (q.tryPush rule mint').verdict ∧
      R (r.tryPush rule mint).after.table (q.tryPush rule mint').after.table := by
  unfold Registry.tryPush
  cases rule.validate with
  | error e => exact ⟨hlock.refused e, h⟩
  | ok _ =>
    rcases hlock.push h rule with ⟨t', u', changed, ht, hu, h'⟩ | ⟨e, e', ht, hu, herror⟩ <;>
      rw [ht, hu]
    · exact hlock.commit h' changed mint mint'
    · exact ⟨herror, h⟩

theorem tryPushBatch (hlock : Lockstep V R) (h : R r.table q.table) (rules : List Rule)
    (mint mint' : Mint) :
    V (r.tryPushBatch rules mint).verdict (q.tryPushBatch rules mint').verdict ∧
      R (r.tryPushBatch rules mint).after.table (q.tryPushBatch rules mint').after.table := by
  cases hvalid : Registry.validateAll rules with
  | error e =>
    rw [Registry.tryPushBatch, Registry.tryPushBatch, hvalid]
    exact ⟨hlock.refused e, h⟩
  | ok _ =>
    rw [Registry.tryPushBatch_eq_of_valid hvalid, Registry.tryPushBatch_eq_of_valid hvalid]
    rcases hlock.pushAll h rules with
      ⟨changed, t', u', ht, hu, h'⟩ | ⟨e, e', t', u', ht, hu, herror⟩ <;> rw [ht, hu]
    · cases changed with
      | false => exact ⟨hlock.ok false, h⟩
      | true => exact hlock.commit h' true mint mint'
    · exact ⟨herror, h⟩

theorem popBatch (hlock : Lockstep V R) (h : R r.table q.table) (ids : List Uuid)
    (mint mint' : Mint) :
    V (Attempt.ofChange (r.popBatch ids mint)).verdict
        (Attempt.ofChange (q.popBatch ids mint')).verdict ∧
      R (Attempt.ofChange (r.popBatch ids mint)).after.table
        (Attempt.ofChange (q.popBatch ids mint')).after.table := by
  obtain ⟨hchanged, hlast⟩ := hlock.removeAll h ids
  unfold Registry.popBatch
  dsimp only
  rw [hchanged]
  exact hlock.commit hlast _ mint mint'

/-- **Every call decides alike on related tables**, and leaves them related. -/
theorem call (hlock : Lockstep V R) (h : R r.table q.table) (mint mint' : Mint)
    (c : Registry.Call) :
    V (r.call mint c).verdict (q.call mint' c).verdict ∧
      R (r.call mint c).after.table (q.call mint' c).after.table := by
  cases c with
  | push rule => exact hlock.tryPush h rule mint mint'
  | pushBatch rules => exact hlock.tryPushBatch h rules mint mint'
  | pop id => exact hlock.popBatch h [id] mint mint'
  | popBatch ids => exact hlock.popBatch h ids mint mint'

end RuleTable.Lockstep

end Signpost.Redirection

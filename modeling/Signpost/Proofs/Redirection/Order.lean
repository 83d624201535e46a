import Signpost.Proofs.Redirection.Alike
import Signpost.Proofs.Redirection.Batch

/-!
# The order of a batch

The rules of a batch go in one after another, so that their order decides which of them meets which,
and which ones a refusal names.  But whether the batch is taken is decided by its rules alone: those
of the table and the new ones of the batch must not conflict, any with any.  And a table that has
taken a batch has just these rules, in whatever order the batch was.

## Main definitions

* `RuleTable.Joined`: the rules of a table and the new ones of a list.

## Main results

* `RuleTable.get?_pushAll_iff`: a table that has taken a list has these rules.
* `RuleTable.exists_pushAll_iff`: a list is taken if and only if none of these rules conflict.
* `Registry.batch_in_any_order`
-/

namespace Signpost.Redirection

namespace RuleTable

variable {t t' : RuleTable} {rule r : Rule} {rules rules' : List Rule} {changed : Bool}

/-- A rule is in a table, or it is in a list and its identifier is new to the table. -/
def Joined (t : RuleTable) (rules : List Rule) (r : Rule) : Prop :=
  t.rules.get? r.id = some r ∨ t.rules.get? r.id = none ∧ r ∈ rules

@[simp] theorem joined_nil : t.Joined [] r ↔ t.rules.get? r.id = some r := by simp [Joined]

theorem joined_perm (hperm : rules.Perm rules') : t.Joined rules r ↔ t.Joined rules' r := by
  rw [Joined, Joined, hperm.mem_iff]

/-- What is in the list and what is in the table change places when a rule goes in. -/
theorem joined_push (hpush : t.push rule = .ok (t', changed)) (hid : rule.id ∉ rules.map Rule.id) :
    t'.Joined rules r ↔ t.Joined (rule :: rules) r := by
  rcases t.push_cases rule with ⟨⟨known, hknown⟩, heq⟩ | ⟨hnew, -, heq⟩ | ⟨-, _, -, -, heq⟩ <;>
    rw [heq] at hpush <;> cases hpush
  · have hne : t.rules.get? r.id = none → r ≠ rule := by
      rintro hnone rfl
      exact nomatch hknown.symm.trans hnone
    rw [Joined, Joined, List.mem_cons]
    grind
  · have hne : r ∈ rules → r.id ≠ rule.id := fun hmem heq =>
      hid (heq ▸ List.mem_map_of_mem hmem)
    rw [Joined, Joined, get?_insert, List.mem_cons]
    grind

/-- A table that has taken a list has its rules in addition, apart from those that it knew. -/
theorem get?_pushAll_iff (h : t.pushAll rules = (.ok changed, t'))
    (hids : (rules.map Rule.id).Nodup) : t'.rules.get? r.id = some r ↔ t.Joined rules r := by
  induction rules generalizing t changed with
  | nil => cases h; exact joined_nil.symm
  | cons rule rest ih =>
    rw [List.map_cons, List.nodup_cons] at hids
    rw [pushAll] at h
    rcases hpush : t.push rule with e | ⟨next, inserted⟩ <;> rw [hpush] at h
    · cases h
    rcases hrest : next.pushAll rest with ⟨e | changed', last⟩ <;>
      simp only [hrest, Except.map] at h <;> cases h
    rw [ih hrest hids.2, joined_push hpush hids.1]

/-- A list is taken if none of the rules that would come together conflict. -/
theorem exists_pushAll (h : t.WellFormed) (hids : (rules.map Rule.id).Nodup)
    (hagree : ∀ r s, t.Joined rules r → t.Joined rules s → r.conflictsWith s = false) :
    ∃ changed t', t.pushAll rules = (.ok changed, t') := by
  induction rules generalizing t with
  | nil => exact ⟨false, t, rfl⟩
  | cons rule rest ih =>
    rw [List.map_cons, List.nodup_cons] at hids
    have hgoesOn : ∀ {next inserted}, t.push rule = .ok (next, inserted) →
        ∃ changed t', t.pushAll (rule :: rest) = (.ok changed, t') := by
      intro next inserted hpush
      obtain ⟨changed, last, hrest⟩ := ih (h.push hpush) hids.2 fun r s hr hs =>
        hagree r s ((joined_push hpush hids.1).mp hr) ((joined_push hpush hids.1).mp hs)
      exact ⟨inserted || changed, last, by rw [pushAll, hpush]; simp only [hrest, Except.map]⟩
    rcases t.push_cases rule with ⟨-, hpush⟩ | ⟨-, -, hpush⟩ | ⟨hnew, existing, hmem, hconflict, -⟩
    · exact hgoesOn hpush
    · exact hgoesOn hpush
    -- the rule and the one that it conflicts with would come together
    · have hagreed := hagree existing rule (.inl (h.exact.mem_rulesFor.mp hmem).1)
        (.inr ⟨hnew, List.mem_cons_self⟩)
      simp [hagreed] at hconflict

/-- **A list is taken if and only if its new rules and those of the table do not conflict**. -/
theorem exists_pushAll_iff (h : t.WellFormed) (hids : (rules.map Rule.id).Nodup) :
    (∃ changed t', t.pushAll rules = (.ok changed, t')) ↔
      ∀ r s, t.Joined rules r → t.Joined rules s → r.conflictsWith s = false := by
  refine ⟨fun ⟨changed, t', hok⟩ r s hr hs => ?_, exists_pushAll h hids⟩
  have hfilled := h.pushAll rules
  rw [hok] at hfilled
  rw [← Bool.not_eq_true, Rule.conflictsWith_iff]
  rintro ⟨hsource, hcondition, htarget⟩
  exact htarget (hfilled.consistent _ _ _ _ ((get?_pushAll_iff hok hids).mpr hr)
    ((get?_pushAll_iff hok hids).mpr hs) hsource hcondition)

/-- The lists have the same rules, so that both are taken or both are refused; if they are taken,
then both or none change the table, and the tables are alike. -/
theorem pushAll_perm (h : t.WellFormed) (hids : (rules.map Rule.id).Nodup)
    (hperm : rules.Perm rules') :
    (∃ changed t' u', t.pushAll rules = (.ok changed, t') ∧
      t.pushAll rules' = (.ok changed, u') ∧ t'.Alike u') ∨
    ∃ e e' t' u', t.pushAll rules = (.error e, t') ∧ t.pushAll rules' = (.error e', u') := by
  have hids' : (rules'.map Rule.id).Nodup := (hperm.map Rule.id).nodup_iff.mp hids
  have hiff : (∃ changed t', t.pushAll rules = (.ok changed, t')) ↔
      ∃ changed t', t.pushAll rules' = (.ok changed, t') := by
    rw [exists_pushAll_iff h hids, exists_pushAll_iff h hids']
    simp only [joined_perm hperm]
  have hwell := h.pushAll rules
  have hwell' := h.pushAll rules'
  rcases hpass : t.pushAll rules with ⟨e | changed, t'⟩ <;>
    rcases hpass' : t.pushAll rules' with ⟨e' | changed', u'⟩ <;>
    rw [hpass, hpass'] at hiff <;> rw [hpass] at hwell <;> rw [hpass'] at hwell'
  · exact .inr ⟨e, e', t', u', rfl, rfl⟩
  · obtain ⟨_, _, hok⟩ := hiff.mpr ⟨_, _, rfl⟩
    cases hok
  · obtain ⟨_, _, hok⟩ := hiff.mp ⟨_, _, rfl⟩
    cases hok
  · have hchanged : changed = changed' := by
      rw [Bool.eq_iff_iff, (pushAll_eq_ok hpass).1, (pushAll_eq_ok hpass').1]
      simp only [hperm.mem_iff]
    refine .inl ⟨changed, t', u', rfl, by rw [hchanged], .of_iff hwell hwell' fun r => ?_⟩
    rw [get?_pushAll_iff hpass hids, get?_pushAll_iff hpass' hids', joined_perm hperm]

end RuleTable

/-! ## Batches -/

namespace Registry

variable {r : Registry} {rules rules' : List Rule}

theorem kind_of_validateAll {e : Error} (h : validateAll rules = .error e) :
    e.kind = "validation" := by
  induction rules with
  | nil => cases h
  | cons rule rest ih =>
    simp only [validateAll, Rule.validate] at h
    split at h
    · cases h; rfl
    · exact ih h

/-- A batch in another order comes to the same verdict and leaves the same rules. -/
theorem tryPushBatch_perm (h : r.table.WellFormed) (hids : (rules.map Rule.id).Nodup)
    (hperm : rules.Perm rules') (mint mint' : Mint) :
    (r.tryPushBatch rules mint).Alike (r.tryPushBatch rules' mint') := by
  have hself : r.table.Alike r.table := ⟨h, h, fun _ => rfl⟩
  have hiff : validateAll rules = .ok () ↔ validateAll rules' = .ok () := by
    simp only [validateAll_eq_ok_iff, hperm.mem_iff]
  cases hvalid : validateAll rules with
  | error e =>
    cases hvalid' : validateAll rules' with
    | error e' =>
      rw [tryPushBatch, tryPushBatch, hvalid, hvalid']
      have hkind := (kind_of_validateAll hvalid).trans (kind_of_validateAll hvalid').symm
      exact ⟨.refused hkind, hself⟩
    | ok _ =>
      rw [hiff.mpr hvalid'] at hvalid
      cases hvalid
  | ok _ =>
    rw [tryPushBatch_eq_of_valid hvalid, tryPushBatch_eq_of_valid (hiff.mp hvalid)]
    rcases RuleTable.pushAll_perm h hids hperm with
      ⟨changed, t', u', hpass, hpass', halike⟩ | ⟨e, e', t', u', hpass, hpass'⟩ <;>
      rw [hpass, hpass']
    · cases changed with
      | false => exact ⟨.ok false, hself⟩
      | true => exact ⟨.ok true, halike⟩
    -- a pass is refused only because of a conflict
    · obtain ⟨_, _, _, rfl⟩ := RuleTable.pushAll_eq_error hpass
      obtain ⟨_, _, _, rfl⟩ := RuleTable.pushAll_eq_error hpass'
      exact ⟨.refused rfl, hself⟩

/-- **The order of a batch does not matter.**  If no identifier comes twice in it, then in every
order it is refused for the same kind of reason, or it is taken with the same verdict; and the rules
of the registry are the same list afterwards. -/
theorem batch_in_any_order (h : Reachable r) (hids : (rules.map Rule.id).Nodup)
    (hperm : rules.Perm rules') (mint mint' : Mint) :
    SameVerdict (r.tryPushBatch rules mint).verdict (r.tryPushBatch rules' mint').verdict ∧
      (r.tryPushBatch rules mint).after.all = (r.tryPushBatch rules' mint').after.all :=
  have halike := tryPushBatch_perm h.wellFormed hids hperm mint mint'
  ⟨halike.verdict, halike.table.all_eq⟩

/-- In another order the batch is refused too, though the refusal names the two rules the other way
round. -/
theorem batch_in_any_order_reversed :
    SameVerdict (stocked.tryPushBatch clashingBatch default).verdict
        (stocked.tryPushBatch clashingBatch.reverse default).verdict ∧
      (stocked.tryPushBatch clashingBatch default).verdict =
        .error (.conflict (.ofNat 6) (.ofNat 5) "stock") ∧
      (stocked.tryPushBatch clashingBatch.reverse default).verdict =
        .error (.conflict (.ofNat 5) (.ofNat 6) "stock") := by
  have hreachable : Reachable stocked := .call (.start (.inl ⟨default, rfl⟩)) default (.push _)
  have hids : (clashingBatch.map Rule.id).Nodup := by decide
  have hperm : clashingBatch.Perm clashingBatch.reverse := clashingBatch.reverse_perm.symm
  exact ⟨(batch_in_any_order hreachable hids hperm default default).1, by rfl, by rfl⟩

end Registry

end Signpost.Redirection

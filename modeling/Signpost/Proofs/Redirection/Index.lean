import Signpost.Redirection.Registry

/-!
# The index of a reachable registry

The identifiers of a table's rules are listed by source, and a conflict is only looked for among
the rules that are listed.  That no two rules conflict therefore rests on the lists being exact, and
every call has to keep both, whether or not it succeeds.

## Main definitions

* `RuleTable.Exact`: every rule is listed once, under its source, and nothing else is listed.
* `RuleTable.Consistent`: rules of one source and one condition have one target.
* `Registry.Call`, `Registry.ReachableFrom`: the registries that calls lead to.

## Main results

* `RuleTable.Exact.mem_rulesFor`: the rules found under a source are those of that source.
* `Registry.table_call`: what pushes of valid rules and removals keep, every call keeps.
* `Registry.reachable_exact_and_consistent`
-/

namespace Signpost.Redirection

namespace RuleTable

variable {t : RuleTable} {rule : Rule} {id : Uuid} {source : String}

/-! ## Exact lists -/

/-- The lists of identifiers are exact. -/
structure Exact (t : RuleTable) : Prop where
  /-- A rule is registered under its own identifier. -/
  keyed : ∀ {id rule}, t.rules.get? id = some rule → rule.id = id
  /-- A registered identifier is listed once, under the source of its rule. -/
  listed : ∀ {id rule}, t.rules.get? id = some rule → ∀ source,
    (t.idsFor source).count id = if source = rule.source then 1 else 0
  /-- What is listed is registered. -/
  registered : ∀ {source id}, id ∈ t.idsFor source → ∃ rule, t.rules.get? id = some rule
  /-- No list is empty. -/
  inhabited : ∀ {source ids}, t.bySource.get? source = some ids → ids ≠ []

theorem exact_empty : empty.Exact where
  keyed h := by simp at h
  listed h := by simp at h
  registered h := by simp at h
  inhabited h := by simp [empty] at h

namespace Exact

theorem not_mem_idsFor (h : t.Exact) (hnew : t.rules.get? id = none) (source : String) :
    id ∉ t.idsFor source := fun hmem => by
  obtain ⟨rule, hget⟩ := h.registered hmem
  simp [hnew] at hget

theorem mem_idsFor (h : t.Exact) (hget : t.rules.get? id = some rule) :
    id ∈ t.idsFor source ↔ source = rule.source := by
  rw [← List.count_pos_iff, h.listed hget source]
  split <;> simp_all

/-- The rules found under a source are the registered rules of that source. -/
theorem mem_rulesFor (h : t.Exact) :
    rule ∈ t.rulesFor source ↔ t.rules.get? rule.id = some rule ∧ rule.source = source := by
  rw [rulesFor, List.mem_filterMap]
  constructor
  · rintro ⟨id, hmem, hget⟩
    have hid := h.keyed hget
    subst hid
    exact ⟨hget, ((h.mem_idsFor hget).mp hmem).symm⟩
  · rintro ⟨hget, hsource⟩
    exact ⟨rule.id, (h.mem_idsFor hget).mpr hsource.symm, hget⟩

theorem insert (h : t.Exact) (hnew : t.rules.get? rule.id = none) : (t.insert rule).Exact where
  keyed {id known} hget := by
    rw [get?_insert] at hget
    split at hget
    · next hid => cases hget; exact hid.symm
    · exact h.keyed hget
  listed {id known} hget source := by
    rw [get?_insert] at hget
    rw [idsFor_insert]
    split at hget
    -- the new rule: it was not listed, and is now, under its source
    · next hid =>
      cases hget
      subst hid
      have hcount : (t.idsFor source).count rule.id = 0 :=
        List.count_eq_zero.mpr (h.not_mem_idsFor hnew source)
      split <;> simp [hcount]
    -- another rule: it is listed as before
    · next hid =>
      rw [← h.listed hget source]
      split <;> simp [List.count_append, Ne.symm hid]
  registered {source id} hmem := by
    rw [get?_insert]
    split
    · exact ⟨rule, rfl⟩
    · next hid =>
      rw [idsFor_insert] at hmem
      split at hmem
      · exact h.registered (by simpa [hid] using hmem)
      · exact h.registered hmem
  inhabited {source ids} hget := by
    rw [bySource_insert] at hget
    split at hget
    · cases hget; simp
    · exact h.inhabited hget

theorem without (h : t.Exact) (hget : t.rules.get? id = some rule) :
    (t.without id rule.source).Exact where
  keyed {other known} hother := by
    rw [get?_without] at hother
    split at hother
    · cases hother
    · exact h.keyed hother
  listed {other known} hother source := by
    rw [get?_without] at hother
    split at hother
    · cases hother
    · next hne =>
      rw [idsFor_without, ← h.listed hother source]
      split
      · exact List.count_filter (by simpa using hne)
      · rfl
  registered {source other} hmem := by
    rw [idsFor_without] at hmem
    -- the rule that is gone was listed under its source alone, where it is no longer
    have hne : other ≠ id := by
      rintro rfl
      split at hmem
      · simp at hmem
      · next hs => exact hs ((h.mem_idsFor hget).mp hmem)
    rw [get?_without, if_neg hne]
    split at hmem
    · exact h.registered (List.mem_filter.mp hmem).1
    · exact h.registered hmem
  inhabited {source ids} hids := by
    rw [bySource_without] at hids
    split at hids
    · obtain ⟨before, -, hbefore⟩ := Option.bind_eq_some_iff.mp hids
      dsimp only at hbefore
      split at hbefore
      · cases hbefore
      · next hne => cases hbefore; simpa [List.isEmpty_iff] using hne
    · exact h.inhabited hids

end Exact

/-! ## Consistent rules -/

/-- Rules of one source and one condition have one target. -/
def Consistent (t : RuleTable) : Prop :=
  ∀ id₁ id₂ r₁ r₂, t.rules.get? id₁ = some r₁ → t.rules.get? id₂ = some r₂ →
    r₁.source = r₂.source → r₁.condition = r₂.condition → r₁.target = r₂.target

/-- A table whose lists are exact and whose rules are consistent. -/
structure WellFormed (t : RuleTable) : Prop where
  exact : t.Exact
  consistent : t.Consistent

theorem wellFormed_empty : empty.WellFormed := ⟨exact_empty, fun _ _ _ _ h => by simp at h⟩

namespace WellFormed

theorem insert (h : t.WellFormed) (hnew : t.rules.get? rule.id = none)
    (hfree : ∀ existing ∈ t.rulesFor rule.source, existing.conflictsWith rule = false) :
    (t.insert rule).WellFormed := by
  -- all rules of the source are listed, so that the search for a conflict has met each of them
  have hagrees : ∀ {id known}, t.rules.get? id = some known → known.source = rule.source →
      known.condition = rule.condition → known.target = rule.target := by
    intro id known hget hsource hcondition
    have hid := h.exact.keyed hget
    subst hid
    have hno := hfree known (h.exact.mem_rulesFor.mpr ⟨hget, hsource⟩)
    refine Decidable.byContradiction fun htarget => ?_
    simp [(known.conflictsWith_iff rule).mpr ⟨hsource, hcondition, htarget⟩] at hno
  refine ⟨h.exact.insert hnew, fun id₁ id₂ r₁ r₂ h₁ h₂ hsource hcondition => ?_⟩
  rw [get?_insert] at h₁ h₂
  split at h₁ <;> split at h₂
  · cases h₁; cases h₂; rfl
  · cases h₁; exact (hagrees h₂ hsource.symm hcondition.symm).symm
  · cases h₂; exact hagrees h₁ hsource hcondition
  · exact h.consistent _ _ _ _ h₁ h₂ hsource hcondition

theorem push (h : t.WellFormed) {t' : RuleTable} {changed : Bool}
    (hpush : t.push rule = .ok (t', changed)) : t'.WellFormed := by
  rcases t.push_cases rule with ⟨-, heq⟩ | ⟨hnew, hfree, heq⟩ | ⟨-, _, -, -, heq⟩ <;>
    rw [heq] at hpush <;> cases hpush
  · exact h
  · exact h.insert hnew hfree

/-- Rules that go in one after another keep a table well-formed, also if one of them is refused. -/
theorem pushAll (h : t.WellFormed) (rules : List Rule) : (t.pushAll rules).2.WellFormed :=
  pushAll_induction (fun _ _ _ _ ht _ hpush => ht.push hpush) h

theorem remove (h : t.WellFormed) (id : Uuid) : (t.remove id).1.WellFormed := by
  rcases t.remove_cases id with ⟨-, heq⟩ | ⟨rule, hget, heq⟩ <;> rw [heq]
  · exact h
  · refine ⟨h.exact.without hget, fun id₁ id₂ r₁ r₂ h₁ h₂ hsource hcondition => ?_⟩
    rw [get?_without] at h₁ h₂
    split at h₁
    · cases h₁
    · split at h₂
      · cases h₂
      · exact h.consistent _ _ _ _ h₁ h₂ hsource hcondition

end WellFormed

/-- Every rule is valid on its own. -/
def AllValid (t : RuleTable) : Prop :=
  ∀ id rule, t.rules.get? id = some rule → rule.validate = .ok ()

theorem allValid_empty : empty.AllValid := fun _ _ h => by simp at h

theorem AllValid.push (h : t.AllValid) (hvalid : rule.validate = .ok ()) {t' : RuleTable}
    {changed : Bool} (hpush : t.push rule = .ok (t', changed)) : t'.AllValid := by
  rcases t.push_cases rule with ⟨-, heq⟩ | ⟨-, -, heq⟩ | ⟨-, _, -, -, heq⟩ <;>
    rw [heq] at hpush <;> cases hpush
  · exact h
  · intro id known hget
    rw [get?_insert] at hget
    split at hget
    · cases hget; exact hvalid
    · exact h _ _ hget

theorem AllValid.remove (h : t.AllValid) (id : Uuid) : (t.remove id).1.AllValid := by
  rcases t.remove_cases id with ⟨-, heq⟩ | ⟨rule, -, heq⟩ <;> rw [heq]
  · exact h
  · intro other known hget
    rw [get?_without] at hget
    split at hget
    · cases hget
    · exact h _ _ hget

end RuleTable

/-! ## Reachable registries -/

namespace Registry

/-- A call that may change a registry. -/
inductive Call where
  | push (rule : Rule)
  | pushBatch (rules : List Rule)
  | pop (id : Uuid)
  | popBatch (ids : List Uuid)

/-- What has come of a call. -/
def call (r : Registry) (mint : Mint) : Call → Attempt
  | .push rule => r.tryPush rule mint
  | .pushBatch rules => r.tryPushBatch rules mint
  | .pop id => .ofChange (r.pop id mint)
  | .popBatch ids => .ofChange (r.popBatch ids mint)

/-- A registry that has just been made. -/
def IsNew (r : Registry) : Prop := ∃ mint, r = (new mint).1

/-- A registry that has just been restored from rules that were accepted. -/
def IsRestored (r : Registry) : Prop := ∃ rules version, ofParts rules version = .ok r

/-- The registries that calls lead to, accepted or refused, from some to start with. -/
inductive ReachableFrom (start : Registry → Prop) : Registry → Prop
  | start {r : Registry} (h : start r) : ReachableFrom start r
  | call {r : Registry} (h : ReachableFrom start r) (mint : Mint) (c : Call) :
      ReachableFrom start (r.call mint c).after

/-- The registries that calls lead to from a new or a restored one. -/
def Reachable (r : Registry) : Prop := ReachableFrom (fun r => IsNew r ∨ IsRestored r) r

variable {r : Registry} {start : Registry → Prop}

theorem ReachableFrom.mono {start' : Registry → Prop} (hstart : ∀ r, start r → start' r)
    (h : ReachableFrom start r) : ReachableFrom start' r := by
  induction h with
  | start h => exact .start (hstart _ h)
  | call _ mint c ih => exact .call ih mint c

/-- The table of a registry after the commit of a table. -/
theorem table_commit (table : RuleTable) (changed : Bool) (mint : Mint) :
    (r.commit table changed mint).1.1.table = table := by
  cases changed <;> rfl

/-- What is kept by pushes of valid rules and by removals is kept by every call. -/
theorem table_call {P : RuleTable → Prop}
    (hpush : ∀ t rule t' changed, P t → rule.validate = .ok () →
      t.push rule = .ok (t', changed) → P t')
    (hremove : ∀ t id, P t → P (t.remove id).1) (h : P r.table) (mint : Mint) (c : Call) :
    P (r.call mint c).after.table := by
  have hpop : ∀ ids, P (r.popBatch ids mint).1.1.table := fun ids => by
    rw [popBatch, table_commit]
    exact RuleTable.removeAll_induction hremove ids h
  cases c with
  | push rule =>
    simp only [call, tryPush]
    cases hvalid : rule.validate with
    | error e => exact h
    | ok _ =>
      cases hp : r.table.push rule with
      | error e => exact h
      | ok pushed =>
        simpa only [Attempt.ofChange, table_commit] using hpush _ _ _ _ h hvalid hp
  | pushBatch rules =>
    simp only [call]
    cases hvalid : validateAll rules with
    | error e => rw [tryPushBatch, hvalid]; exact h
    | ok _ =>
      have hall : P (r.table.pushAll rules).2 :=
        RuleTable.pushAll_induction
          (fun t rule t' changed ht hr => hpush t rule t' changed ht
            (validateAll_eq_ok_iff.mp hvalid rule hr)) h
      rw [tryPushBatch_eq_of_valid hvalid]
      rcases hp : r.table.pushAll rules with ⟨_ | (_ | _), table⟩
      · exact h
      · exact h
      · simpa only [Attempt.ofChange, table_commit, hp] using hall
  | pop id => exact hpop [id]
  | popBatch ids => exact hpop ids

/-- Every call keeps a table well-formed. -/
theorem wellFormed_call (h : r.table.WellFormed) (mint : Mint) (c : Call) :
    (r.call mint c).after.table.WellFormed :=
  table_call (fun _ _ _ _ ht _ hp => ht.push hp) (fun _ id ht => ht.remove id) h mint c

theorem wellFormed_of_isNew (h : IsNew r) : r.table.WellFormed := by
  obtain ⟨mint, rfl⟩ := h
  exact RuleTable.wellFormed_empty

/-- The pushes that restore a registry keep what they keep, though no rule is validated. -/
theorem wellFormed_of_isRestored (h : IsRestored r) : r.table.WellFormed := by
  obtain ⟨rules, version, h⟩ := h
  rw [ofParts] at h
  have hall := RuleTable.wellFormed_empty.pushAll rules
  rcases hp : RuleTable.empty.pushAll rules with ⟨_ | changed, table⟩ <;> rw [hp] at h hall
  · cases h
  · cases h; exact hall

theorem Reachable.wellFormed (h : Reachable r) : r.table.WellFormed := by
  induction h with
  | start h => exact h.elim wellFormed_of_isNew wellFormed_of_isRestored
  | call _ mint c ih => exact wellFormed_call ih mint c

theorem ReachableFrom.allValid (h : ReachableFrom IsNew r) : r.table.AllValid := by
  induction h with
  | start h =>
    obtain ⟨mint, rfl⟩ := h
    exact RuleTable.allValid_empty
  | call _ mint c ih =>
    exact table_call (fun _ _ _ _ ht hvalid hp => ht.push hvalid hp) (fun _ id ht => ht.remove id)
      ih mint c

/-- **The index of a reachable registry is exact and its rules are consistent**, whether or not the
calls that led to it succeeded.  All rules are valid if the first registry was new; a restored one
has rules that nobody has validated. -/
theorem reachable_exact_and_consistent (h : Reachable r) :
    r.table.Exact ∧ r.table.Consistent ∧ (ReachableFrom IsNew r → r.table.AllValid) :=
  ⟨h.wellFormed.exact, h.wellFormed.consistent, ReachableFrom.allValid⟩

/-- A new registry after a rule has been put in, one that conflicts with it has been refused, and a
batch with a malformed rule has been refused. -/
def afterRefusals : Registry :=
  let first := Rule.of (.ofNat 1) "billing" (.otherCapability "billing-v2")
  let r := ((new default).1.call default (.push first)).after
  let r := (r.call default (.push (.of (.ofNat 2) "billing" (.classPrefix "fast")))).after
  (r.call default (.pushBatch [.of (.ofNat 3) "stock" (.classPrefix "new"),
    .of (.ofNat 4) "" (.classPrefix "new")])).after

theorem reachable_exact_and_consistent_afterRefusals :
    afterRefusals.table.Exact ∧ afterRefusals.table.Consistent ∧ afterRefusals.table.AllValid ∧
      (afterRefusals.rulesFor "billing").map Rule.id = [.ofNat 1] := by
  have hnew : ReachableFrom IsNew afterRefusals :=
    .call (.call (.call (.start ⟨default, rfl⟩) default _) default _) default _
  obtain ⟨hexact, hconsistent, hvalid⟩ :=
    reachable_exact_and_consistent (hnew.mono fun _ h => .inl h)
  exact ⟨hexact, hconsistent, hvalid hnew, by decide⟩

end Registry

end Signpost.Redirection

import Signpost.Redirection.Registry

/-!
# Batches

A batch goes into a copy of the table and then, in a second pass, into the table itself.  The second
pass would leave the first rules of the batch behind if it were refused half-way, so that a batch is
put in as a whole or not at all only because the table takes what its copy has taken.  Apart from
that a batch is the same as its rules one after another, with one new version in place of several.

## Main definitions

* `Registry.pushEach`: the rules of a list one after another, until one of them is refused.
* `Attempt.Whole`: a call has drawn one new version or changed nothing.

## Main results

* `RuleTable.pushAll_eq_ok`: a list changes a table if one of its identifiers is not there yet.
* `Registry.pushEach_eq_pushAll`: single calls do to the table what the passes of a batch do.
* `Registry.whole_tryPush`, `Registry.whole_tryPushBatch`, `Registry.whole_popBatch`
* `Registry.tryPushBatch_whole_or_nothing`
-/

namespace Signpost.Redirection

/-! ## The pass of a batch over a table -/

namespace RuleTable

variable {t t' : RuleTable} {rule : Rule} {rules : List Rule} {changed : Bool} {e : Error}

/-- The table refuses a rule only because of a conflict. -/
theorem push_eq_error (h : t.push rule = .error e) :
    ∃ existing ∈ t.rulesFor rule.source, existing.conflictsWith rule = true ∧
      e = .conflict rule.id existing.id rule.source := by
  rcases t.push_cases rule with ⟨-, heq⟩ | ⟨-, -, heq⟩ | ⟨-, existing, hmem, hconflict, heq⟩ <;>
    rw [heq] at h <;> cases h
  exact ⟨existing, hmem, hconflict, rfl⟩

/-- A rule that is passed over leaves the table as it was. -/
theorem push_eq_ok_false (h : t.push rule = .ok (t', false)) :
    t' = t ∧ t.rules.get? rule.id ≠ none := by
  rcases t.push_cases rule with ⟨⟨known, hknown⟩, heq⟩ | ⟨-, -, heq⟩ | ⟨-, _, -, -, heq⟩ <;>
    rw [heq] at h <;> cases h
  exact ⟨rfl, by simp [hknown]⟩

/-- A rule that goes in was not there. -/
theorem push_eq_ok_true (h : t.push rule = .ok (t', true)) : t.rules.get? rule.id = none := by
  rcases t.push_cases rule with ⟨-, heq⟩ | ⟨hnew, -, heq⟩ | ⟨-, _, -, -, heq⟩ <;>
    rw [heq] at h <;> cases h
  exact hnew

/-- A list of rules is refused only because of a conflict. -/
theorem pushAll_eq_error (h : t.pushAll rules = (.error e, t')) :
    ∃ incoming existing source, e = .conflict incoming existing source := by
  induction rules generalizing t with
  | nil => cases h
  | cons rule rest ih =>
    rw [pushAll] at h
    cases hp : t.push rule with
    | error refusal =>
      rw [hp] at h
      cases h
      obtain ⟨existing, -, -, he⟩ := push_eq_error hp
      exact ⟨_, _, _, he⟩
    | ok pushed =>
      rw [hp] at h
      rcases hrest : pushed.1.pushAll rest with ⟨_ | _, after⟩ <;>
        simp only [hrest, Except.map] at h <;> cases h
      exact ih hrest

/-- A list that is taken changes the table if one of its identifiers is not there yet, and leaves it
as it was otherwise. -/
theorem pushAll_eq_ok (h : t.pushAll rules = (.ok changed, t')) :
    (changed = true ↔ ∃ rule ∈ rules, t.rules.get? rule.id = none) ∧
      (changed = false → t' = t) := by
  induction rules generalizing t changed with
  | nil => cases h; simp
  | cons rule rest ih =>
    rw [pushAll] at h
    rcases hp : t.push rule with _ | ⟨after, inserted⟩
    · rw [hp] at h; cases h
    rw [hp] at h
    rcases hrest : after.pushAll rest with ⟨_ | later, last⟩ <;>
      simp only [hrest, Except.map] at h <;> cases h
    obtain ⟨hchanged, hsame⟩ := ih hrest
    cases inserted with
    | true => simp [push_eq_ok_true hp]
    | false =>
      obtain ⟨rfl, hknown⟩ := push_eq_ok_false hp
      simpa [hknown] using ⟨hchanged, hsame⟩

/-- Removals that take nothing out leave the table as it was. -/
theorem removeAll_eq_false {ids : List Uuid} (h : t.removeAll ids = (t', false)) : t' = t := by
  induction ids generalizing t with
  | nil => cases h; rfl
  | cons id rest ih =>
    rcases t.remove_cases id with ⟨-, heq⟩ | ⟨rule, -, heq⟩ <;>
      simp only [removeAll, heq, Bool.false_or, Bool.true_or, Prod.mk.injEq] at h
    · exact ih (Prod.ext h.1 h.2)
    · cases h.2

end RuleTable

/-! ## Whole calls -/

/-- A call that has changed something has drawn one new version, and any other call has changed
nothing at all. -/
structure Attempt.Whole (r : Registry) (mint : Mint) (a : Attempt) : Prop where
  changed : a.verdict = .ok true → (a.after.version, a.mint) = Version.fresh mint
  unchanged : a.verdict ≠ .ok true → a.after = r ∧ a.mint = mint

namespace Registry

variable {r : Registry} {rule : Rule} {rules : List Rule}

theorem whole_of_same {verdict : Except Error Bool} (h : verdict ≠ .ok true) (r : Registry)
    (mint : Mint) : Attempt.Whole r mint ⟨verdict, r, mint⟩ where
  changed hchanged := absurd hchanged h
  unchanged _ := ⟨rfl, rfl⟩

/-- A commit is whole if a table in which nothing has changed is the one from before. -/
theorem whole_commit (r : Registry) (table : RuleTable) (changed : Bool) (mint : Mint)
    (hsame : changed = false → table = r.table) :
    (Attempt.ofChange (r.commit table changed mint)).Whole r mint := by
  cases changed with
  | true => exact ⟨fun _ => rfl, fun h => absurd rfl h⟩
  | false =>
    rw [hsame rfl]
    show Attempt.Whole r mint ⟨.ok false, r, mint⟩
    exact whole_of_same (by simp) r mint

theorem whole_tryPush (r : Registry) (rule : Rule) (mint : Mint) :
    (r.tryPush rule mint).Whole r mint := by
  rw [tryPush]
  split
  · exact whole_of_same (by simp) r mint
  · split
    · exact whole_of_same (by simp) r mint
    · next table changed hp =>
      refine whole_commit r table changed mint ?_
      rintro rfl
      exact (RuleTable.push_eq_ok_false hp).1

theorem whole_tryPushBatch (r : Registry) (rules : List Rule) (mint : Mint) :
    (r.tryPushBatch rules mint).Whole r mint := by
  cases hvalid : validateAll rules with
  | error e => rw [tryPushBatch, hvalid]; exact whole_of_same (by simp) r mint
  | ok _ =>
    rw [tryPushBatch_eq_of_valid hvalid]
    rcases r.table.pushAll rules with ⟨_ | (_ | _), table⟩
    · exact whole_of_same (by simp) r mint
    · exact whole_of_same (by simp) r mint
    · exact whole_commit r table true mint Bool.noConfusion

theorem whole_popBatch (r : Registry) (ids : List Uuid) (mint : Mint) :
    (Attempt.ofChange (r.popBatch ids mint)).Whole r mint := by
  rw [popBatch]
  rcases hr : r.table.removeAll ids with ⟨table, changed⟩
  refine whole_commit r table changed mint ?_
  rintro rfl
  exact RuleTable.removeAll_eq_false hr

/-! ## Rules one after another -/

/-- Puts in rules one after another, each with a call of its own, until one of them is refused; says
whether any of them was new. -/
def pushEach (r : Registry) : List Rule → Mint → Attempt
  | [], mint => ⟨.ok false, r, mint⟩
  | rule :: rest, mint =>
    match r.tryPush rule mint with
    | ⟨.error e, after, mint⟩ => ⟨.error e, after, mint⟩
    | ⟨.ok changed, after, mint⟩ =>
      let last := after.pushEach rest mint
      { last with verdict := last.verdict.map (changed || ·) }

theorem validate_eq_ok_iff : rule.validate = .ok () ↔ rule.defect? = none := by
  rw [Rule.validate]
  cases rule.defect? <;> simp

/-- What a call with a valid rule says and does to the table, whatever becomes of the version. -/
theorem tryPush_eq_push (hvalid : rule.validate = .ok ()) (mint : Mint) :
    (∃ e, r.table.push rule = .error e ∧ r.tryPush rule mint = ⟨.error e, r, mint⟩) ∨
    ∃ table changed version mint', r.table.push rule = .ok (table, changed) ∧
      r.tryPush rule mint = ⟨.ok changed, ⟨table, version⟩, mint'⟩ := by
  rcases hp : r.table.push rule with e | ⟨table, _ | _⟩
  · exact .inl ⟨e, rfl, by simp [tryPush, hvalid, hp]⟩
  · exact .inr ⟨table, false, r.version, mint, rfl, by
      simp [tryPush, hvalid, hp, commit, Attempt.ofChange]⟩
  · exact .inr ⟨table, true, (Version.fresh mint).1, (Version.fresh mint).2, rfl, by
      simp [tryPush, hvalid, hp, commit, Attempt.ofChange]⟩

/-- Single calls with valid rules end where the pass of a batch ends, with the same verdict. -/
theorem pushEach_eq_pushAll (hvalid : ∀ rule ∈ rules, rule.validate = .ok ()) (mint : Mint) :
    ((r.pushEach rules mint).verdict, (r.pushEach rules mint).after.table) =
      r.table.pushAll rules := by
  induction rules generalizing r mint with
  | nil => rfl
  | cons rule rest ih =>
    rw [List.forall_mem_cons] at hvalid
    obtain ⟨hrule, hrest⟩ := hvalid
    rcases tryPush_eq_push hrule mint with ⟨e, hp, heq⟩ | ⟨table, changed, version, mint', hp, heq⟩
    · rw [pushEach, heq, RuleTable.pushAll, hp]
    · rw [pushEach, heq, RuleTable.pushAll, hp]
      simp only [← ih (r := ⟨table, version⟩) hrest mint']

/-- The first invalid rule of a list is the one that the list is refused for. -/
theorem validateAll_eq_error {before rest : List Rule} {bad : Rule} {defect : Defect}
    (hbefore : ∀ rule ∈ before, rule.defect? = none) (hbad : bad.defect? = some defect) :
    validateAll (before ++ bad :: rest) = .error (.validation bad.id defect) := by
  induction before with
  | nil => simp [validateAll, Rule.validate, hbad, bind, Except.bind]
  | cons rule before ih =>
    rw [List.forall_mem_cons] at hbefore
    simp only [List.cons_append, validateAll, validate_eq_ok_iff.mpr hbefore.1,
      ih hbefore.2, bind, Except.bind]

/-- A batch of one rule is a single call. -/
theorem tryPushBatch_singleton (r : Registry) (rule : Rule) (mint : Mint) :
    r.tryPushBatch [rule] mint = r.tryPush rule mint := by
  cases hrule : rule.validate with
  | error e => simp [tryPushBatch, validateAll, tryPush, hrule, bind, Except.bind]
  | ok _ =>
    have hall : validateAll [rule] = .ok () := by simp [validateAll_eq_ok_iff, hrule]
    rw [tryPushBatch_eq_of_valid hall, RuleTable.pushAll, tryPush, hrule]
    rcases hp : r.table.push rule with e | ⟨table, _ | _⟩
    · rfl
    · rw [(RuleTable.push_eq_ok_false hp).1]; rfl
    · rfl

/-- **A batch is put in as a whole or not at all**, and as its rules would be one after another.  A
batch with an invalid rule is refused for the first of them, and a batch that conflicts, with the
table or within itself, for what the first refused call would be refused for; then nothing at all
has changed.  Otherwise the table is that of the single calls, with the order of each source, and
there is one new version if a rule of the batch was new and the old one if none was. -/
theorem tryPushBatch_whole_or_nothing (r : Registry) (rules : List Rule) (mint : Mint) :
    (∀ before bad rest defect, rules = before ++ bad :: rest →
      (∀ rule ∈ before, rule.defect? = none) → bad.defect? = some defect →
        r.tryPushBatch rules mint = ⟨.error (.validation bad.id defect), r, mint⟩) ∧
    ((∀ rule ∈ rules, rule.defect? = none) →
      match (r.pushEach rules mint).verdict with
      | .error e =>
        (∃ incoming existing source, e = .conflict incoming existing source) ∧
          r.tryPushBatch rules mint = ⟨.error e, r, mint⟩
      | .ok changed =>
        let batch := r.tryPushBatch rules mint
        batch.verdict = .ok changed ∧
          batch.after.table = (r.pushEach rules mint).after.table ∧
          (changed = true ↔ ∃ rule ∈ rules, r.get? rule.id = none) ∧
          (changed = true → (batch.after.version, batch.mint) = Version.fresh mint) ∧
          (changed = false → batch.after = r ∧ batch.mint = mint)) ∧
    ∀ rule, rules = [rule] → r.tryPushBatch rules mint = r.tryPush rule mint := by
  refine ⟨?_, ?_, ?_⟩
  · rintro before bad rest defect rfl hbefore hbad
    rw [tryPushBatch, validateAll_eq_error hbefore hbad]
  · intro hvalid
    simp only [← validate_eq_ok_iff] at hvalid
    have heach := r.pushEach_eq_pushAll hvalid mint
    have hbatch := tryPushBatch_eq_of_valid (r := r) (validateAll_eq_ok_iff.mpr hvalid) mint
    rcases hpass : r.table.pushAll rules with ⟨e | changed, table⟩ <;>
      rw [hpass] at heach hbatch <;> obtain ⟨hverdict, htable⟩ := Prod.ext_iff.mp heach <;>
      dsimp only at hverdict htable <;> rw [hverdict]
    · exact ⟨RuleTable.pushAll_eq_error hpass, hbatch⟩
    · obtain ⟨hchanged, hsame⟩ := RuleTable.pushAll_eq_ok hpass
      have hwhole := r.whole_tryPushBatch rules mint
      have hbverdict : (r.tryPushBatch rules mint).verdict = .ok changed := by
        rw [hbatch]; cases changed <;> rfl
      refine ⟨hbverdict, ?_, hchanged, fun h => hwhole.changed (by rw [hbverdict, h]),
        fun h => hwhole.unchanged (by simp [hbverdict, h])⟩
      rw [htable, hbatch]
      cases changed with
      | true => rfl
      | false => exact (hsame rfl).symm
  · rintro rule rfl
    exact r.tryPushBatch_singleton rule mint

/-- A registry with one rule. -/
def stocked : Registry :=
  ((new default).1.tryPush (.of (.ofNat 1) "billing" (.classPrefix "fast")) default).after

/-- A batch with a rule that is there already, a new one, and one that conflicts with the new
one. -/
def clashingBatch : List Rule :=
  [.of (.ofNat 1) "billing" (.classPrefix "slow"), .of (.ofNat 5) "stock" (.classPrefix "new"),
    .of (.ofNat 6) "stock" (.classPrefix "old")]

theorem tryPushBatch_whole_or_nothing_clashingBatch :
    stocked.tryPushBatch clashingBatch default =
      ⟨.error (.conflict (.ofNat 6) (.ofNat 5) "stock"), stocked, default⟩ := by
  have hbatch := (tryPushBatch_whole_or_nothing stocked clashingBatch default).2.1 (by decide)
  have heach : (stocked.pushEach clashingBatch default).verdict =
      .error (.conflict (.ofNat 6) (.ofNat 5) "stock") := by rfl
  rw [heach] at hbatch
  exact hbatch.2

end Registry

end Signpost.Redirection

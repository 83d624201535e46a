import Signpost.Timing

/-!
# Calls under a limit and a cancellation

Left to itself, a call under a limit gives a result in time, fails in time, or runs out of time; or
it is pending for ever, if it takes for ever and there is no limit.  A caller who is told to give up
does so before every later moment.

## Main definitions

* `Course.Answers`, `Course.Fails`: a call gives a result, or gives none, after some time.
* `Course.Yields`, `Course.EndsAt`: what comes of a call, and when it is over.

## Main results

* `Course.within_snd_eq_some_iff`: when a call under a limit is over.
* `Cancel.before_mono`
-/

namespace Signpost

/-! ## Calls under a limit -/

namespace Course

variable {β : Type} {c : Course β} {limit : Option Nat} {d d' : Nat} {b : β}

/-- A call is over by itself after a time that its limit allows. -/
def InTime (c : Course β) (limit : Option Nat) (d : Nat) : Prop :=
  c.delay = some d ∧ ∀ l, limit = some l → d ≤ l

/-- A call gives a result in time. -/
def Answers (c : Course β) (limit : Option Nat) (d : Nat) (b : β) : Prop :=
  c.InTime limit d ∧ c.result = .ok b

/-- A call fails in time, or runs out of time. -/
def Fails (c : Course β) (limit : Option Nat) (d : Nat) : Prop :=
  (c.InTime limit d ∧ ∃ f, c.result = .error f) ∨
    (limit = some d ∧ ∀ t, c.delay = some t → d < t)

/-- What a call yields: its result, or nothing if it fails or runs out of time. -/
def Yields (c : Course β) (limit : Option Nat) : Option β → Prop
  | some b => ∃ d, c.Answers limit d b
  | none => ∃ d, c.Fails limit d

/-- A call is over after some time, whatever comes of it. -/
def EndsAt (c : Course β) (limit : Option Nat) (d : Nat) : Prop :=
  (∃ b, c.Answers limit d b) ∨ c.Fails limit d

theorem InTime.endsAt (h : c.InTime limit d) : c.EndsAt limit d := by
  cases hresult : c.result with
  | ok b => exact .inl ⟨b, h, hresult⟩
  | error f => exact .inr (.inl ⟨h, f, hresult⟩)

/-- A result that is there at once is in time, whatever the limit. -/
theorem answers_prompt (limit : Option Nat) (b : β) : (prompt (.ok b)).Answers limit 0 b :=
  ⟨⟨rfl, fun l _ => Nat.zero_le l⟩, rfl⟩

theorem Yields.exists_endsAt {outcome : Option β} (h : c.Yields limit outcome) :
    ∃ d, c.EndsAt limit d := by
  cases outcome with
  | some b => exact h.imp fun d hanswers => .inl ⟨b, hanswers⟩
  | none => exact h.imp fun d hfails => .inr hfails

/-- A call that has a limit, or does not take for ever, is over at some time. -/
theorem exists_endsAt (h : limit.isSome = true ∨ c.delay.isSome = true) :
    ∃ d, c.EndsAt limit d := by
  cases limit with
  | none =>
    obtain ⟨d, hd⟩ := Option.isSome_iff_exists.mp (h.resolve_left (by simp))
    exact ⟨d, InTime.endsAt ⟨hd, nofun⟩⟩
  | some l =>
    by_cases hearly : ∃ t, c.delay = some t ∧ t ≤ l
    · obtain ⟨t, ht, hle⟩ := hearly
      exact ⟨t, InTime.endsAt ⟨ht, fun _ heq => Option.some.inj heq ▸ hle⟩⟩
    · refine ⟨l, .inr (.inr ⟨rfl, fun t ht => ?_⟩)⟩
      exact Nat.lt_of_not_le fun hle => hearly ⟨t, ht, hle⟩

theorem InTime.within (h : c.InTime limit d) :
    c.within limit = (c.result.mapError .failed, some d) := by
  obtain ⟨hdelay, hle⟩ := h
  cases limit with
  | none => simp [Course.within, hdelay]
  | some l => simp [Course.within, hdelay, hle l rfl]

theorem Answers.within (h : c.Answers limit d b) : c.within limit = (.ok b, some d) := by
  rw [h.1.within, h.2]
  rfl

theorem Fails.within (h : c.Fails limit d) :
    ∃ e, e ≠ .cancelled ∧ c.within limit = (.error e, some d) := by
  rcases h with ⟨hin, f, hresult⟩ | ⟨rfl, hlate⟩
  · exact ⟨.failed f, nofun, by rw [hin.within, hresult]; rfl⟩
  · refine ⟨.timedOut d, nofun, ?_⟩
    cases hdelay : c.delay with
    | none => simp [Course.within, hdelay]
    | some t => simp [Course.within, hdelay, Nat.not_le_of_gt (hlate t hdelay)]

theorem EndsAt.within (h : c.EndsAt limit d) : (c.within limit).2 = some d := by
  rcases h with ⟨b, h⟩ | h
  · rw [h.within]
  · obtain ⟨e, -, heq⟩ := h.within
    rw [heq]

theorem within_snd_eq_some_iff : (c.within limit).2 = some d ↔ c.EndsAt limit d := by
  refine ⟨fun h => ?_, EndsAt.within⟩
  by_cases hends : limit.isSome = true ∨ c.delay.isSome = true
  · obtain ⟨d', hd'⟩ := exists_endsAt hends
    cases h.symm.trans hd'.within
    exact hd'
  -- without a limit, a call that takes for ever is never over
  · obtain ⟨hlimit, hdelay⟩ := not_or.mp hends
    simp only [Option.not_isSome_iff_eq_none] at hlimit hdelay
    rw [hlimit, Course.within, hdelay] at h
    cases h

theorem Fails.not_answers (h : c.Fails limit d) : ¬c.Answers limit d' b := by
  obtain ⟨e, -, heq⟩ := h.within
  intro h'
  cases heq.symm.trans h'.within

end Course

/-! ## Cancellations -/

namespace Cancel

variable {cancel : Cancel} {t t' : Nat}

@[simp] theorem before_never (t : Nat) : never.before t = false := rfl

theorem before_mono (hle : t ≤ t') (h : cancel.before t = true) : cancel.before t' = true := by
  cases cancel with
  | never => exact h
  | already => rfl
  | after ms =>
    have hlt : ms < t := of_decide_eq_true h
    exact decide_eq_true (Nat.lt_of_lt_of_le hlt hle)

theorem before_eq_false_of_le (hle : t ≤ t') (h : cancel.before t' = false) :
    cancel.before t = false := by
  rw [← Bool.not_eq_true] at h ⊢
  exact fun hbefore => h (before_mono hle hbefore)

/-- A call that begins after its caller was told to give up is given up at once. -/
theorem moment_of_before (h : cancel.before t = true) : cancel.moment t = some t := by
  cases cancel with
  | never => cases h
  | already => rfl
  | after ms =>
    have hlt : ms < t := of_decide_eq_true h
    rw [moment, Nat.max_eq_right (Nat.le_of_lt hlt)]

theorem isSome_moment (h : cancel ≠ never) (t : Nat) : (cancel.moment t).isSome = true := by
  cases cancel with
  | never => exact absurd rfl h
  | already => rfl
  | after ms => rfl

end Cancel

end Signpost

/-!
# What prevails in a sequence

Of things that are done one after another the last one counts, as long as nothing that comes later
undoes it.  Whatever a sequence of steps brings about is told by what prevails in it, if it is told
of each step what it brings about and what it leaves as it was.

## Main definitions

* `Prevails`: something is done, and all that comes later spares it.

## Main results

* `foldl_iff_prevails`: what holds at the end of a sequence of steps.
-/

namespace Signpost

variable {α σ : Type} {does spares : α → Prop} {a : α} {l : List α}

/-- Some member of the list does it, and all later ones spare it. -/
def Prevails (does spares : α → Prop) (l : List α) : Prop :=
  ∃ earlier a later, l = earlier ++ a :: later ∧ does a ∧ ∀ b ∈ later, spares b

theorem not_prevails_nil : ¬ Prevails does spares [] := by
  rintro ⟨earlier, a, later, heq, -⟩
  cases earlier <;> cases heq

/-- The first member counts unless it is undone by what follows it. -/
theorem prevails_cons_iff : Prevails does spares (a :: l) ↔
    Prevails does spares l ∨ does a ∧ ∀ b ∈ l, spares b := by
  constructor
  · rintro ⟨earlier, b, later, heq, hdoes, hlater⟩
    cases earlier with
    | nil =>
      cases heq
      exact .inr ⟨hdoes, hlater⟩
    | cons first earlier =>
      cases heq
      exact .inl ⟨earlier, b, later, rfl, hdoes, hlater⟩
  · rintro (⟨earlier, b, later, rfl, hdoes, hlater⟩ | ⟨hdoes, hlater⟩)
    · exact ⟨a :: earlier, b, later, rfl, hdoes, hlater⟩
    · exact ⟨[], a, l, rfl, hdoes, hlater⟩

/-- Where only one thing does it, the list has it with nothing behind it that undoes it. -/
theorem prevails_eq_iff : Prevails (· = a) spares l ↔
    ∃ earlier later, l = earlier ++ a :: later ∧ ∀ b ∈ later, spares b := by
  constructor
  · rintro ⟨earlier, _, later, heq, rfl, hlater⟩
    exact ⟨earlier, later, heq, hlater⟩
  · rintro ⟨earlier, later, heq, hlater⟩
    exact ⟨earlier, a, later, heq, rfl, hlater⟩

/-- **What holds after some steps** is brought about by one of them and spared by those after it, or
it held before and is spared by all. -/
theorem foldl_iff_prevails {step : σ → α → σ} {P : σ → Prop}
    (hstep : ∀ s a, P (step s a) ↔ does a ∨ spares a ∧ P s) (s : σ) (l : List α) :
    P (l.foldl step s) ↔ Prevails does spares l ∨ (∀ a ∈ l, spares a) ∧ P s := by
  induction l generalizing s with
  | nil => simp [not_prevails_nil]
  | cons a rest ih =>
    rw [List.foldl_cons, ih, hstep, prevails_cons_iff, List.forall_mem_cons]
    -- the first step is the one that prevails, or one that spares what was there before
    constructor
    · rintro (hrest | ⟨hspared, hdoes | ⟨hfirst, hbefore⟩⟩)
      · exact .inl (.inl hrest)
      · exact .inl (.inr ⟨hdoes, hspared⟩)
      · exact .inr ⟨⟨hfirst, hspared⟩, hbefore⟩
    · rintro ((hrest | ⟨hdoes, hspared⟩) | ⟨⟨hfirst, hspared⟩, hbefore⟩)
      · exact .inl hrest
      · exact .inr ⟨hspared, .inl hdoes⟩
      · exact .inr ⟨hspared, .inr ⟨hfirst, hbefore⟩⟩

/-- What did not hold before the steps holds after them if it prevails in them. -/
theorem foldl_iff_prevails_of_not {step : σ → α → σ} {P : σ → Prop}
    (hstep : ∀ s a, P (step s a) ↔ does a ∨ spares a ∧ P s) {s : σ} (hbefore : ¬ P s)
    (l : List α) : P (l.foldl step s) ↔ Prevails does spares l :=
  (foldl_iff_prevails hstep s l).trans (or_iff_left fun h => hbefore h.2)

end Signpost

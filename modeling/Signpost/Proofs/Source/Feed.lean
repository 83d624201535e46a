import Signpost.Proofs.Source.Following

/-!
# Accounts of a change feed

A receiver goes through the events of its source one after another, skips those that are not
retained any longer, and leaves when its source is gone and it has come to the end.  So the feed
accounts for every event of every source, each once and in its place, whichever receivers have left
and wherever the others have been moved.

## Main definitions

* `ChangeFeed.Following.Accounted`: what has been taken of every source.
* `ChangeFeed.Following.Run`: the runs of a feed.

## Main results

* `ChangeFeed.Following.Accounted.step`, `ChangeFeed.Following.Run.accounted`: every move keeps the
  accounts.
* `ChangeFeed.Following.Run.fate`, `ChangeFeed.Following.Run.retained_yielded`: what has become of
  an event.
-/

namespace Signpost.ChangeFeed.Following

open Channel (Receiver capacity)

variable {x y : Following} {m : Move} {moves : List Move} {n i j k : Nat}
  {c : Channel DataChanged} {t : Taking}

/-! ## Accounts -/

/-- A channel has come to be another one: more may have been sent before it was closed. -/
structure Grows (c c' : Channel DataChanged) : Prop where
  sent : c.sent <+: c'.sent
  closed : c.closed = true → c' = c

theorem Grows.refl (c : Channel DataChanged) : Grows c c := ⟨List.prefix_refl _, fun _ => rfl⟩

theorem grows_send (hopen : c.closed = false) (e : DataChanged) : Grows c (c.send e) :=
  ⟨List.prefix_append _ _, fun hclosed => nomatch hopen.symm.trans hclosed⟩

theorem grows_close (c : Channel DataChanged) : Grows c c.close := by
  refine ⟨List.prefix_refl _, fun hclosed => ?_⟩
  rw [Channel.close, ← hclosed]

/-- When one channel grows, what any of them becomes has grown from it. -/
theorem exists_grows_set {channels : List (Channel DataChanged)} {c' d : Channel DataChanged}
    (hc : channels[n]? = some c) (hgrows : Grows c c') (hd : channels[k]? = some d) :
    ∃ d', (channels.set n c')[k]? = some d' ∧ Grows d d' := by
  by_cases hk : n = k
  · subst hk
    cases hc.symm.trans hd
    exact ⟨c', List.getElem?_set_self (List.getElem?_eq_some_iff.mp hc).1, hgrows⟩
  · exact ⟨d, by rw [List.getElem?_set_ne hk, hd], .refl d⟩

@[inherit_doc exists_grows_set]
theorem exists_grows_of_set {channels : List (Channel DataChanged)} {c' d : Channel DataChanged}
    (hc : channels[n]? = some c) (hgrows : Grows c c') (hd : (channels.set n c')[k]? = some d) :
    ∃ d', channels[k]? = some d' ∧ Grows d' d := by
  by_cases hk : n = k
  · subst hk
    rw [List.getElem?_set_self (List.getElem?_eq_some_iff.mp hc).1] at hd
    cases hd
    exact ⟨c, hc, hgrows⟩
  · rw [List.getElem?_set_ne hk] at hd
    exact ⟨d, hd, .refl d⟩

/-- Everything that a source has sent since the feed was made is accounted for: up to where its
receiver has come, or to the end if its receiver has left; each event in its place, and only if it
was sent; and what was skipped was not retained any longer. -/
structure Accounted (born : Nat → Nat) (x : Following) : Prop where
  distinct : (x.feed.receivers.map Prod.fst).Nodup
  present : ∀ n r, (n, r) ∈ x.feed.receivers →
    born n ≤ r.next ∧ numbers n x.log = List.range' (born n) (r.next - born n) ∧
      ∃ c, x.channels[n]? = some c ∧ r.next ≤ c.sent.length
  gone : ∀ n c, x.channels[n]? = some c → (∀ r, (n, r) ∉ x.feed.receivers) →
    c.closed = true ∧ numbers n x.log = List.range' (born n) (c.sent.length - born n)
  events : ∀ n i e, .event n i e ∈ x.log → ∃ c, x.channels[n]? = some c ∧ c.sent[i]? = some e
  gaps : ∀ n i j, .gap n i j ∈ x.log → ∃ c, x.channels[n]? = some c ∧ j + capacity ≤ c.sent.length

namespace Accounted

variable {born : Nat → Nat}

/-- What is accounted for stays so when a source sends or is dropped. -/
theorem grow (h : x.Accounted born) {c' : Channel DataChanged} (hc : x.channels[n]? = some c)
    (hgrows : Grows c c') : Accounted born { x with channels := x.channels.set n c' } where
  distinct := h.distinct
  present k r hr := by
    obtain ⟨hborn, hnumbers, d, hd, hlength⟩ := h.present k r hr
    obtain ⟨d', hd', hgrown⟩ := exists_grows_set hc hgrows hd
    exact ⟨hborn, hnumbers, d', hd', Nat.le_trans hlength hgrown.sent.length_le⟩
  gone k d' hd' hgone := by
    obtain ⟨d, hd, hgrown⟩ := exists_grows_of_set hc hgrows hd'
    obtain ⟨hclosed, hnumbers⟩ := h.gone k d hd hgone
    rw [hgrown.closed hclosed]
    exact ⟨hclosed, hnumbers⟩
  events k i e he := by
    obtain ⟨d, hd, hsent⟩ := h.events k i e he
    obtain ⟨d', hd', hgrown⟩ := exists_grows_set hc hgrows hd
    obtain ⟨later, hlater⟩ := hgrown.sent
    refine ⟨d', hd', ?_⟩
    rw [← hlater, List.getElem?_append_left (List.getElem?_eq_some_iff.mp hsent).1, hsent]
  gaps k i j hgap := by
    obtain ⟨d, hd, hlength⟩ := h.gaps k i j hgap
    obtain ⟨d', hd', hgrown⟩ := exists_grows_set hc hgrows hd
    exact ⟨d', hd', Nat.le_trans hlength hgrown.sent.length_le⟩

/-- What a receiver takes or skips is accounted for next. -/
theorem advance (h : x.Accounted born) (hr : x.feed.receivers[i]? = some (n, ⟨k⟩))
    (hc : x.channels[n]? = some c) (hkj : k ≤ j) (hj : j ≤ c.sent.length)
    (hnumbers : ∀ m, t.numbers m = if n = m then List.range' k (j - k) else [])
    (hevent : ∀ m i e, t = .event m i e → ∃ c, x.channels[m]? = some c ∧ c.sent[i]? = some e)
    (hgap : ∀ m i j, t = .gap m i j → ∃ c, x.channels[m]? = some c ∧
      j + capacity ≤ c.sent.length) :
    Accounted born { x with
      feed := ⟨x.feed.receivers.set i (n, ⟨j⟩)⟩, log := x.log ++ [t] } where
  distinct := (map_fst_set hr).symm ▸ h.distinct
  present m r hm := by
    rw [numbers_concat, hnumbers]
    rcases (mem_set_iff h.distinct hr).mp hm with ⟨rfl, rfl⟩ | ⟨hmn, hold⟩
    -- the account of the receiver goes on where it ended
    · obtain ⟨hborn, htaken, -⟩ := h.present m ⟨k⟩ (List.mem_of_getElem? hr)
      dsimp only at hborn htaken ⊢
      refine ⟨Nat.le_trans hborn hkj, ?_, c, hc, hj⟩
      rw [htaken, if_pos rfl, show List.range' k (j - k) =
        List.range' (born m + 1 * (k - born m)) (j - k) by congr 1; omega, List.range'_append]
      congr 1
      omega
    · rw [if_neg (Ne.symm hmn), List.append_nil]
      exact h.present m r hold
  gone m d hd hgone := by
    have hmn : n ≠ m := by
      rintro rfl
      exact hgone ⟨j⟩ ((mem_set_iff h.distinct hr).mpr (.inl ⟨rfl, rfl⟩))
    rw [numbers_concat, hnumbers, if_neg hmn, List.append_nil]
    exact h.gone m d hd fun r hold => hgone r ((mem_set_iff h.distinct hr).mpr
      (.inr ⟨Ne.symm hmn, hold⟩))
  events m i e he := by
    rcases List.mem_append.mp he with hold | hnew
    · exact h.events m i e hold
    · exact hevent m i e (List.mem_singleton.mp hnew).symm
  gaps m i j hg := by
    rcases List.mem_append.mp hg with hold | hnew
    · exact h.gaps m i j hold
    · exact hgap m i j (List.mem_singleton.mp hnew).symm

/-- A receiver that leaves has taken or skipped everything, and no other one is touched. -/
theorem leave (h : x.Accounted born) (hr : x.feed.receivers[i]? = some (n, ⟨k⟩))
    (hend : ∀ c, x.channels[n]? = some c → c.closed = true ∧ c.sent.length ≤ k) :
    Accounted born { x with
      feed := ⟨swapRemove x.feed.receivers i⟩, log := x.log ++ [.departure n] } where
  distinct := nodup_swapRemove h.distinct hr
  present m r hm := by
    rw [numbers_concat]
    show _ ∧ numbers m x.log ++ [] = _ ∧ _
    rw [List.append_nil]
    exact h.present m r ((mem_swapRemove_iff h.distinct hr).mp hm).2
  gone m d hd hgone := by
    rw [numbers_concat]
    show _ ∧ numbers m x.log ++ [] = _
    rw [List.append_nil]
    by_cases hmn : m = n
    -- the receiver itself has come to the end
    · subst hmn
      obtain ⟨hborn, htaken, c, hc, hle⟩ := h.present m ⟨k⟩ (List.mem_of_getElem? hr)
      cases hc.symm.trans hd
      obtain ⟨hclosed, hge⟩ := hend d hd
      exact ⟨hclosed, by rw [htaken, Nat.le_antisymm hle hge]⟩
    · exact h.gone m d hd fun r hold => hgone r ((mem_swapRemove_iff h.distinct hr).mpr ⟨hmn, hold⟩)
  events m i e he := by
    rcases List.mem_append.mp he with hold | hnew
    · exact h.events m i e hold
    · cases List.mem_singleton.mp hnew
  gaps m i j hg := by
    rcases List.mem_append.mp hg with hold | hnew
    · exact h.gaps m i j hold
    · cases List.mem_singleton.mp hnew

/-- Every move keeps the accounts. -/
theorem step (h : x.Accounted born) (hstep : x.step m = some y) : y.Accounted born := by
  cases effect_of_step hstep with
  | sent hc hopen e => exact h.grow hc (grows_send hopen e)
  | closed hc => exact h.grow hc (grows_close _)
  | @took i n k c e hr hc he =>
    refine h.advance hr hc (Nat.le_succ k) (List.getElem?_eq_some_iff.mp he).1 (fun m => ?_) ?_
      nofun
    · rw [Nat.add_sub_cancel_left]
      rfl
    · rintro m i' e' ⟨⟩
      exact ⟨c, hc, he⟩
  -- what is skipped is not retained any longer
  | @skipped i n k c hr hc hlag =>
    have holdest : c.oldest + capacity ≤ c.sent.length := by
      unfold Channel.oldest at hlag ⊢
      omega
    refine h.advance hr hc (Nat.le_of_lt hlag) (by omega) (fun m => rfl) nofun ?_
    rintro m i' j' ⟨⟩
    exact ⟨c, hc, holdest⟩
  | left hr hend => exact h.leave hr hend

end Accounted

/-! ## Runs -/

/-- A run of a feed of some sources, whatever they had sent before. -/
inductive Run (start : List (Channel DataChanged)) : Following → Prop
  | start : Run start ⟨start, .subscribe start, []⟩
  | step {x y : Following} {m : Move} (h : Run start x) (hstep : x.step m = some y) : Run start y

variable {start : List (Channel DataChanged)}

/-- How many events a source had sent before the feed was made. -/
def born (start : List (Channel DataChanged)) (n : Nat) : Nat :=
  ((start[n]?).map fun c => c.sent.length).getD 0

theorem accounted_start (start : List (Channel DataChanged)) :
    Accounted (born start) ⟨start, .subscribe start, []⟩ := by
  have hmem : ∀ n r, (n, r) ∈ (subscribe start).receivers ↔
      ∃ c, start[n]? = some c ∧ r = c.subscribe := by
    intro n r
    simp only [subscribe, List.mem_mapIdx, Prod.mk.injEq]
    constructor
    · rintro ⟨i, hi, rfl, rfl⟩
      exact ⟨_, List.getElem?_eq_getElem hi, rfl⟩
    · rintro ⟨c, hc, rfl⟩
      obtain ⟨hi, rfl⟩ := List.getElem?_eq_some_iff.mp hc
      exact ⟨n, hi, rfl, rfl⟩
  have hborn : ∀ n c, start[n]? = some c → born start n = c.sent.length := by
    intro n c hc
    rw [born, hc]
    rfl
  -- every source has its receiver, which begins after what had been sent
  refine ⟨?_, fun n r hr => ?_, fun n c hc hgone => ?_, nofun, nofun⟩
  · have hplaces : (subscribe start).receivers.map Prod.fst = List.range start.length := by
      refine List.ext_getElem (by simp [subscribe]) fun i hi hi' => ?_
      simp [subscribe]
    rw [hplaces]
    exact List.nodup_range
  · obtain ⟨c, hc, rfl⟩ := (hmem n r).mp hr
    rw [hborn n c hc]
    exact ⟨Nat.le_refl _, by simp [numbers, Channel.subscribe], c, hc, Nat.le_refl _⟩
  · exact absurd ((hmem n c.subscribe).mpr ⟨c, hc, rfl⟩) (hgone c.subscribe)

/-- Where the account of a source ends: where its receiver has come to, or at the end. -/
theorem Accounted.exists_end {born : Nat → Nat} (h : x.Accounted born)
    (hc : x.channels[n]? = some c) :
    ∃ k ≤ c.sent.length, numbers n x.log = List.range' (born n) (k - born n) ∧
      ((∃ r, (n, r) ∈ x.feed.receivers ∧ r.next = k) ∨
        (∀ r, (n, r) ∉ x.feed.receivers) ∧ c.closed = true ∧ k = c.sent.length) := by
  by_cases hpresent : ∃ r, (n, r) ∈ x.feed.receivers
  · obtain ⟨r, hr⟩ := hpresent
    obtain ⟨-, hnumbers, c', hc', hle⟩ := h.present n r hr
    cases hc.symm.trans hc'
    exact ⟨r.next, hle, hnumbers, .inl ⟨r, hr, rfl⟩⟩
  · have hgone := not_exists.mp hpresent
    obtain ⟨hclosed, hnumbers⟩ := h.gone n c hc hgone
    exact ⟨c.sent.length, Nat.le_refl _, hnumbers, .inr ⟨hgone, hclosed, rfl⟩⟩

theorem filterMap_range' {α : Type} (l : List α) (b k : Nat) :
    (List.range' b k).filterMap (fun i => l[i]?) = (l.drop b).take k := by
  induction k with
  | zero => rfl
  | succ k ih =>
    rw [List.range'_concat, List.filterMap_append, ih, List.take_add_one, List.getElem?_drop,
      Nat.one_mul]
    cases hget : l[b + k]? <;> simp [hget]

/-- What is yielded of a source is what it has sent since the feed was made, less what is
skipped. -/
theorem Accounted.sublist {born : Nat → Nat} (h : x.Accounted born)
    (hc : x.channels[n]? = some c) :
    ((yielded n x.log).map Prod.snd).Sublist (c.sent.drop (born n)) := by
  obtain ⟨k, -, hnumbers, -⟩ := h.exists_end hc
  -- the events are told by their numbers, which come in order
  have hsent : (yielded n x.log).map Prod.snd =
      ((yielded n x.log).map Prod.fst).filterMap fun i => c.sent[i]? := by
    rw [List.filterMap_map, ← List.filterMap_eq_map]
    refine List.filterMap_congr fun p hp => ?_
    obtain ⟨c', hc', he⟩ := h.events n p.1 p.2 (mem_yielded_iff.mp hp)
    cases hc.symm.trans hc'
    exact he.symm
  have hsublist := (map_fst_yielded_sublist n x.log).filterMap fun i => c.sent[i]?
  rw [hnumbers, filterMap_range', ← hsent] at hsublist
  exact hsublist.trans (List.take_sublist _ _)

/-- A run goes on with the moves that are possible. -/
theorem Run.replay (h : Run start x) (hmoves : x.replay moves = some y) : Run start y := by
  induction moves generalizing x with
  | nil =>
    cases hmoves
    exact h
  | cons m rest ih =>
    obtain ⟨next, hstep, hrest⟩ := Option.bind_eq_some_iff.mp hmoves
    exact ih (h.step hstep) hrest

end Signpost.ChangeFeed.Following

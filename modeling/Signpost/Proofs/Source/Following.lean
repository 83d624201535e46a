import Mathlib.Data.List.Nodup
import Mathlib.Data.List.Perm.Basic
import Signpost.Source.ChangeFeed

/-!
# Taking from a change feed

A feed takes an event from one of its receivers, or has it skip what is not retained any longer, or
removes it when its source is gone and it has come to the end; in between sources announce changes
and are dropped.  What has been taken is noted, with the numbers that the events have in the
channels of their sources.

## Main definitions

* `ChangeFeed.Taking`, `ChangeFeed.numbers`, `ChangeFeed.yielded`: what has been taken.
* `ChangeFeed.Following`, `ChangeFeed.Following.step`: a feed, the channels of its sources, and what
  has been taken.

## Main results

* `ChangeFeed.perm_swapRemove`, `ChangeFeed.mem_swapRemove_iff`: removing a receiver keeps all
  others.
* `ChangeFeed.mem_numbers_iff`, `ChangeFeed.map_fst_yielded_sublist`
* `ChangeFeed.Following.effect_of_step`: all that a move can do.
* `ChangeFeed.Following.poll_uninterrupted`: a poll while nobody sends.
-/

namespace Signpost.ChangeFeed

open Channel (Receiver capacity)

/-! ## Receivers -/

section Receivers

variable {α : Type} {items : List α} {i : Nat} {a : α}

theorem exists_split (h : items[i]? = some a) :
    ∃ before after, items = before ++ a :: after ∧ before.length = i := by
  obtain ⟨hi, rfl⟩ := List.getElem?_eq_some_iff.mp h
  refine ⟨items.take i, items.drop (i + 1), ?_, List.length_take_of_le (Nat.le_of_lt hi)⟩
  rw [← List.drop_eq_getElem_cons hi, List.take_append_drop]

/-- Only the item in a place is removed from it. -/
theorem perm_swapRemove (h : items[i]? = some a) : (a :: swapRemove items i).Perm items := by
  obtain ⟨before, after, rfl, rfl⟩ := exists_split h
  rcases List.eq_nil_or_concat after with rfl | ⟨rest, last, rfl⟩
  · have hremoved : swapRemove (before ++ [a]) before.length = before := by simp [swapRemove]
    rw [hremoved]
    exact (List.perm_append_singleton a before).symm
  -- the last item takes the place of the one that is removed
  · have hremoved : swapRemove (before ++ a :: (rest ++ [last])) before.length =
        before ++ last :: rest := by
      have hlast : (before ++ a :: (rest ++ [last])).getLast? = some last := by
        rw [← List.cons_append, ← List.append_assoc, List.getLast?_concat]
      have hset : (before ++ a :: (rest ++ [last])).set before.length last =
          (before ++ last :: rest) ++ [last] := by
        simp
      rw [swapRemove, hlast]
      dsimp only
      rw [hset, List.dropLast_concat]
    rw [List.concat_eq_append, hremoved]
    have hback : (last :: rest).Perm (rest ++ [last]) := (List.perm_append_singleton last rest).symm
    exact List.perm_middle.symm.trans ((hback.cons a).append_left before)

variable {receivers : List (Nat × Receiver)} {m n : Nat} {r r' next : Receiver}

theorem map_fst_set (h : receivers[i]? = some (n, r)) :
    (receivers.set i (n, next)).map Prod.fst = receivers.map Prod.fst := by
  obtain ⟨before, after, rfl, rfl⟩ := exists_split h
  simp

/-- A receiver is where it has come to, and all others are where they were. -/
theorem mem_set_iff (hdistinct : (receivers.map Prod.fst).Nodup) (h : receivers[i]? = some (n, r)) :
    (m, r') ∈ receivers.set i (n, next) ↔
      (m = n ∧ r' = next) ∨ (m ≠ n ∧ (m, r') ∈ receivers) := by
  obtain ⟨before, after, rfl, rfl⟩ := exists_split h
  have hothers : ∀ r'', (n, r'') ∉ before ∧ (n, r'') ∉ after := by
    rw [List.map_append, List.map_cons] at hdistinct
    have hnot := (List.nodup_middle.mp hdistinct).notMem
    intro r''
    exact ⟨fun hmem => hnot (List.mem_append_left _ (List.mem_map.mpr ⟨_, hmem, rfl⟩)),
      fun hmem => hnot (List.mem_append_right _ (List.mem_map.mpr ⟨_, hmem, rfl⟩))⟩
  simp only [List.set_append, Nat.lt_irrefl, if_false, Nat.sub_self, List.set_cons_zero,
    List.mem_append, List.mem_cons, Prod.mk.injEq]
  by_cases hm : m = n
  · subst hm
    simp [hothers]
  · simp [hm]

/-- A receiver that is removed is there no longer, and all others are. -/
theorem mem_swapRemove_iff (hdistinct : (receivers.map Prod.fst).Nodup)
    (h : receivers[i]? = some (n, r)) :
    (m, r') ∈ swapRemove receivers i ↔ m ≠ n ∧ (m, r') ∈ receivers := by
  have hperm := perm_swapRemove h
  have hnodup := (hperm.map Prod.fst).nodup_iff.mpr hdistinct
  rw [List.map_cons, List.nodup_cons] at hnodup
  rw [← hperm.mem_iff, List.mem_cons]
  constructor
  · intro hmem
    refine ⟨?_, .inr hmem⟩
    rintro rfl
    exact hnodup.1 (List.mem_map.mpr ⟨_, hmem, rfl⟩)
  · rintro ⟨hm, heq | hmem⟩
    · exact absurd (congrArg Prod.fst heq) hm
    · exact hmem

theorem nodup_swapRemove (hdistinct : (receivers.map Prod.fst).Nodup)
    (h : receivers[i]? = some (n, r)) : ((swapRemove receivers i).map Prod.fst).Nodup :=
  (((perm_swapRemove h).map Prod.fst).nodup_iff.mpr hdistinct).of_cons

end Receivers

/-! ## What is taken -/

/-- What has been taken from the receiver of a source. -/
inductive Taking where
  /-- The event of a source that has the number `i`. -/
  | event (n i : Nat) (e : DataChanged)
  /-- The events from number `i` up to number `j` are not retained any longer. -/
  | gap (n i j : Nat)
  | departure (n : Nat)

/-- What is taken from a receiver, if there is something. -/
def taking? (channels : List (Channel DataChanged)) (r : Nat × Receiver) : Option Taking :=
  match get channels r with
  | (.event e, _) => some (.event r.1 r.2.next e)
  | (.lagged missed, _) => some (.gap r.1 r.2.next (r.2.next + missed))
  | (.closed, _) => some (.departure r.1)
  | (.nothing, _) => none

namespace Taking

/-- The numbers of the events of a source that have been taken or skipped. -/
def numbers (n : Nat) : Taking → List Nat
  | .event m i _ => if m = n then [i] else []
  | .gap m i j => if m = n then List.range' i (j - i) else []
  | .departure _ => []

/-- The event of a source that has been yielded, with its number. -/
def yielded? (n : Nat) : Taking → Option (Nat × DataChanged)
  | .event m i e => if m = n then some (i, e) else none
  | .gap _ _ _ | .departure _ => none

/-- What the feed calls it. -/
def reception : Taking → Reception
  | .event _ _ e => .event e
  | .gap _ _ _ => .gap
  | .departure _ => .departure

end Taking

/-- The numbers of the events of a source that have been taken or skipped, one after another. -/
def numbers (n : Nat) (log : List Taking) : List Nat := log.flatMap (Taking.numbers n)

/-- The events of a source that have been yielded, one after another, with their numbers. -/
def yielded (n : Nat) (log : List Taking) : List (Nat × DataChanged) :=
  log.filterMap (Taking.yielded? n)

section Log

variable {n i j k : Nat} {e : DataChanged} {log : List Taking}

theorem numbers_concat (n : Nat) (log : List Taking) (t : Taking) :
    numbers n (log ++ [t]) = numbers n log ++ t.numbers n := by
  simp [numbers]

theorem mem_yielded_iff : (i, e) ∈ yielded n log ↔ .event n i e ∈ log := by
  rw [yielded, List.mem_filterMap]
  constructor
  · rintro ⟨t, ht, hyielded⟩
    cases t with
    | event m i' e' =>
      simp only [Taking.yielded?] at hyielded
      split at hyielded <;> cases hyielded
      next hm => exact hm ▸ ht
    | gap | departure => cases hyielded
  · intro hmem
    exact ⟨_, hmem, if_pos rfl⟩

/-- What is yielded comes in the order of what is accounted for. -/
theorem map_fst_yielded_sublist (n : Nat) (log : List Taking) :
    ((yielded n log).map Prod.fst).Sublist (numbers n log) := by
  induction log with
  | nil => exact List.Sublist.refl _
  | cons t rest ih =>
    have hnumbers : numbers n (t :: rest) = t.numbers n ++ numbers n rest := List.flatMap_cons
    rw [hnumbers]
    cases hyielded : t.yielded? n with
    | none =>
      rw [yielded, List.filterMap_cons_none hyielded]
      exact ih.trans (List.sublist_append_right _ _)
    | some p =>
      rw [yielded, List.filterMap_cons_some hyielded, List.map_cons]
      have hnumber : t.numbers n = [p.1] := by
        cases t with
        | event m i e =>
          simp only [Taking.yielded?] at hyielded
          split at hyielded <;> cases hyielded
          next hm => exact if_pos hm
        | gap | departure => cases hyielded
      rw [hnumber]
      exact ih.cons_cons p.1

end Log

/-! ## Moves -/

/-- A feed, the channels of its sources, and what has been taken from the receivers. -/
structure Following where
  channels : List (Channel DataChanged)
  feed : ChangeFeed
  log : List Taking

namespace Following

/-- A move of a source's or of the feed's. -/
inductive Move where
  | send (n : Nat) (e : DataChanged)
  /-- A source is dropped. -/
  | close (n : Nat)
  /-- The feed takes from the receiver at a place. -/
  | take (i : Nat)

/-- One move, where it is possible: a source that has been dropped sends nothing any more, and
nothing is taken from a receiver that has nothing. -/
def step (x : Following) : Move → Option Following
  | .send n e =>
    match x.channels[n]? with
    | some c => if c.closed then none else some { x with channels := x.channels.set n (c.send e) }
    | none => none
  | .close n => (x.channels[n]?).map fun c => { x with channels := x.channels.set n c.close }
  | .take i =>
    (x.feed.receivers[i]?).bind fun r => (taking? x.channels r).map fun t =>
      { x with feed := (x.feed.receiveAt x.channels i).2, log := x.log ++ [t] }

/-- A list of moves, if each of them is possible in its turn. -/
def replay (x : Following) : List Move → Option Following
  | [] => some x
  | m :: rest => (x.step m).bind fun y => replay y rest

variable {x y : Following} {m : Move} {moves : List Move} {n i j k : Nat} {r : Receiver}
  {c : Channel DataChanged} {e : DataChanged} {t : Taking} {p : Nat × Receiver}

theorem replay_cons (h : x.step m = some y) (rest : List Move) :
    x.replay (m :: rest) = y.replay rest := by
  rw [replay, h]
  rfl

/-- What a move does to the channels, the receivers and the log. -/
inductive Effect (x : Following) : Move → Following → Prop
  | sent {n : Nat} {c : Channel DataChanged} (hc : x.channels[n]? = some c)
      (hopen : c.closed = false) (e : DataChanged) :
      Effect x (.send n e) { x with channels := x.channels.set n (c.send e) }
  | closed {n : Nat} {c : Channel DataChanged} (hc : x.channels[n]? = some c) :
      Effect x (.close n) { x with channels := x.channels.set n c.close }
  | took {i n k : Nat} {c : Channel DataChanged} {e : DataChanged}
      (hr : x.feed.receivers[i]? = some (n, ⟨k⟩)) (hc : x.channels[n]? = some c)
      (he : c.sent[k]? = some e) :
      Effect x (.take i) { x with
        feed := ⟨x.feed.receivers.set i (n, ⟨k + 1⟩)⟩, log := x.log ++ [.event n k e] }
  | skipped {i n k : Nat} {c : Channel DataChanged}
      (hr : x.feed.receivers[i]? = some (n, ⟨k⟩)) (hc : x.channels[n]? = some c)
      (hlag : k < c.oldest) :
      Effect x (.take i) { x with
        feed := ⟨x.feed.receivers.set i (n, ⟨c.oldest⟩)⟩, log := x.log ++ [.gap n k c.oldest] }
  | left {i n k : Nat} (hr : x.feed.receivers[i]? = some (n, ⟨k⟩))
      (hend : ∀ c, x.channels[n]? = some c → c.closed = true ∧ c.sent.length ≤ k) :
      Effect x (.take i) { x with
        feed := ⟨swapRemove x.feed.receivers i⟩, log := x.log ++ [.departure n] }

/-- Every move does one of these things. -/
theorem effect_of_step (h : x.step m = some y) : Effect x m y := by
  cases m with
  | send n e =>
    simp only [step] at h
    split at h
    · next c hc =>
      split at h <;> cases h
      next hopen => exact .sent hc (by simpa using hopen) e
    · cases h
  | close n =>
    obtain ⟨c, hc, rfl⟩ := Option.map_eq_some_iff.mp h
    exact .closed hc
  | take i =>
    obtain ⟨⟨n, k⟩, hr, htaken⟩ := Option.bind_eq_some_iff.mp h
    obtain ⟨t, ht, rfl⟩ := Option.map_eq_some_iff.mp htaken
    -- what the receiver is told depends on the channel and on how far it has come there
    cases hc : x.channels[n]? with
    | none =>
      have hget : get x.channels (n, k) = (.closed, k) := by simp only [get, hc]
      simp only [taking?, hget] at ht
      cases ht
      simp only [receiveAt, hr, hget]
      exact .left hr fun c hsome => nomatch hc.symm.trans hsome
    | some c =>
      by_cases hlag : k.next < c.oldest
      · have hget : get x.channels (n, k) = (.lagged (c.oldest - k.next), ⟨c.oldest⟩) := by
          simp only [get, hc, Channel.receive, if_pos hlag]
        simp only [taking?, hget] at ht
        cases ht
        simp only [receiveAt, hr, hget]
        rw [Nat.add_sub_cancel' (Nat.le_of_lt hlag)]
        exact .skipped hr hc hlag
      · cases he : c.sent[k.next]? with
        | some e =>
          have hget : get x.channels (n, k) = (.event e, ⟨k.next + 1⟩) := by
            simp only [get, hc, Channel.receive, if_neg hlag, he]
          simp only [taking?, hget] at ht
          cases ht
          simp only [receiveAt, hr, hget]
          exact .took hr hc he
        | none =>
          have hget : get x.channels (n, k) = (if c.closed then .closed else .nothing, k) := by
            simp only [get, hc, Channel.receive, if_neg hlag, he]
          by_cases hclosed : c.closed = true
          · rw [if_pos hclosed] at hget
            simp only [taking?, hget] at ht
            cases ht
            simp only [receiveAt, hr, hget]
            refine .left hr fun c' hsome => ?_
            cases hc.symm.trans hsome
            exact ⟨hclosed, List.getElem?_eq_none_iff.mp he⟩
          · rw [if_neg hclosed] at hget
            simp only [taking?, hget] at ht
            cases ht

/-! ## Polls -/

theorem receiveAt_fst {channels : List (Channel DataChanged)} {f : ChangeFeed}
    (hr : f.receivers[i]? = some p) (ht : taking? channels p = some t) :
    (f.receiveAt channels i).1 = t.reception := by
  unfold taking? at ht
  unfold receiveAt
  rw [hr]
  cases hget : get channels p with
  | mk received next =>
    rw [hget] at ht
    cases received <;> cases ht <;> simp only [Taking.reception, hget]

theorem isReady_iff {channels : List (Channel DataChanged)} :
    isReady channels p = true ↔ (taking? channels p).isSome = true := by
  unfold isReady taking?
  cases get channels p with
  | mk received next => cases received <;> simp

/-- A feed that takes something does so by a move. -/
theorem receive_cases (x : Following) :
    (x.feed.receivers = [] ∧ x.feed.receive x.channels = (.finished, x.feed)) ∨
    (x.feed.receivers ≠ [] ∧ (∀ p ∈ x.feed.receivers, isReady x.channels p = false) ∧
      x.feed.receive x.channels = (.pending, x.feed)) ∨
    ∃ i t y, x.step (.take i) = some y ∧ y.log = x.log ++ [t] ∧ y.channels = x.channels ∧
      x.feed.receive x.channels = (t.reception, y.feed) := by
  unfold receive
  cases hfirst : x.feed.receivers.findIdx? (isReady x.channels) with
  | none =>
    have hnone := List.findIdx?_eq_none_iff.mp hfirst
    by_cases hempty : x.feed.receivers = []
    · exact .inl ⟨hempty, by simp [hempty]⟩
    · exact .inr (.inl ⟨hempty, hnone, by simp [hempty]⟩)
  | some i =>
    obtain ⟨hi, hready, -⟩ := List.findIdx?_eq_some_iff_getElem.mp hfirst
    obtain ⟨t, ht⟩ := Option.isSome_iff_exists.mp (isReady_iff.mp hready)
    have hr := List.getElem?_eq_getElem hi
    refine .inr (.inr ⟨i, t, { x with
      feed := (x.feed.receiveAt x.channels i).2, log := x.log ++ [t] }, ?_, rfl, rfl,
      Prod.ext (receiveAt_fst hr ht) rfl⟩)
    simp only [step, hr, Option.bind_some, ht, Option.map_some]

/-- Whether a receiver has missed something. -/
def lags (channels : List (Channel DataChanged)) (p : Nat × Receiver) : Bool :=
  match channels[p.1]? with
  | some c => decide (p.2.next < c.oldest)
  | none => false

/-- How often something can be taken before an event. -/
def idle (x : Following) : Nat :=
  x.feed.receivers.length + x.feed.receivers.countP (lags x.channels)

/-- What a feed gives, and what it has taken on the way: receivers that had missed something or
whose sources are gone, and then an event, unless all others have nothing. -/
def Gives (x y : Following) (result : Polled) : Prop :=
  ∃ passed, (∀ n, yielded n passed = []) ∧
    match result with
    | .event e => ∃ n k, y.log = x.log ++ passed ++ [.event n k e]
    | .pending => y.log = x.log ++ passed ∧ y.feed.receivers ≠ [] ∧
        ∀ p ∈ y.feed.receivers, isReady y.channels p = false
    | .finished => y.log = x.log ++ passed ∧ y.feed.receivers = []

/-- A feed comes to a result by nothing but taking. -/
def Polls (x : Following) (polled : Polled × ChangeFeed) : Prop :=
  ∃ moves y, (∀ m ∈ moves, ∃ i, m = .take i) ∧ x.replay moves = some y ∧
    y.channels = x.channels ∧ y.feed = polled.2 ∧ Gives x y polled.1

theorem Polls.cons {polled : Polled × ChangeFeed} (h : y.Polls polled)
    (hstep : x.step (.take i) = some y) (hlog : y.log = x.log ++ [t])
    (hchannels : y.channels = x.channels) (ht : ∀ n, t.yielded? n = none) : x.Polls polled := by
  obtain ⟨moves, z, hmoves, hreplay, hsame, hfeed, passed, hsilent, hgives⟩ := h
  refine ⟨.take i :: moves, z, List.forall_mem_cons.mpr ⟨⟨i, rfl⟩, hmoves⟩,
    (replay_cons hstep _).trans hreplay, hsame.trans hchannels, hfeed, t :: passed,
    fun n => ?_, ?_⟩
  · rw [yielded, List.filterMap_cons_none (ht n)]
    exact hsilent n
  · cases hresult : polled.1 with
    | event e =>
      rw [hresult] at hgives
      obtain ⟨n, k, hend⟩ := hgives
      exact ⟨n, k, by simp [hend, hlog]⟩
    | pending =>
      rw [hresult] at hgives
      exact ⟨by simp [hgives.1, hlog], hgives.2⟩
    | finished =>
      rw [hresult] at hgives
      exact ⟨by simp [hgives.1, hlog], hgives.2⟩

end Following

end Signpost.ChangeFeed

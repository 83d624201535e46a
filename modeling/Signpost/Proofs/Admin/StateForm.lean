import Signpost.Admin.State
import Signpost.Proofs.Definition.Form
import Signpost.Proofs.Json.RoundTrip

/-!
# The JSON form of a state

The persisted state of a registry is read back as it was written, with the order of its
subscriptions and rules, although conditions may be missing, and the alternatives of targets lie
within each other.  So a registry that comes back finds just what it had saved last.

## Main results

* `Redirection.reads_rule`, `reads_subscription`
* `Admin.State.reads_state`
* `Admin.StateStore.read_of_save`: what has been saved is what is read.
* `Admin.State.loaded_as_saved`
-/

namespace Signpost

open Json (Decoder)
open Json.Fields (Takes)

theorem Version.reads_version : Version.decode.Reads fun v => .string v.text := fun v =>
  (Decoder.reads_string v.text).map Version.mk

namespace Redirection

theorem reads_target : Target.decode.Reads Target.toJson := by
  intro t
  cases t with
  | otherCapability name => exact .tagged rfl ((Decoder.reads_string name).map _)
  | classPrefix text => exact .tagged rfl ((Decoder.reads_string text).map _)

/-- A condition is never written as null, which would stand for none. -/
theorem reads_condition (c : RouteCondition) :
    (Decoder.nullable RouteCondition.decode).Gives c.toJson (some c) := by
  cases c with
  | keyPrefix text => exact .nullable (.tagged rfl ((Decoder.reads_string text).map _))
  | classPrefixEquals text => exact .nullable (.tagged rfl ((Decoder.reads_string text).map _))

/-- A rule is read from an object whose last members, if there are any, give its condition. -/
theorem gives_rule (r : Rule) {last : List (String × Json)}
    (hname : ∀ m ∈ last, m.1 = "condition")
    (hlast : (Json.Fields.defaulted "condition" (Decoder.nullable RouteCondition.decode) none
      .nil).Takes last (r.condition, ())) :
    Rule.decode.Gives (.object ([("id", r.id.toJson), ("display_name", .string r.displayName),
      ("source", .string r.source), ("target", r.target.toJson)] ++ last)) r := by
  have hother : ∀ name, name ≠ "condition" → ∀ m ∈ last, m.1 ≠ name :=
    fun name hne m hm => by rw [hname m hm]; exact hne.symm
  have htakes : (Json.Fields.required "id" Uuid.decode <|
      .defaulted "display_name" .string "" <| .required "source" .string <|
      .required "target" Target.decode <|
      .defaulted "condition" (Decoder.nullable RouteCondition.decode) none .nil).Takes _
        (r.id, r.displayName, r.source, r.target, r.condition, ()) :=
    .cons (Uuid.reads_uuid r.id) (by simpa using hother "id" (by decide)) <|
    .cons (Decoder.reads_string r.displayName)
      (by simpa using hother "display_name" (by decide)) <|
    .cons (Decoder.reads_string r.source) (by simpa using hother "source" (by decide)) <|
    .cons (reads_target r.target) (by simpa using hother "target" (by decide)) hlast
  exact htakes.record.map _

theorem reads_rule : Rule.decode.Reads Rule.toJson := by
  rintro ⟨id, displayName, source, target, _ | condition⟩
  · exact gives_rule _ (by simp) (.absent (by simp) .nil)
  · exact gives_rule _ (by simp) (.cons (reads_condition condition) (by simp) .nil)

end Redirection

namespace Delivery

theorem reads_category : Category.decode.Reads Category.toJson := by
  intro c
  cases c with
  | routeChange => exact .bare rfl

theorem reads_target : Target.decode.Reads Target.toJson := by
  intro t
  cases t with
  | service name => exact .tagged rfl ((Decoder.reads_string name).single "service" Target.service)
  | actor kind key =>
    have htakes : (Json.Fields.required "kind" .string <| .required "key" .string .nil).Takes _
        (kind, key, ()) :=
      .cons (Decoder.reads_string kind) (by simp) <|
      .cons (Decoder.reads_string key) (by simp) .nil
    exact .tagged rfl (htakes.record.map _)

end Delivery

theorem reads_subscription : Subscription.decode.Reads Subscription.toJson := by
  intro s
  have htakes : (Json.Fields.required "id" Uuid.decode <|
      .required "category" Delivery.Category.decode <|
      .required "target" Delivery.Target.decode .nil).Takes _ (s.id, s.category, s.target, ()) :=
    .cons (Uuid.reads_uuid s.id) (by simp) <|
    .cons (Delivery.reads_category s.category) (by simp) <|
    .cons (Delivery.reads_target s.target) (by simp) .nil
  exact htakes.record.map _

namespace Admin

/-- The state of a registry is read back as it was written. -/
theorem State.reads_state : State.decode.Reads State.toJson := by
  intro s
  have htakes : (Json.Fields.defaulted "subscriptions" (.list Subscription.decode) [] <|
      .defaulted "redirection_rules" (.list Redirection.Rule.decode) [] <|
      .required "version" Version.decode .nil).Takes _ (s.subscriptions, s.rules, s.version, ()) :=
    .cons (reads_subscription.list s.subscriptions) (by simp) <|
    .cons (Redirection.reads_rule.list s.rules) (by simp) <|
    .cons (Version.reads_version s.version) (by simp) .nil
  exact htakes.record.map _

/-! ## Texts -/

theorem plain_rule (depth : Nat) (r : Redirection.Rule) : r.toJson.Plain (depth + 2) := by
  have htarget : r.target.toJson.Plain (depth + 1) := by
    cases r.target with
    | otherCapability | classPrefix => exact (Json.Plain.string _).single _
  have hcondition : ∀ c : Redirection.RouteCondition, c.toJson.Plain (depth + 1) := by
    intro c
    cases c with
    | keyPrefix | classPrefixEquals => exact (Json.Plain.string _).single _
  refine .object fun m hm => ?_
  rcases List.mem_append.mp hm with hm | hm
  · simp only [List.mem_cons, List.not_mem_nil, or_false] at hm
    rcases hm with rfl | rfl | rfl | rfl
    · exact .string _
    · exact .string _
    · exact .string _
    · exact htarget
  · split at hm
    · next c _ => exact List.mem_singleton.mp hm ▸ hcondition c
    · cases hm

theorem plain_subscription (depth : Nat) (s : Subscription) : s.toJson.Plain (depth + 3) := by
  have htarget : s.target.toJson.Plain (depth + 2) := by
    cases s.target with
    | service => exact ((Json.Plain.string _).single _).single _
    | actor => exact .single (.object (by simp [Json.Plain.string])) _
  exact .object (by simp [Uuid.toJson, Delivery.Category.toJson, Json.Plain.string, htarget])

/-- The JSON form of a state has no numbers, and goes no deeper than the target of a
subscription. -/
theorem State.plain_toJson (s : State) : s.toJson.Plain 5 := by
  have hsubscriptions := Json.Plain.list (plain_subscription 0) s.subscriptions
  have hrules := Json.Plain.list (plain_rule 1) s.rules
  exact .object (by simp [hsubscriptions, hrules, Json.Plain.string])

/-! ## Stores -/

namespace StateStore

variable {store store' : StateStore} {key : String} {state : State}

/-- A state is read from its document, in whatever order the members of it have been kept. -/
theorem read_write (store : StateStore) (key : String) {v : Json} (hv : state.toJson.Reordered v) :
    (store.write key v).read key = .ok (some state) := by
  rw [read, write]
  simp only [Dict.get?_put, if_true, (State.reads_state state).decode?_eq hv]

/-- What has been saved is what is read from then on. -/
theorem read_of_save (h : store.save key state = .ok store') :
    store'.read key = .ok (some state) ∧ store'.saves = store.saves + 1 := by
  rw [save] at h
  split at h
  · cases h
  · cases h
    exact ⟨read_write store key (State.reads_state state).distinct.reordered, rfl⟩

/-- A store that works saves a state as the document of its instance. -/
theorem exists_save_eq (hworks : store.failure = none) (key : String) (state : State) :
    ∃ store', store.save key state = .ok store' ∧ store'.failure = none ∧
      store'.documents = store.documents.put key state.toJson := by
  refine ⟨{ store.write key state.toJson with saves := store.saves + 1 }, ?_, hworks, rfl⟩
  rw [save, hworks]

/-- A store that works loads what its document for the instance says. -/
theorem load_congr (hworks : store.failure = none) (hworks' : store'.failure = none)
    (h : store.documents.get? key = store'.documents.get? key) :
    store.load key = store'.load key := by
  rw [load, load, hworks, hworks']
  simp only [read, h]

theorem load_eq_read (hworks : store.failure = none) (key : String) :
    store.load key = store.read key := by
  rw [load, hworks]

end StateStore

/-- **A saved state is the one that is loaded**.  A state is read back from its JSON form with the
order of its subscriptions and rules, whether the form is a value, in whatever order its members
stand, or a text; so no form is that of two states.  A store that works saves a state, and what it
then loads for the instance is this state, also if it keeps the document with its members in
another order; for every other instance it has the same document as before, and loads the same.  A
table of states does likewise. -/
theorem State.loaded_as_saved (state : State) :
    (∀ v, state.toJson.Reordered v → Json.decode? State.decode v = some state) ∧
    Json.decodeText State.decode state.toJson.text = .ok state ∧
    (∀ (other : State) v, state.toJson.Reordered v → other.toJson.Reordered v → state = other) ∧
    (∀ other : State, state.toJson.text = other.toJson.text → state = other) ∧
    (∀ (store : StateStore) key, store.failure = none →
      ∃ store', store.save key state = .ok store' ∧
        store'.load key = .ok (some state) ∧
        (∀ v, state.toJson.Reordered v → (store'.write key v).load key = .ok (some state)) ∧
        ∀ other, other ≠ key → store'.documents.get? other = store.documents.get? other ∧
          store'.load other = store.load other) ∧
    ∀ (table : StateTable) key, (table.save key state).load key = some state ∧
      ∀ other, other ≠ key → (table.save key state).load other = table.load other := by
  have hvalue : ∀ (s : State) v, s.toJson.Reordered v → Json.decode? State.decode v = some s :=
    fun s v hv => (State.reads_state s).decode?_eq hv
  have htext : ∀ s : State, Json.decodeText State.decode s.toJson.text = .ok s := fun s =>
    (State.plain_toJson s).decodeText_text (by decide) (State.reads_state s).decode_eq
  refine ⟨hvalue state, htext state, fun other v hv hv' => ?_, fun other heq => ?_,
    fun store key hworks => ?_, fun table key => ⟨?_, fun other hother => ?_⟩⟩
  · exact Option.some.inj ((hvalue state v hv).symm.trans (hvalue other v hv'))
  · exact Except.ok.inj ((htext state).symm.trans (heq ▸ htext other))
  · obtain ⟨store', hsave, hworks', hdocuments⟩ := StateStore.exists_save_eq hworks key state
    refine ⟨store', hsave, ?_, fun v hv => ?_, fun other hother => ?_⟩
    · rw [StateStore.load_eq_read hworks']
      exact (StateStore.read_of_save hsave).1
    · have hwritten : (store'.write key v).failure = none := hworks'
      rw [StateStore.load_eq_read hwritten]
      exact StateStore.read_write store' key hv
    · have hsame : store'.documents.get? other = store.documents.get? other := by
        rw [hdocuments, Dict.get?_put, if_neg hother]
      exact ⟨hsame, StateStore.load_congr hworks' hworks hsame⟩
  · exact (Dict.get?_put _ _ _ _).trans (if_pos rfl)
  · exact (Dict.get?_put _ _ _ _).trans (if_neg hother)

/-- A state with both sorts of receivers and targets, and a rule under a condition. -/
def tangled : State where
  subscriptions := [⟨.ofNat 2, .routeChange, .actor "Router" "\"eu\"/\n"⟩,
    ⟨.ofNat 1, .routeChange, .service "routing"⟩]
  rules := [⟨.ofNat 4, "", "billing", .classPrefix "v2.", some (.keyPrefix "\u00e9")⟩,
    ⟨.ofNat 3, "mail", "mail", .otherCapability "post", none⟩]
  version := ⟨"1"⟩

/-- A store that keeps a document that is no state, for another instance. -/
def besideJunk : StateStore := StateStore.empty.write "b" .null

/-- A state is saved beside a document that cannot be read, and loaded when the members of its own
document have been sorted. -/
theorem State.loaded_as_saved_besideJunk :
    Json.decodeText State.decode tangled.toJson.text = .ok tangled ∧
      ∃ store', besideJunk.save "a" tangled = .ok store' ∧
        store'.load "a" = .ok (some tangled) ∧
        (store'.write "a" tangled.toJson.canonical).load "a" = .ok (some tangled) ∧
        store'.load "b" = .error (.malformed "b") := by
  obtain ⟨-, htext, -, -, hstores, -⟩ := tangled.loaded_as_saved
  obtain ⟨store', hsave, hload, hkept, hothers⟩ := hstores besideJunk "a" rfl
  have hsorted := (State.reads_state tangled).distinct.reordered_canonical
  refine ⟨htext, store', hsave, hload, hkept _ hsorted, ?_⟩
  rw [(hothers "b" (by decide)).2]
  rfl

end Admin

end Signpost

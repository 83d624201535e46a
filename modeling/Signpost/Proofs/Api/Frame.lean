import Signpost.Api.Service
import Signpost.Proofs.Admin.Polling
import Signpost.Proofs.Utf8

/-!
# What requests change

A request changes the redirection registry, the store of its state and the caches of the catalog,
and nothing else.  Its response tells which: the rules have changed exactly if the response says so,
and what is not answered with success has left the rules and the subscriptions as they were, also
where a change has been made in memory and could not be saved.

## Main definitions

* `Node.Serving`: the nodes that run, through requests, through commands of others, and through
  changes of what is around the registry.
* `Request.changeWord?`: which requests may change the rules.
* `Node.attempt?`, `Node.Changes`: what such a request comes to in memory, and in the end.

## Main results

* `exists_catalog_serve`: any other request changes the caches of the catalog at most.
* `changes_serve`: a request that may change the rules comes to one of `Node.Changes`.
* `Node.Serving.steady`: a node that runs publishes its rules.
* `Node.Serving.response_tells_change`
-/

namespace Signpost.Api

open Admin (Desk)

variable {n : Node} {r : Request} {timestamp word : String}

/-! ## Responses -/

namespace Response

/-- The response is one of success. -/
def Succeeds (r : Response) : Prop := 200 ≤ r.status ∧ r.status < 300

theorem succeeds_ofChange (word : String) (changed : Bool) : (ofChange word changed).Succeeds := by
  simp [Succeeds, ofChange, ok]

@[simp] theorem ofChange_inj {b b' : Bool} : ofChange word b = ofChange word b' ↔ b = b' := by
  simp [ofChange, ok]

theorem not_succeeds_ofError (e : Admin.Error) : ¬ (ofError e).Succeeds := by
  rcases e with (_ | _) | _ | _ | _ <;> simp [Succeeds, ofError, error]

theorem not_succeeds_bare {status : Nat} (h : 400 ≤ status) : ¬ (bare status).Succeeds := by
  simp only [Succeeds, bare]
  omega

end Response

/-- A request whose body is not what it should be is refused. -/
theorem Request.le_of_decode_error {α : Type} {decode : Json.Decoder α} {status : Nat}
    (h : r.decode decode = .error status) : 400 ≤ status := by
  unfold Request.decode at h
  split at h
  · cases h; decide
  dsimp only at h
  split at h
  · cases h; decide
  split at h
  · cases h; decide
  cases hdecoded : Json.decodeBytes decode (r.body.getD []) with
  | ok a => rw [hdecoded] at h; cases h
  | error f =>
    rw [hdecoded] at h
    cases h
    cases f <;> decide

/-- A body that is written in UTF-8, and is not too long, is decoded as its text. -/
theorem Request.decode_written {α : Type} (decode : Json.Decoder α) {m : MediaType}
    {text : List Char} (htype : r.contentType.bind MediaType.parse? = some m)
    (hjson : m.isJson = true) (hbody : r.body = some (Utf8.encode text))
    (hsize : (Utf8.encode text).length ≤ maxBodySize) :
    r.decode decode = (Json.decodeText decode (String.ofList text)).mapError faultStatus := by
  simp [Request.decode, htype, hjson, hbody, Nat.not_lt.mpr hsize, Json.decodeBytes_encode]

/-! ## Requests that leave the rules alone -/

/-- The address is one below a name. -/
def Address.IsBelow (a : Address) (name : String) : Prop :=
  ∃ rest, a.segments = [] :: name.toList :: rest

/-- The redirections are not among the definitions. -/
theorem Route.of?_ne_redirections {a : Address} (h : a.IsBelow "definitions") :
    Route.of? a ≠ some .redirections := by
  obtain ⟨rest, hsegments⟩ := h
  have hhealth : "definitions".toList ≠ "health".toList := by decide
  have hredirections : "definitions".toList ≠ "redirections".toList := by decide
  rw [Route.of?, hsegments]
  dsimp only
  rw [if_neg hhealth, if_neg hredirections, if_pos rfl]
  split
  · split
    · nofun
    · split <;> nofun
  · split <;> nofun
  · nofun

/-- The word in which a request that may change the rules is answered, if it is one. -/
def Request.changeWord? (r : Request) : Option String :=
  if Route.of? (.of r.address) = some .redirections then
    if r.method = "POST" then some "applied"
    else if r.method = "DELETE" then some "removed"
    else none
  else none

theorem Request.changeWord?_of_ne_redirections
    (h : Route.of? (.of r.address) ≠ some .redirections) : r.changeWord? = none := if_neg h

theorem Request.changeWord?_of_get (h : r.method = "GET") : r.changeWord? = none := by
  simp [changeWord?, h]

theorem exists_catalog_serveRoute (a : Address) (route : Route)
    (h : route = .redirections → r.method ≠ "POST" ∧ r.method ≠ "DELETE") :
    ∃ catalog, (serveRoute timestamp r a n route).2 = { n with catalog } := by
  unfold serveRoute
  cases route with
  | health => dsimp only; split <;> exact ⟨n.catalog, rfl⟩
  | redirections =>
    obtain ⟨hpost, hdelete⟩ := h rfl
    dsimp only
    rw [if_neg hpost, if_neg hdelete]
    split <;> exact ⟨n.catalog, rfl⟩
  | refresh =>
    dsimp only
    split
    · exact ⟨_, rfl⟩
    · exact ⟨n.catalog, rfl⟩
  | listing kind =>
    dsimp only [listDefinitions]
    split
    · split
      · exact ⟨n.catalog, rfl⟩
      · exact ⟨_, rfl⟩
    · exact ⟨n.catalog, rfl⟩
  | definition kind id =>
    dsimp only [getDefinition]
    split
    · split
      · exact ⟨_, rfl⟩
      · exact ⟨n.catalog, rfl⟩
    · exact ⟨n.catalog, rfl⟩

/-- Any other request changes the caches of the catalog at most. -/
theorem exists_catalog_serve (n : Node) (timestamp : String) (h : r.changeWord? = none) :
    ∃ catalog, (serve timestamp n r).2 = { n with catalog } := by
  unfold serve
  dsimp only
  split
  · exact ⟨n.catalog, rfl⟩
  split
  · exact ⟨n.catalog, rfl⟩
  next route hroute =>
  split
  -- a request for the head alone is served as one to read
  · exact exists_catalog_serveRoute _ route fun _ => by simp
  · refine exists_catalog_serveRoute _ route fun hredirections => ?_
    rw [Request.changeWord?, hroute, if_pos (by rw [hredirections])] at h
    split at h
    · cases h
    · next hpost =>
      split at h
      · cases h
      · next hdelete => exact ⟨hpost, hdelete⟩

theorem desk_serve (n : Node) (timestamp : String) (h : r.changeWord? = none) :
    (serve timestamp n r).2.desk = n.desk := by
  obtain ⟨catalog, hafter⟩ := exists_catalog_serve n timestamp h
  rw [hafter]

/-! ## Requests that may change the rules -/

/-- A node that runs, and whose rules everybody may read. -/
structure Node.Steady (n : Node) : Prop where
  running : n.running = true
  staysUp : n.shuttingDown = false
  published : n.desk.registry.published = n.desk.registry.routes.snapshot

/-- What a request that may change the rules comes to in memory, if it is understood. -/
def Node.attempt? (n : Node) (r : Request) : Option Redirection.Attempt :=
  if r.method = "POST" then (r.decode appendBody).toOption.map n.desk.append
  else if r.method = "DELETE" then (r.decode popBody).toOption.map n.desk.pop
  else none

/-- What a request that may change the rules comes to in the end, by what it has come to in memory:
its response, and the node after it. -/
inductive Node.Changes (n : Node) (word : String) :
    Option Redirection.Attempt → Response × Node → Prop
  /-- It is not understood. -/
  | unread {status : Nat} (hstatus : 400 ≤ status) : n.Changes word none (.bare status, n)
  | refused {a : Redirection.Attempt} {e : Redirection.Error} (hverdict : a.verdict = .error e) :
      n.Changes word (some a) (.ofError (.redirection e), n)
  /-- It changes nothing. -/
  | same {a : Redirection.Attempt} (hverdict : a.verdict = .ok false) :
      n.Changes word (some a) (.ofChange word false, n)
  /-- Its change cannot be saved, and only the version that was drawn for it is gone. -/
  | unsaved {a : Redirection.Attempt} {e : Admin.StoreError} (hverdict : a.verdict = .ok true)
      (hsave : n.desk.store.save n.desk.registry.key (n.desk.made a).registry.state = .error e) :
      n.Changes word (some a)
        (.ofError (.persistence e), { n with desk := { n.desk with mint := a.mint } })
  /-- Its change is saved and published. -/
  | committed {a : Redirection.Attempt} (store : Admin.StateStore) (hverdict : a.verdict = .ok true)
      (hversion : a.after.version = (Version.fresh n.desk.mint).1) :
      n.Changes word (some a) (.ofChange word true, { n with
        desk := { n.desk.made a with
          store
          registry := { n.desk.registry with routes := a.after, published := a.after.snapshot } } })

theorem Node.Steady.command_eq (h : n.Steady) (c : Admin.Command) :
    n.command c = ((n.desk.run n.directory .never c true).1.answer,
      { n with desk := (n.desk.run n.directory .never c true).2 }) := by
  simp [command, h.running, h.staysUp]

theorem changes_answerChange (h : n.Steady) {c : Admin.Command} {a : Redirection.Attempt}
    (hattempt : n.desk.attempt? c = some a) : n.Changes word (some a) (answerChange word n c) := by
  unfold answerChange
  rw [h.command_eq c]
  -- only what has changed something in memory is saved, and only what is saved is delivered
  by_cases hchanged : a.verdict = .ok true
  · cases hsave : n.desk.store.save n.desk.registry.key (n.desk.made a).registry.state with
    | error e =>
      rw [(Desk.endsQuietly_of_save_error hattempt hchanged hsave).ran]
      exact .unsaved hchanged hsave
    | ok store =>
      have hcommits := Desk.commitsInOrder_of_save_ok hattempt hchanged hsave
      obtain ⟨notes, lasts, hrun, -⟩ := hcommits.told n.directory .never true
      rw [hrun, hcommits.published]
      exact .committed store hchanged hcommits.version
  · rw [(Desk.endsQuietly_of_unchanged hattempt hchanged).ran, Desk.answerTo]
    rcases hverdict : a.verdict with e | (_ | _)
    · exact .refused hverdict
    · exact .same hverdict
    · exact absurd hverdict hchanged

theorem changes_changeRedirections (h : n.Steady) {α : Type} {decode : Json.Decoder α}
    {command : α → Admin.Command} {attempt : α → Redirection.Attempt}
    (hattempt : ∀ asked, n.desk.attempt? (command asked) = some (attempt asked)) :
    n.Changes word ((r.decode decode).toOption.map attempt)
      (changeRedirections word decode command r n) := by
  unfold changeRedirections
  cases hdecode : r.decode decode with
  | error status => exact .unread (Request.le_of_decode_error hdecode)
  | ok asked => exact changes_answerChange h (hattempt asked)

theorem serve_eq_serveRoute {route : Route} (hroute : Route.of? (.of r.address) = some route)
    (hoptions : r.method ≠ "OPTIONS") (hhead : r.method ≠ "HEAD") :
    serve timestamp n r = serveRoute timestamp r (.of r.address) n route := by
  simp only [serve, hroute, if_neg hoptions, if_neg hhead]

/-- A request that may change the rules comes to one of these. -/
theorem changes_serve (h : n.Steady) (hword : r.changeWord? = some word) :
    n.Changes word (n.attempt? r) (serve timestamp n r) := by
  unfold Request.changeWord? at hword
  split at hword
  · next hroute =>
    split at hword
    · next hpost =>
      cases hword
      rw [serve_eq_serveRoute hroute (by simp [hpost]) (by simp [hpost])]
      simp only [serveRoute, Node.attempt?, hpost, if_true]
      exact changes_changeRedirections h fun _ => rfl
    · split at hword
      · next hdelete =>
        cases hword
        rw [serve_eq_serveRoute hroute (by simp [hdelete]) (by simp [hdelete])]
        simp only [serveRoute, Node.attempt?, hdelete]
        exact changes_changeRedirections h fun _ => rfl
      · cases hword
  · cases hword

/-! ## Nodes that run -/

/-- A node that runs from when its registry has been loaded: requests are served, others give
commands to the worker, and what is around the registry changes, which is who receives what, the
definitions, the store of the state, which may fail or be written to, and the identifiers that are
drawn elsewhere. -/
inductive Node.Serving : Node → Prop
  | start {key : String} {store : Admin.StateStore} {timeout : Nat} {mint : Mint} {desk : Desk}
      (hload : Desk.load key store timeout mint = .ok desk) (directory : Delivery.Directory)
      (catalog : Catalog) (database : Database) :
      Serving ⟨desk, directory, catalog, database, true, false⟩
  | serve {n : Node} (h : Serving n) (timestamp : String) (r : Request) :
      Serving (serve timestamp n r).2
  | command {n : Node} (h : Serving n) (c : Admin.Command) : Serving (n.command c).2
  | surroundings {n : Node} (h : Serving n) (directory : Delivery.Directory) (catalog : Catalog)
      (database : Database) (store : Admin.StateStore) (mint : Mint) :
      Serving { n with directory, catalog, database, desk := { n.desk with store, mint } }

namespace Node

variable {attempt : Option Redirection.Attempt}

theorem Changes.steady {answered : Response × Node} (hchanges : n.Changes word attempt answered)
    (h : n.Steady) : answered.2.Steady := by
  cases hchanges with
  | unread | refused | same => exact h
  | unsaved => exact ⟨h.running, h.staysUp, h.published⟩
  | committed => exact ⟨h.running, h.staysUp, rfl⟩

theorem Steady.serve (h : n.Steady) (timestamp : String) (r : Request) :
    (Api.serve timestamp n r).2.Steady := by
  cases hword : r.changeWord? with
  | some word => exact (changes_serve h hword).steady h
  | none =>
    obtain ⟨catalog, hafter⟩ := exists_catalog_serve n timestamp hword
    rw [hafter]
    exact ⟨h.running, h.staysUp, h.published⟩

theorem Steady.command (h : n.Steady) (c : Admin.Command) : (n.command c).2.Steady := by
  rw [h.command_eq c]
  exact ⟨h.running, h.staysUp, Desk.published_run h.published n.directory .never c true⟩

/-- A node that runs publishes its rules. -/
theorem Serving.steady (h : n.Serving) : n.Steady := by
  induction h with
  | start hload => exact ⟨rfl, rfl, (Desk.load_cases hload).2.2.1⟩
  | serve _ timestamp r ih => exact ih.serve timestamp r
  | command _ c ih => exact ih.command c
  | surroundings _ directory catalog database store mint ih =>
    exact ⟨ih.running, ih.staysUp, ih.published⟩

/-! ## What responses tell -/

/-- What is not answered with success leaves the registry and the store as they were. -/
theorem Changes.unchanged {response : Response} {after : Node}
    (hchanges : n.Changes word attempt (response, after)) (hfailed : ¬ response.Succeeds) :
    after.desk.registry = n.desk.registry ∧ after.desk.store = n.desk.store := by
  cases hchanges with
  | unread | refused | unsaved => exact ⟨rfl, rfl⟩
  | same | committed => exact absurd (Response.succeeds_ofChange word _) hfailed

/-- The response says that something has changed, or that nothing has, or is not one of success. -/
theorem Changes.response_cases {response : Response} {after : Node}
    (hchanges : n.Changes word attempt (response, after)) :
    (response = .ofChange word true ∧
      after.desk.registry.routes.version = (Version.fresh n.desk.mint).1) ∨
    (response = .ofChange word false ∧ after.desk = n.desk) ∨
    (¬ response.Succeeds ∧
      after.desk.registry.routes.version = n.desk.registry.routes.version) := by
  cases hchanges with
  | unread hstatus => exact .inr (.inr ⟨Response.not_succeeds_bare hstatus, rfl⟩)
  | refused | unsaved => exact .inr (.inr ⟨Response.not_succeeds_ofError _, rfl⟩)
  | same => exact .inr (.inl ⟨rfl, rfl⟩)
  | committed store _ hversion => exact .inl ⟨rfl, hversion⟩

/-- Whoever made the request learns from the response whether something has changed, if the version
that is drawn for a change is another one. -/
theorem Changes.told {response : Response} {after : Node}
    (hchanges : n.Changes word attempt (response, after))
    (hfresh : (Version.fresh n.desk.mint).1 ≠ n.desk.registry.routes.version) :
    (response = .ofChange word true ↔
      after.desk.registry.routes.version ≠ n.desk.registry.routes.version) ∧
    (response = .ofChange word false ↔ response.Succeeds ∧ after.desk = n.desk) ∧
    (response.Succeeds → ∃ changed, response = .ofChange word changed) := by
  -- each response goes with one of the ways in which the registry may be left
  rcases hchanges.response_cases with ⟨rfl, hversion⟩ | ⟨rfl, hafter⟩ | ⟨hfailed, hversion⟩
  · have hchanged : after.desk.registry.routes.version ≠ n.desk.registry.routes.version :=
      hversion ▸ hfresh
    have hother : after.desk ≠ n.desk := fun heq => hchanged (by rw [heq])
    simp [hchanged, hother]
  · simp [hafter, Response.succeeds_ofChange]
  · have hnever : ∀ changed, response ≠ .ofChange word changed := by
      rintro changed rfl
      exact hfailed (Response.succeeds_ofChange word changed)
    simp [hfailed, hversion, hnever]

/-- What is taken without a change is answered so, and so is a change if the store works. -/
theorem Changes.response_eq {response : Response} {after : Node} {a : Redirection.Attempt}
    (hchanges : n.Changes word (some a) (response, after)) {changed : Bool}
    (hverdict : a.verdict = .ok changed) (hworks : changed = true → n.desk.store.failure = none) :
    response = .ofChange word changed := by
  cases hchanges with
  | refused hrefused => rw [hverdict] at hrefused; cases hrefused
  | same hsame => rw [hverdict] at hsame; cases hsame; rfl
  | unsaved hchanged hsave =>
    rw [hverdict] at hchanged
    cases hchanged
    rw [Admin.StateStore.save, hworks rfl] at hsave
    cases hsave
  | committed _ hchanged _ => rw [hverdict] at hchanged; cases hchanged; rfl

/-- A reader is given the rules unless it has their version. -/
theorem Steady.serve_get (h : n.Steady) (hget : r.method = "GET")
    (hroute : Route.of? (.of r.address) = some .redirections) {held : Option Version}
    (hheld : heldVersion? (.of r.address) = some held) :
    Api.serve timestamp n r =
      (if held = some n.desk.registry.routes.version then .bare 304
        else .ok n.desk.registry.routes.snapshot.toJson, n) := by
  rw [serve_eq_serveRoute hroute (by simp [hget]) (by simp [hget])]
  have hgiven : n.snapshotUnless held = .ok (if held = some n.desk.registry.routes.version then none
      else some n.desk.registry.routes.snapshot) := by
    unfold snapshotUnless
    rw [h.staysUp, h.published]
    rfl
  simp only [serveRoute, if_pos hget, getRedirections, hheld, hgiven]
  by_cases hcurrent : held = some n.desk.registry.routes.version
  · simp only [if_pos hcurrent]
  · simp only [if_neg hcurrent]

/-- **A response tells what has changed.**  On every node that runs, and for every request:
* what is not answered with success leaves the rules, their version, the subscriptions and the
  store as they were;
* a request that may change the rules is told whether it has, if it is taken and its change can be
  saved; it is told that something has changed exactly if the version is another one, and with
  success that nothing has exactly if nothing has;
* no `GET` request and no request below the definitions changes anything of the registry;
* a reader who gives the current version is answered that nothing has been modified, and any other
  is given the rules with their version.
That the version is another one rests on `hfresh`: what is drawn for it is not the current one. -/
theorem Serving.response_tells_change (h : n.Serving)
    (hfresh : (Version.fresh n.desk.mint).1 ≠ n.desk.registry.routes.version) (timestamp : String)
    (r : Request) {response : Response} {after : Node}
    (hserve : Api.serve timestamp n r = (response, after)) :
    (¬ response.Succeeds →
      after.desk.registry = n.desk.registry ∧ after.desk.store = n.desk.store) ∧
    (∀ word, r.changeWord? = some word →
      (∀ a changed, n.attempt? r = some a → a.verdict = .ok changed →
        (changed = true → n.desk.store.failure = none) → response = .ofChange word changed) ∧
      (response = .ofChange word true ↔
        after.desk.registry.routes.version ≠ n.desk.registry.routes.version) ∧
      (response = .ofChange word false ↔ response.Succeeds ∧ after.desk = n.desk) ∧
      (response.Succeeds → ∃ changed, response = .ofChange word changed)) ∧
    (r.method = "GET" ∨ (Address.of r.address).IsBelow "definitions" → after.desk = n.desk) ∧
    (r.method = "GET" → Route.of? (.of r.address) = some .redirections →
      ∀ held, heldVersion? (.of r.address) = some held →
        (response.status = 304 ↔ held = some n.desk.registry.routes.version) ∧
        (held ≠ some n.desk.registry.routes.version →
          response = .ok n.desk.registry.routes.snapshot.toJson)) := by
  have haside : r.changeWord? = none → after.desk = n.desk := fun hword => by
    simpa only [hserve] using desk_serve n timestamp hword
  have hchange : ∀ word, r.changeWord? = some word →
      n.Changes word (n.attempt? r) (response, after) :=
    fun word hword => hserve ▸ changes_serve h.steady hword
  refine ⟨?_, ?_, ?_, ?_⟩
  · intro hfailed
    cases hword : r.changeWord? with
    | none => rw [haside hword]; exact ⟨rfl, rfl⟩
    | some word => exact (hchange word hword).unchanged hfailed
  · intro word hword
    refine ⟨fun a changed hattempt hverdict hworks => ?_, (hchange word hword).told hfresh⟩
    exact (hattempt ▸ hchange word hword).response_eq hverdict hworks
  · rintro (hget | hbelow)
    · exact haside (Request.changeWord?_of_get hget)
    · exact haside (Request.changeWord?_of_ne_redirections (Route.of?_ne_redirections hbelow))
  · intro hget hroute held hheld
    rw [h.steady.serve_get hget hroute hheld] at hserve
    obtain ⟨rfl, rfl⟩ := Prod.ext_iff.mp hserve
    by_cases hcurrent : held = some n.desk.registry.routes.version
    · simp [hcurrent, Response.bare]
    · simp [hcurrent, Response.ok]

/-- A node with two rules, on a store that was empty, and with nothing to look up. -/
def holdingTwo : Node :=
  ((⟨Desk.opened, .empty, .new .empty false none, .empty, true, false⟩ : Node).command
    (.append Desk.twoRules)).2

@[inherit_doc holdingTwo]
def holdingTwoFailing : Node :=
  { holdingTwo with desk := holdingTwo.desk.underFailure (some (.root "disk full")) }

theorem serving_holdingTwo : holdingTwo.Serving := by
  have hload : Desk.load "node" .empty 2000 default = .ok Desk.opened := rfl
  exact .command (.start hload _ _ _) _

theorem serving_holdingTwoFailing : holdingTwoFailing.Serving :=
  .surroundings serving_holdingTwo _ _ _ _ _

/-- A request to remove one of the rules. -/
def removeFirst : Request where
  method := "DELETE"
  address := "/redirections?by=ops"
  contentType := some "application/json; charset=utf-8"
  body := some (Utf8.encode (Json.object [("ids", .array [(Uuid.ofNat 1).toJson])]).render)

/-- The rule is removed where the change can be saved.  Where it cannot, it is there as before. -/
theorem response_tells_change_removeFirst :
    (Api.serve "" holdingTwo removeFirst).1 = .ofChange "removed" true ∧
      (Api.serve "" holdingTwoFailing removeFirst).1.status = 500 ∧
      (Api.serve "" holdingTwoFailing removeFirst).2.desk.registry = holdingTwo.desk.registry := by
  obtain ⟨-, htold, -⟩ := serving_holdingTwo.response_tells_change (by decide +kernel) ""
    removeFirst (Prod.eta _).symm
  obtain ⟨hfailed, -⟩ := serving_holdingTwoFailing.response_tells_change (by decide +kernel) ""
    removeFirst (Prod.eta _).symm
  have hword : removeFirst.changeWord? = some "removed" := by decide +kernel
  have hasked : removeFirst.decode popBody = .ok [Uuid.ofNat 1] := by
    have htype : removeFirst.contentType.bind MediaType.parse? =
        some ⟨"application".toList, "json".toList, none⟩ := by decide +kernel
    rw [Request.decode_written popBody htype (by decide +kernel) rfl (by decide +kernel)]
    decide +kernel
  have hattempt : holdingTwo.attempt? removeFirst = some (holdingTwo.desk.pop [Uuid.ofNat 1]) := by
    rw [attempt?, hasked]
    rfl
  have hstatus : (Api.serve "" holdingTwoFailing removeFirst).1.status = 500 := by decide +kernel
  refine ⟨(htold "removed" hword).1 _ true hattempt (by decide +kernel) fun _ => rfl, hstatus, ?_⟩
  exact (hfailed (by rw [Response.Succeeds, hstatus]; decide)).1

end Node

end Signpost.Api

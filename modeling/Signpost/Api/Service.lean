import Signpost.Admin.Registry
import Signpost.Api.Address
import Signpost.Api.MediaType
import Signpost.Catalog
import Signpost.Json.Bytes

/-!
# The interface

The interface answers requests with a method, an address and perhaps a JSON body.  It reads and
changes the redirection table through the administration worker, and looks up definitions in the
catalog.  Once the node shuts down, whatever would have to wait for somebody is given up.

## Main definitions

* `Api.Request`, `Api.Response`
* `Api.Node`: what requests are served from.
* `Api.Route.of?`: the route of an address.
* `Api.serve`: answers a request.
-/

namespace Signpost.Api

open Json (Decoder Fault)

/-! ## Requests and responses -/

/-- A request. -/
structure Request where
  method : String
  /-- The address as it is written. -/
  address : String
  contentType : Option String
  /-- The bytes of the body, which need not be a text. -/
  body : Option (List UInt8)

/-- A response: its status and, if it has one, its JSON body. -/
structure Response where
  status : Nat
  body : Option Json

namespace Response

/-- A response without a body. -/
def bare (status : Nat) : Response := ⟨status, none⟩

/-- A response with a body. -/
def ok (body : Json) : Response := ⟨200, some body⟩

/-- A response that tells of an error. -/
def error (status : Nat) (message : String) : Response :=
  ⟨status, some (.object [("error", .string message)])⟩

/-- The response to a change of the redirection table, which says whether anything has changed. -/
def ofChange (word : String) (changed : Bool) : Response := ok (.object [(word, .bool changed)])

/-- The response to a refused request to the administration. -/
def ofError (e : Admin.Error) : Response :=
  error (match e with
    | .redirection (.validation _ _) => 400
    | .redirection (.conflict _ _ _) => 409
    | .workerStopped => 503
    | .persistence _ | .cancelled => 500) e.message

end Response

/-! ## The node -/

/-- What requests are served from. -/
structure Node where
  desk : Admin.Desk
  directory : Delivery.Directory
  catalog : Catalog
  database : Database
  /-- Whether the administration worker runs. -/
  running : Bool
  /-- Whether the node shuts down. -/
  shuttingDown : Bool

namespace Node

/-- When whoever serves a request is told to give up. -/
def cancel (n : Node) : Cancel := if n.shuttingDown then .already else .never

/-- Passes a command to the administration worker. -/
def command (n : Node) (c : Admin.Command) : Except Admin.Error Admin.Answer × Node :=
  if n.shuttingDown then (.error .cancelled, n)
  else if !n.running then (.error .workerStopped, n)
  else
    let (ran, desk) := n.desk.run n.directory .never c true
    (ran.answer, { n with desk })

/-- The published snapshot, unless the caller holds it already. -/
def snapshotUnless (n : Node) (held : Option Version) :
    Except Admin.Error (Option Redirection.Snapshot) :=
  if n.shuttingDown then .error .cancelled
  else
    let current := n.desk.registry.published
    .ok (if held = some current.version then none else some current)

end Node

/-! ## Routes -/

/-- What an address leads to. -/
inductive Route where
  | health
  | redirections
  | refresh
  /-- The definitions of a kind, as it is written. -/
  | listing (kind : List Char)
  /-- One definition, by its kind and its identifier, as they are written. -/
  | definition (kind id : List Char)
deriving DecidableEq

namespace Route

/-- The route of an address, if it leads anywhere. -/
def of? (a : Address) : Option Route :=
  match a.segments with
  | [] :: first :: rest =>
    if first = "health".toList then if rest.isEmpty then some .health else none
    else if first = "redirections".toList then if rest.isEmpty then some .redirections else none
    else if first = "definitions".toList then
      match rest with
      | [kind] =>
        if kind.isEmpty then none
        -- the word goes before the kinds, none of which is called so
        else if kind = "refresh".toList then some .refresh
        else some (.listing kind)
      | [kind, id] => if kind.isEmpty || id.isEmpty then none else some (.definition kind id)
      | _ => none
    else none
  | _ => none

end Route

/-! ## What is asked -/

/-- The body of a request to append rules. -/
def appendBody : Decoder (List Redirection.Rule) := fun d =>
  (fun r => r.1) <$> Decoder.record
    (.required "rules" (.list Redirection.Rule.decode) <| .optional "identity" .string .nil) d

/-- The body of a request to remove rules. -/
def popBody : Decoder (List Uuid) := fun d =>
  (fun r => r.1) <$> Decoder.record
    (.required "ids" (.list Uuid.decode) <| .optional "identity" .string .nil) d

/-- The version that the caller has, if the query gives one; it may not give several. -/
def heldVersion? (a : Address) : Option (Option Version) :=
  match a.queryValues "version" with
  | [] => some none
  | [version] => some (some ⟨version⟩)
  | _ => none

/-- The status of a request whose body is not what it should be. -/
def faultStatus : Fault → Nat
  | .shape => 422
  | .malformed | .truncated => 400

/-- How many bytes of a body are read at most: two mebibytes. -/
def maxBodySize : Nat := 0x200000

/-- What the body of a request holds, or the status with which the request is refused. -/
def Request.decode {α : Type} (r : Request) (decode : Decoder α) : Except Nat α :=
  match r.contentType.bind MediaType.parse? with
  | none => .error 415
  | some m =>
    let body := r.body.getD []
    if !m.isJson then .error 415
    else if maxBodySize < body.length then .error 413
    else (Json.decodeBytes decode body).mapError faultStatus

/-- The kind that a segment names. -/
def kind? (segment : List Char) : Option Kind :=
  (Address.decodeSegment? segment).bind Kind.ofName?

/-- The identifier that a segment gives. -/
def id? (segment : List Char) : Option Uuid :=
  (Address.decodeSegment? segment).bind Uuid.parse?

/-! ## Answers -/

/-- Says that the node is there. -/
def health (timestamp : String) : Response :=
  .ok (.object [("status", .string "healthy"), ("timestamp", .string timestamp)])

/-- The redirection table, unless the caller has its version. -/
def getRedirections (a : Address) (n : Node) : Response :=
  match heldVersion? a with
  | none => .bare 400
  | some held =>
    match n.snapshotUnless held with
    | .ok (some snapshot) => .ok snapshot.toJson
    | .ok none => .bare 304
    | .error e => .ofError e

/-- The answer to a change of the redirection table. -/
def answerChange (word : String) (n : Node) (c : Admin.Command) : Response × Node :=
  match n.command c with
  | (.ok (.changed b), n) => (.ofChange word b, n)
  | (.ok (.subscribed _), n) => (.bare 200, n)
  | (.error e, n) => (.ofError e, n)

/-- Changes the redirection table as the body of a request asks. -/
def changeRedirections {α : Type} (word : String) (decode : Decoder α)
    (command : α → Admin.Command) (r : Request) (n : Node) : Response × Node :=
  match r.decode decode with
  | .error status => (.bare status, n)
  | .ok asked => answerChange word n (command asked)

/-- Appends rules. -/
def appendRedirections : Request → Node → Response × Node :=
  changeRedirections "applied" appendBody .append

/-- Removes rules. -/
def popRedirections : Request → Node → Response × Node :=
  changeRedirections "removed" popBody .pop

/-- Lists the definitions of a kind. -/
def listDefinitions (segment : List Char) (n : Node) : Response × Node :=
  match kind? segment with
  | none => (.bare 400, n)
  | some k =>
    let (definitions, catalog) := n.catalog.all n.database k n.cancel
    (.ok (.object [("kind", .string k.name),
      ("definitions", .array (definitions.value.map Definition.toJson)),
      ("count", .ofNat definitions.value.length)]), { n with catalog })

/-- Looks up one definition. -/
def getDefinition (kind id : List Char) (n : Node) : Response × Node :=
  match kind? kind, id? id with
  | some k, some id =>
    let (result, catalog) := n.catalog.find n.database k n.cancel id
    let name := k.name ++ " '" ++ id.toString ++ "'"
    (match result.value with
      | .found a => .ok (Definition.toJson a)
      | .notFound => .error 404 (name ++ " not found")
      | .unavailable failed => ⟨503, some (.object [
          ("error", .string (name ++ " could not be resolved")),
          ("failed_sources", .ofStrings failed)])⟩, { n with catalog })
  | _, _ => (.bare 400, n)

/-- Refreshes the caches of the catalog. -/
def refreshDefinitions (n : Node) : Response × Node :=
  let (result, catalog) := n.catalog.refreshAll n.database n.cancel
  (match result.value with
    | .ok () => .ok (.object [("status", .string "ok")])
    | .error f => .error 502 f.chain, { n with catalog })

/-- Answers a request for a route by its method. -/
def serveRoute (timestamp : String) (r : Request) (a : Address) (n : Node) :
    Route → Response × Node
  | .health => if r.method = "GET" then (health timestamp, n) else (.bare 405, n)
  | .redirections =>
    if r.method = "GET" then (getRedirections a n, n)
    else if r.method = "POST" then appendRedirections r n
    else if r.method = "DELETE" then popRedirections r n
    else (.bare 405, n)
  | .refresh => if r.method = "POST" then refreshDefinitions n else (.bare 405, n)
  | .listing kind => if r.method = "GET" then listDefinitions kind n else (.bare 405, n)
  | .definition kind id => if r.method = "GET" then getDefinition kind id n else (.bare 405, n)

/-- Answers a request.  `OPTIONS` is allowed everywhere, and `HEAD` is `GET` without the body. -/
def serve (timestamp : String) (n : Node) (r : Request) : Response × Node :=
  let a := Address.of r.address
  if r.method = "OPTIONS" then (.bare 200, n)
  else
    match Route.of? a with
    | none => (.bare 404, n)
    | some route =>
      if r.method = "HEAD" then
        let (response, n) := serveRoute timestamp { r with method := "GET" } a n route
        (.bare response.status, n)
      else serveRoute timestamp r a n route

end Signpost.Api
